import Countersign.Approval.Channels
import Countersign.Approval.Desk
import Countersign.Approval.Docket
import Countersign.Approval.Message
import Countersign.Bytes
import Countersign.Caller
import Countersign.Cipher.Aes256
import Countersign.Cipher.Gcm
import Countersign.Curve.Ecdsa
import Countersign.Curve.Encoding
import Countersign.Curve.Point
import Countersign.Device.Apdu
import Countersign.Device.CosmosApp
import Countersign.Device.DerSignature
import Countersign.Device.EthereumApp
import Countersign.Device.Link
import Countersign.Device.LinkFault
import Countersign.Device.Path
import Countersign.Device.Session
import Countersign.Entropy
import Countersign.Error
import Countersign.Ethereum.Address
import Countersign.Ethereum.Rlp
import Countersign.Ethereum.Signature
import Countersign.Ethereum.Transaction
import Countersign.Ethereum.TypedData
import Countersign.Ethereum.TypedHash
import Countersign.Hash.Keccak256
import Countersign.Hash.Keyed
import Countersign.Hash.Sha256
import Countersign.Json.Decoder
import Countersign.Json.Quantity
import Countersign.Json.Shape
import Countersign.Json.Shortest
import Countersign.Json.Stop
import Countersign.Json.Token
import Countersign.Json.Tree
import Countersign.Json.Value
import Countersign.Messaging.Envelope
import Countersign.Messaging.Service
import Countersign.Messaging.SignDoc
import Countersign.Page.Answer
import Countersign.Page.Report
import Countersign.Page.Request
import Countersign.Proofs.Approval.Coherence
import Countersign.Proofs.Approval.Run
import Countersign.Settings
import Countersign.Settings.Text
import Countersign.Text.Base64
import Countersign.Text.Digits
import Countersign.Text.Escaped
import Countersign.Text.Hex
import Countersign.Text.Quoted
import Countersign.Text.Utf8
import Countersign.Toml.Document
import Countersign.Toml.Scalar
import Countersign.Toml.Table
import Countersign.Wallet
import Countersign.Proofs.Approval.Fate
import Countersign.Proofs.Approval.Distinct
import Countersign.Proofs.Approval.Resolution
import Countersign.Proofs.Approval.SharedId
import Countersign.Proofs.Bytes
import Countersign.Proofs.Ethereum.Rlp
import Countersign.Proofs.Page.Separation
import Countersign.Proofs.Ethereum.Recovery
import Countersign.Proofs.Device.Exchange
import Countersign.Proofs.Hash
import Countersign.Proofs.Device.Session
import Countersign.Proofs.Device.Closing
import Countersign.Proofs.Device.ShortCommands
import Countersign.Proofs.Ethereum.FieldType
import Countersign.Proofs.Ethereum.TypeText
import Countersign.Proofs.Ethereum.TypedValue
import Countersign.Proofs.Ethereum.StructHash
import Countersign.Proofs.Curve.Primes
import Countersign.Proofs.Curve.Group
import Countersign.Proofs.Cipher.Gcm
import Countersign.Proofs.Curve.Encoding
import Countersign.Proofs.Text.Base64
import Countersign.Proofs.Messaging.Envelope
import Countersign.Proofs.Messaging.Keys
import Countersign.Proofs.Messaging.Delivery
import Countersign.Proofs.Ethereum.RlpReader
import Countersign.Proofs.Ethereum.TransactionReader
import Countersign.Proofs.Messaging.Derivation
import Countersign.Proofs.Device.KeyExport
import Countersign.Proofs.Ethereum.Refusal
import Countersign.Proofs.Device.Signing
import Countersign.Proofs.Messaging.Failure
import Countersign.Proofs.Approval.Pending
import Countersign.Proofs.Approval.Channels
import Countersign.Proofs.Approval.Listening
import Countersign.Proofs.Ethereum.Reading
import Countersign.Proofs.Ethereum.Binding
import Countersign.Proofs.Device.Personas
import Countersign.Proofs.Device.Ending
import Countersign.Proofs.Device.Failures
import Countersign.Proofs.Device.Locked
import Countersign.Proofs.Text.Utf8
import Countersign.Proofs.Json.Token
import Countersign.Proofs.Json.Reading
import Countersign.Proofs.Json.Members
import Countersign.Proofs.Json.RoundTrip
import Countersign.Proofs.Page.Wire
import Countersign.Proofs.Curve.Signing
import Countersign.Proofs.Messaging.Signatures
import Countersign.Proofs.Messaging.Overlap
import Countersign.Proofs.Ethereum.Integers
import Countersign.Proofs.Ethereum.Closure
import Countersign.Proofs.Ethereum.Leaves
import Countersign.Proofs.Device.ScreenSaver
import Countersign.Proofs.Device.Opening
import Countersign.Proofs.Device.Pieces
import Countersign.Proofs.Device.PathOctets
import Countersign.Proofs.Device.Payload
import Countersign.Proofs.Device.Der
import Countersign.Proofs.Ethereum.ArraySizes
import Countersign.Proofs.Ethereum.DomainSeparator
import Countersign.Proofs.Json.Compact
import Countersign.Proofs.Messaging.SignDoc
import Countersign.Proofs.Messaging.Sealing
import Countersign.Proofs.Json.Forms
import Countersign.Proofs.Ethereum.TransactionForms
import Countersign.Proofs.Device.DerReading
import Countersign.Proofs.Device.PathText
import Countersign.Proofs.Ethereum.Relevance
import Countersign.Proofs.Approval.Locality
import Countersign.Proofs.Approval.Rejection
import Countersign.Proofs.Device.Fields
import Countersign.Proofs.Device.Addresses
import Countersign.Proofs.Ethereum.ChainNumber
import Countersign.Proofs.Approval.Refused
