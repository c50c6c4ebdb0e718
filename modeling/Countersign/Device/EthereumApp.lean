import Countersign.Device.Link
import Countersign.Device.Path
import Countersign.Ethereum.Address
import Countersign.Ethereum.Signature

/-!
# The Ethereum app

Addresses and signatures. What is signed goes to the device in pieces with the path in front, and
the answer to the last piece is the signature.
-/
namespace Countersign.EthereumApp

def cla : UInt8 := 0xE0

structure Key where
  uncompressed : Bytes
  address : Address
  deriving DecidableEq, Repr

def splitReply (b : Bytes) : Except Error (Bytes × Bytes) :=
  let fields := do
    let (key, rest) ← Bytes.field? b
    let (text, _) ← Bytes.field? rest
    return (key, text)
  match fields with
  | some parts => .ok parts
  | none => .error (.malformedResponse "truncated address response")

/-- Reads a key and checks that the reported address is the one that belongs to it. -/
def Key.parse (b : Bytes) : Except Error Key := do
  let (key, text) ← splitReply b
  let reported ← Address.ofHex (Utf8.decodeLossy text)
  let derived ← Address.ofPublicKey key
  if reported = derived then return ⟨key, derived⟩
  else
    .error (.malformedResponse
      ("device reported " ++ reported.toChecksum ++ " for a key that derives "
        ++ derived.toChecksum))

def getAddress (path : DerivationPath) : Exchange Key := do
  let b ← Exchange.data ⟨cla, 0x02, 0, 0, path.ethereumBytes⟩
  Exchange.lift (Key.parse b)

/-- The commands of an instruction whose payload goes in pieces; only the first one is marked as
such. -/
def pieceCommands (ins : UInt8) (payload : Bytes) : List Apdu :=
  match Bytes.chunks Apdu.maxData payload with
  | [] => []
  | piece :: rest =>
    ⟨cla, ins, 0x00, 0, piece⟩ :: rest.map fun piece => ⟨cla, ins, 0x80, 0, piece⟩

/-- Sends a payload in pieces and reads the signature. -/
def signPieces (ins : UInt8) (payload : Bytes) : Exchange Signature := do
  let b ← Exchange.dataOfLast [] (pieceCommands ins payload)
  Exchange.lift (Signature.ofReply b)

def signPersonalMessage (path : DerivationPath) (message : Bytes) : Exchange Signature :=
  signPieces 0x08 (path.ethereumBytes ++ Bytes.ofNat 4 message.length ++ message)

def signTransaction (path : DerivationPath) (unsigned : Bytes) : Exchange Signature :=
  signPieces 0x04 (path.ethereumBytes ++ unsigned)

/-- Signs typed data, given by the hashes of its domain and its message. -/
def signTypedData (path : DerivationPath) (domain message : Bytes) : Exchange Signature := do
  let b ← Exchange.data ⟨cla, 0x0C, 0, 0, path.ethereumBytes ++ domain ++ message⟩
  Exchange.lift (Signature.ofReply b)

def describe : String :=
  "EthereumApp \x7b .. \x7d"

end Countersign.EthereumApp
