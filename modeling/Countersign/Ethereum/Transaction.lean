import Countersign.Ethereum.Address
import Countersign.Ethereum.Rlp
import Countersign.Ethereum.Signature
import Countersign.Json.Quantity

/-!
# Transactions

The two kinds of transaction that a device signs: the legacy one, protected against replay by its
chain, and the one with a priority fee. Each has an encoding that is signed and one that is
broadcast, and a JSON form.
-/
namespace Countersign

/-- An account and the storage slots of it that a transaction announces. -/
structure AccessListEntry where
  address : Address
  storageKeys : List (Octets 32)
  deriving DecidableEq, Repr

/-- A transaction with one gas price. Without a recipient it creates a contract. -/
structure LegacyTransaction where
  chainId : Word 64
  nonce : Word 64
  gasPrice : Word 256
  gasLimit : Word 64
  recipient : Option Address
  value : Word 256
  data : Bytes
  deriving DecidableEq, Repr

structure FeeTransaction where
  chainId : Word 64
  nonce : Word 64
  maxPriorityFeePerGas : Word 256
  maxFeePerGas : Word 256
  gasLimit : Word 64
  recipient : Option Address
  value : Word 256
  data : Bytes
  accessList : List AccessListEntry
  deriving DecidableEq, Repr

inductive Transaction where
  | legacy (tx : LegacyTransaction)
  | fee (tx : FeeTransaction)
  deriving DecidableEq, Repr

/-! ### Encodings -/

/-- The recipient as a byte string; no recipient is the empty one. -/
def recipientItem : Option Address → Rlp
  | some a => .bytes a.bytes
  | none => .bytes []

def signatureItems (g : Signature) : List Rlp :=
  [.bytes (Bytes.trimmed g.r.bytes), .bytes (Bytes.trimmed g.s.bytes)]

namespace LegacyTransaction

def body (tx : LegacyTransaction) : List Rlp :=
  [.nat tx.nonce, .nat tx.gasPrice, .nat tx.gasLimit, recipientItem tx.recipient, .nat tx.value,
    .bytes tx.data]

/-- The encoding that is signed. -/
def unsigned (tx : LegacyTransaction) : Bytes :=
  (Rlp.list (tx.body ++ [.nat tx.chainId, .nat 0, .nat 0])).encode

/-- The recovery number of a signature. The device gives its last octet only, so it is rebuilt from
the parity. The sum is one of sixty-four bits, which it overflows on the largest chains only. -/
def recovery (tx : LegacyTransaction) (g : Signature) : Word 64 :=
  Word.ofNat 64 (tx.chainId * 2 + 35 + g.parity)

/-- The encoding that is broadcast. -/
def signed (tx : LegacyTransaction) (g : Signature) : Bytes :=
  (Rlp.list (tx.body ++ .nat (tx.recovery g) :: signatureItems g)).encode

end LegacyTransaction

def AccessListEntry.item (e : AccessListEntry) : Rlp :=
  .list [.bytes e.address.bytes, .list (e.storageKeys.map fun k => .bytes k.bytes)]

namespace FeeTransaction

/-- The octet in front of the encodings of this kind. -/
def envelope : UInt8 := 0x02

def body (tx : FeeTransaction) : List Rlp :=
  [.nat tx.chainId, .nat tx.nonce, .nat tx.maxPriorityFeePerGas, .nat tx.maxFeePerGas,
    .nat tx.gasLimit, recipientItem tx.recipient, .nat tx.value, .bytes tx.data,
    .list (tx.accessList.map AccessListEntry.item)]

def unsigned (tx : FeeTransaction) : Bytes :=
  envelope :: (Rlp.list tx.body).encode

def signed (tx : FeeTransaction) (g : Signature) : Bytes :=
  envelope :: (Rlp.list (tx.body ++ .nat g.parity :: signatureItems g)).encode

end FeeTransaction

namespace Transaction

def unsigned : Transaction → Bytes
  | .legacy tx => tx.unsigned
  | .fee tx => tx.unsigned

def signed : Transaction → Signature → Bytes
  | .legacy tx, g => tx.signed g
  | .fee tx, g => tx.signed g

def chainId : Transaction → Word 64
  | .legacy tx => tx.chainId
  | .fee tx => tx.chainId

end Transaction

/-! ### JSON -/

open Json

def recipientJson : Option Address → Json
  | some a => ofBytes a.bytes
  | none => .null

namespace AccessListEntry

def toJson (e : AccessListEntry) : Json :=
  .object [("address", ofBytes e.address.bytes),
    ("storageKeys", .array (e.storageKeys.map fun k => ofBytes k.bytes))]

/-- Where an entry holds byte strings of known length. -/
def shape : Shape :=
  .record [("address", .octets 20), ("storageKeys", .list (.octets 32))]

def decode : Decoder AccessListEntry :=
  Record.of AccessListEntry.mk
    |>.and (.required "address" (Decoder.octets 20))
    |>.and (.required "storageKeys" (Decoder.list (Decoder.octets 32)))
    |>.decode

end AccessListEntry

namespace LegacyTransaction

def members (tx : LegacyTransaction) : List (String × Json) :=
  [("chainId", Json.nat tx.chainId), ("nonce", Json.nat tx.nonce),
    ("gasPrice", ofQuantity tx.gasPrice), ("gasLimit", Json.nat tx.gasLimit),
    ("to", recipientJson tx.recipient), ("value", ofQuantity tx.value), ("data", ofBytes tx.data)]

def shape : Shape :=
  .record [("chainId", .any), ("nonce", .any), ("gasPrice", .any), ("gasLimit", .any),
    ("to", .octets 20), ("value", .any), ("data", .any)]

def decode : Decoder LegacyTransaction :=
  Record.of LegacyTransaction.mk
    |>.and (.required "chainId" (Decoder.word 64))
    |>.and (.required "nonce" (Decoder.word 64))
    |>.and (.required "gasPrice" Decoder.quantity)
    |>.and (.required "gasLimit" (Decoder.word 64))
    |>.and (.optional "to" (Decoder.nullable (Decoder.octets 20)) none)
    |>.and (.required "value" Decoder.quantity)
    |>.and (.optional "data" Decoder.bytes [])
    |>.decode

end LegacyTransaction

namespace FeeTransaction

def members (tx : FeeTransaction) : List (String × Json) :=
  [("chainId", Json.nat tx.chainId), ("nonce", Json.nat tx.nonce),
    ("maxPriorityFeePerGas", ofQuantity tx.maxPriorityFeePerGas),
    ("maxFeePerGas", ofQuantity tx.maxFeePerGas), ("gasLimit", Json.nat tx.gasLimit),
    ("to", recipientJson tx.recipient), ("value", ofQuantity tx.value), ("data", ofBytes tx.data),
    ("accessList", .array (tx.accessList.map AccessListEntry.toJson))]

def shape : Shape :=
  .record [("chainId", .any), ("nonce", .any), ("maxPriorityFeePerGas", .any),
    ("maxFeePerGas", .any), ("gasLimit", .any), ("to", .octets 20), ("value", .any),
    ("data", .any), ("accessList", .list AccessListEntry.shape)]

def decode : Decoder FeeTransaction :=
  Record.of FeeTransaction.mk
    |>.and (.required "chainId" (Decoder.word 64))
    |>.and (.required "nonce" (Decoder.word 64))
    |>.and (.required "maxPriorityFeePerGas" Decoder.quantity)
    |>.and (.required "maxFeePerGas" Decoder.quantity)
    |>.and (.required "gasLimit" (Decoder.word 64))
    |>.and (.optional "to" (Decoder.nullable (Decoder.octets 20)) none)
    |>.and (.required "value" Decoder.quantity)
    |>.and (.optional "data" Decoder.bytes [])
    |>.and (.optional "accessList" (Decoder.list AccessListEntry.decode) [])
    |>.decode

end FeeTransaction

namespace Transaction

/-- The JSON form, which names the kind in a member of its own. -/
def toJson : Transaction → Json
  | .legacy tx => .object (("type", .string "legacy") :: tx.members)
  | .fee tx => .object (("type", .string "eip1559") :: tx.members)

def decode : Decoder Transaction :=
  tagged "type"
    [("legacy", fun t => (LegacyTransaction.decode t).map .legacy),
      ("eip1559", fun t => (FeeTransaction.decode t).map .fee)]

def ofJson (input : Bytes) : Except Error Transaction :=
  match decodeDocument decode input with
  | .ok tx => .ok tx
  | .error e => .error (.invalidTransaction e.message)

end Transaction

end Countersign
