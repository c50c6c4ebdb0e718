import Countersign.Bytes

/-!
# Recursive length encoding

Trees of byte strings as one byte string, each part with its length in front. A number is the byte
string of its octets without leading zeros.
-/
namespace Countersign

inductive Rlp where
  | bytes (b : Bytes)
  | list (items : List Rlp)
  deriving Repr

namespace Rlp

/-- The head of a part: its length in one octet, or the length of the length and the length.
`base` tells byte strings from lists. -/
def head (base : UInt8) (length : Nat) : Bytes :=
  if length < 56 then [base + UInt8.ofNat length]
  else
    let octets := Bytes.trimmed (Bytes.ofNat 8 length)
    (base + 55 + UInt8.ofNat octets.length) :: octets

/-- A byte string; one octet below `0x80` is written as itself. -/
def encodeBytes (b : Bytes) : Bytes :=
  match b with
  | [o] => if o < 0x80 then [o] else head 0x80 1 ++ [o]
  | b => head 0x80 b.length ++ b

mutual

def encode : Rlp → Bytes
  | .bytes b => encodeBytes b
  | .list items =>
    let payload := encodeAll items
    head 0xC0 payload.length ++ payload

def encodeAll : List Rlp → Bytes
  | [] => []
  | item :: rest => encode item ++ encodeAll rest

end

def nat (n : Nat) : Rlp :=
  .bytes (Bytes.trimmed (Bytes.ofNat 32 n))

end Rlp

end Countersign
