import Countersign.Bytes
import Countersign.Error

/-!
# Recoverable signatures

The two numbers of a signature and the octet from which the signer's point is recovered, as a
device reports them.
-/
namespace Countersign

structure Signature where
  r : Octets 32
  s : Octets 32
  v : UInt8
  deriving DecidableEq, Repr

namespace Signature

def part (name : String) (b : Bytes) : Except Error (Octets 32) :=
  match Octets.ofBytes? 32 b with
  | some o => .ok o
  | none =>
    .error (.invalidSignature (name ++ " must be 32 bytes, got " ++ Digits.decimal b.length))

def ofParts (r s : Bytes) (v : UInt8) : Except Error Signature := do
  let r ← part "r" r
  let s ← part "s" s
  return ⟨r, s, v⟩

/-- Splits the reply of a device, which puts the recovery octet first. Octets behind the signature
are ignored. -/
def ofReply (reply : Bytes) : Except Error Signature :=
  match reply with
  | v :: rest =>
    if 64 ≤ rest.length then ofParts (rest.take 32) ((rest.drop 32).take 32) v else tooShort
  | [] => tooShort
where
  tooShort : Except Error Signature :=
    .error (.invalidSignature
      ("device reply has " ++ Digits.decimal reply.length ++ " bytes, need 65"))

/-- The sixty-five octets that wallets exchange, with the recovery octet last. -/
def toBytes (g : Signature) : Bytes :=
  g.r.bytes ++ g.s.bytes ++ [g.v]

/-- Whether the second coordinate of the signing point is odd. The recovery octet counts from zero,
from twenty-seven, or is the last octet of `2 * chain + 35 + parity`. -/
def odd (g : Signature) : Bool :=
  if g.v = 0 ∨ g.v = 27 then false
  else if g.v = 1 ∨ g.v = 28 then true
  else g.v % 2 == 0

def parity (g : Signature) : Nat :=
  if g.odd then 1 else 0

end Signature

end Countersign
