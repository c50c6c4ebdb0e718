import Countersign.Curve.Encoding
import Countersign.Hash.Keyed

/-!
# Signatures over the curve

ECDSA on digests of thirty-two octets. Of the two signatures `(r, s)` and `(r, n - s)` the one with
the smaller second number is made, and only that one verifies. The secret number of a signature is
drawn from the key and the digest as RFC 6979 lays down, so signing is a function.
-/
namespace Countersign.Curve

structure EcdsaPair where
  r : Nat
  s : Nat
  deriving DecidableEq, Repr

namespace EcdsaPair

def inRange (c : EcdsaPair) : Bool :=
  0 < c.r && c.r < order && 0 < c.s && c.s < order

def isLow (c : EcdsaPair) : Bool :=
  c.s ≤ order / 2

/-- The one of the two equivalent signatures that is low. -/
def lowered (c : EcdsaPair) : EcdsaPair :=
  if c.isLow then c else ⟨c.r, order - c.s⟩

def bytes (c : EcdsaPair) : Bytes :=
  Bytes.ofNat 32 c.r ++ Bytes.ofNat 32 c.s

/-- Reads sixty-four octets whose numbers are in range. -/
def decode? (b : Bytes) : Option EcdsaPair :=
  let c : EcdsaPair := ⟨Bytes.toNat (b.take 32), Bytes.toNat (b.drop 32)⟩
  if b.length = 64 ∧ c.inRange then some c else none

end EcdsaPair

/-- A low signature that belongs to a point and a digest. -/
def verify (q : Point) (digest : Bytes) (c : EcdsaPair) : Bool :=
  if c.inRange && c.isLow then
    let w := inverse order c.s
    let u := Bytes.toNat digest * w % order
    let v := c.r * w % order
    match (generator.multiple u).add (q.multiple v) with
    | .infinity => false
    | .affine x _ => x % order == c.r
  else false

/-- The octets of a public key, a digest and a signature belong together. Octets that are no key or
no signature belong to nothing. -/
def verifies (key digest signature : Bytes) : Bool :=
  match Point.decode? key, EcdsaPair.decode? signature with
  | some q, some c => verify q digest c
  | _, _ => false

structure Draws where
  key : Bytes
  value : Bytes

namespace Draws

def stir (d : Draws) (mark : UInt8) (data : Bytes) : Draws :=
  let key := Sha256.hmac d.key (d.value ++ mark :: data)
  ⟨key, Sha256.hmac key d.value⟩

def start (d : Scalar) (digest : Bytes) : Draws :=
  let data := Bytes.ofNat 32 d.value ++ Bytes.ofNat 32 (Bytes.toNat digest % order)
  ((⟨List.replicate 32 0, List.replicate 32 1⟩ : Draws).stir 0x00 data).stir 0x01 data

/-- The first number drawn that makes a signature, among as many as `fuel` draws. -/
def sign? (secret : Scalar) (digest : Bytes) : Nat → Draws → Option EcdsaPair
  | 0, _ => none
  | fuel + 1, d =>
    let value := Sha256.hmac d.key d.value
    let k := Bytes.toNat value
    let r := (generator.multiple k).abscissa % order
    let s := inverse order k * (Bytes.toNat digest + r * secret.value) % order
    let c : EcdsaPair := ⟨r, s⟩
    if 0 < k ∧ k < order ∧ c.inRange then some c.lowered
    else sign? secret digest fuel ((⟨d.key, value⟩ : Draws).stir 0x00 [])

end Draws

/-- Signs a digest. A draw fails with a chance below `2^-127`, and sixty-four of them are made. -/
def sign? (secret : Scalar) (digest : Bytes) : Option EcdsaPair :=
  Draws.sign? secret digest 64 (.start secret digest)

end Countersign.Curve
