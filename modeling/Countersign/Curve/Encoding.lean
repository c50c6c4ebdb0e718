import Countersign.Bytes
import Countersign.Curve.Point

/-!
# Points as octets

The encodings of SEC 1. A point is written as a tag with one coordinate or both; on reading, the
coordinates must be below the prime and the point on the curve.
-/
namespace Countersign.Curve

namespace Point

/-- The point with the given first coordinate whose second one is odd or even. -/
def lift? (x : Nat) (odd : Bool) : Option Point :=
  let y := power prime 256 ((x * x * x + 7) % prime) ((prime + 1) / 4)
  if x < prime ∧ holds x y then
    if (y % 2 == 1) = odd then some (.affine x y) else some (.affine x (prime - y))
  else none

/-- Reads a point. The tag `05` stands for the even second coordinate, like `02`. -/
def decode? : Bytes → Option Point
  | [] => none
  | tag :: rest =>
    if rest.length = 32 then
      if tag = 0x02 ∨ tag = 0x05 then lift? (Bytes.toNat rest) false
      else if tag = 0x03 then lift? (Bytes.toNat rest) true
      else none
    else if rest.length = 64 ∧ tag = 0x04 then
      let x := Bytes.toNat (rest.take 32)
      let y := Bytes.toNat (rest.drop 32)
      if x < prime ∧ y < prime ∧ holds x y then some (.affine x y) else none
    else none

def coordinates (p : Point) : Bytes :=
  Bytes.ofNat 32 p.abscissa ++ Bytes.ofNat 32 p.ordinate

def uncompressed : Point → Bytes
  | .infinity => [0x00]
  | p => 0x04 :: p.coordinates

/-- The short form, whose tag tells odd from even. -/
def compressed : Point → Bytes
  | .infinity => [0x00]
  | p => (if p.ordinate % 2 = 1 then 0x03 else 0x02) :: Bytes.ofNat 32 p.abscissa

end Point

def Scalar.decode? (b : Bytes) : Option Scalar :=
  if b.length = 32 then ofNat? (Bytes.toNat b) else none

end Countersign.Curve
