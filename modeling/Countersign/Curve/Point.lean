/-!
# The curve secp256k1

The points of `y² = x³ + 7` over the integers modulo a prime, with the group law in affine
coordinates. Coordinates are natural numbers below the prime.
-/
namespace Countersign.Curve

def prime : Nat := 2 ^ (256 : Nat) - 2 ^ (32 : Nat) - 977

def order : Nat := 0xFFFFFFFFFFFFFFFFFFFFFFFFFFFFFFFEBAAEDCE6AF48A03BBFD25E8CD0364141

/-- A power modulo `m`; the exponent has the given number of bits at most. -/
def power (m : Nat) : Nat → Nat → Nat → Nat
  | 0, _, _ => 1 % m
  | bits + 1, base, exponent =>
    let rest := power m bits (base * base % m) (exponent / 2)
    if exponent % 2 = 1 then base * rest % m else rest

/-- The inverse modulo a prime below `2^256`; zero has the inverse zero. -/
def inverse (m x : Nat) : Nat :=
  power m 256 x (m - 2)

def minus (x y : Nat) : Nat :=
  (x + (prime - y % prime)) % prime

inductive Point where
  | infinity
  | affine (x y : Nat)
  deriving DecidableEq, Repr

def holds (x y : Nat) : Bool :=
  y * y % prime == (x * x * x + 7) % prime

def generator : Point :=
  .affine 0x79BE667EF9DCBBAC55A06295CE870B07029BFCDB2DCE28D959F2815B16F81798
    0x483ADA7726A3C4655DA4FBFC0E1108A8FD17B448A68554199C47D08FFB10D4B8

namespace Point

/-- The third point on the line with the given slope, reflected. -/
def along (slope x₁ y₁ x₂ : Nat) : Point :=
  let x := minus (slope * slope) (x₁ + x₂)
  .affine x (minus (slope * minus x₁ x) y₁)

def double : Point → Point
  | .infinity => .infinity
  | .affine x y =>
    if y % prime = 0 then .infinity
    else along (3 * x * x * inverse prime (2 * y % prime) % prime) x y x

def add : Point → Point → Point
  | .infinity, q => q
  | p, .infinity => p
  | .affine x₁ y₁, .affine x₂ y₂ =>
    if x₁ = x₂ then
      if y₁ = y₂ then double (.affine x₁ y₁) else .infinity
    else along (minus y₂ y₁ * inverse prime (minus x₂ x₁) % prime) x₁ y₁ x₂

/-- A multiple of a point; the factor has the given number of bits at most. -/
def times : Nat → Nat → Point → Point
  | 0, _, _ => .infinity
  | bits + 1, k, p =>
    let rest := times bits (k / 2) (double p)
    if k % 2 = 1 then add p rest else rest

def multiple (k : Nat) (p : Point) : Point :=
  times 256 k p

/-- The first coordinate; infinity has none and gives zero. -/
def abscissa : Point → Nat
  | .infinity => 0
  | .affine x _ => x

/-- The second coordinate; infinity has none and gives zero. -/
def ordinate : Point → Nat
  | .infinity => 0
  | .affine _ y => y

end Point

/-- A secret factor: not zero and below the order. -/
structure Scalar where
  value : Nat
  pos : 0 < value
  lt_order : value < order
  deriving DecidableEq, Repr

namespace Scalar

def ofNat? (n : Nat) : Option Scalar :=
  if h : 0 < n ∧ n < order then some ⟨n, h.1, h.2⟩ else none

def point (d : Scalar) : Point :=
  generator.multiple d.value

/-- The first coordinate of the point that both owners of two secrets can compute. -/
def shared (d : Scalar) (q : Point) : Nat :=
  (q.multiple d.value).abscissa

end Scalar

end Countersign.Curve
