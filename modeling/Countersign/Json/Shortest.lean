import Countersign.Text.Digits

/-!
# The shortest decimal of a double

A finite double is `m · 2^q`. Of the decimals that read back as it, the one with the fewest digits
is taken, and of two such the nearer. With `n` digits only the two neighbours of the value on the
grid of that many digits need a test. All arithmetic is exact.
-/
namespace Countersign.Json

structure Decimal where
  digits : Nat
  exponent : Int
  deriving DecidableEq, Repr

/-- A positive finite double: its value in quarters of its last place, the quarters down to the
edge of what rounds to it, and the exponent of one quarter. -/
structure Quarters where
  value : Nat
  below : Nat
  exponent : Int

/-- The quarters of the double with the given exponent field and fraction field. The double below a
power of two is only half as far away. -/
def Quarters.ofFields (field fraction : Nat) : Quarters :=
  if field = 0 then ⟨4 * fraction, 2, -1076⟩
  else ⟨4 * (2 ^ (52 : Nat) + fraction), if fraction = 0 ∧ field ≠ 1 then 1 else 2,
    (field : Int) - 1077⟩

namespace Quarters

/-- A count of quarters over the grid `10^p`, as numerator and denominator. -/
def onGrid (x : Quarters) (count : Nat) (p : Int) : Nat × Nat :=
  (count * 2 ^ x.exponent.toNat * 10 ^ (-p).toNat, 2 ^ (-x.exponent).toNat * 10 ^ p.toNat)

def leading (x : Quarters) : Int :=
  let (num, den) := x.onGrid x.value 0
  if den ≤ num then ((Nat.toDigits 10 (num / den)).length : Int) - 1
  else
    match (List.range 400).find? fun j => den ≤ num * 10 ^ j with
    | some j => -(j : Int)
    | none => -400

/-- The grid point `c · 10^p` rounds to the double. The edges do when the fraction is even. -/
def holds (x : Quarters) (c : Nat) (p : Int) : Bool :=
  let (low, den) := x.onGrid (x.value - x.below) p
  let (high, _) := x.onGrid (x.value + 2) p
  if x.value % 8 = 0 then low ≤ c * den && c * den ≤ high else low < c * den && c * den < high

/-- The nearer of the two neighbours on a grid that round to the double. -/
def neighbour? (x : Quarters) (p : Int) : Option Nat :=
  let (num, den) := x.onGrid x.value p
  let c := num / den
  match x.holds c p, x.holds (c + 1) p with
  | true, true =>
    if 2 * num < (2 * c + 1) * den ∨ 2 * num = (2 * c + 1) * den ∧ c % 2 = 0 then some c
    else some (c + 1)
  | true, false => some c
  | false, true => some (c + 1)
  | false, false => none

end Quarters

def Decimal.reduced (fuel : Nat) (d : Decimal) : Decimal :=
  match fuel with
  | 0 => d
  | fuel + 1 =>
    if d.digits ≠ 0 ∧ d.digits % 10 = 0 then reduced fuel ⟨d.digits / 10, d.exponent + 1⟩ else d

/-- The first grid with a hit wins; seventeen digits always have one. -/
def Quarters.shortest (x : Quarters) : Decimal :=
  let grids := (List.range 17).map fun (n : Nat) => x.leading - (n : Int)
  match grids.findSome? fun p => (x.neighbour? p).map fun c => Decimal.mk c p with
  | some d => d.reduced 20
  | none => ⟨0, 0⟩

/-- How a decimal is laid out: positional from `1e-5` up to below `1e16`, and always with a point;
otherwise one digit before the point and an exponent with its sign. -/
def Decimal.layout (d : Decimal) : List Char :=
  let ds := Nat.toDigits 10 d.digits
  let lead := d.exponent + ds.length - 1
  if lead < -5 ∨ 15 < lead then
    let tail := if ds.length ≤ 1 then [] else '.' :: ds.drop 1
    let sign := if lead < 0 then '-' else '+'
    ds.take 1 ++ tail ++ ['e', sign] ++ Nat.toDigits 10 lead.natAbs
  else if 0 ≤ d.exponent then ds ++ List.replicate d.exponent.toNat '0' ++ ['.', '0']
  else if 0 ≤ lead then ds.take (lead.toNat + 1) ++ '.' :: ds.drop (lead.toNat + 1)
  else '0' :: '.' :: List.replicate (-lead - 1).toNat '0' ++ ds

def floatText (x : Float) : List Char :=
  let bits := x.toBits.toNat
  let sign := if bits / 2 ^ (63 : Nat) = 1 then ['-'] else []
  let field := bits / 2 ^ (52 : Nat) % 2 ^ (11 : Nat)
  let fraction := bits % 2 ^ (52 : Nat)
  if field = 0 ∧ fraction = 0 then sign ++ ['0', '.', '0']
  else sign ++ (Quarters.ofFields field fraction).shortest.layout

end Countersign.Json
