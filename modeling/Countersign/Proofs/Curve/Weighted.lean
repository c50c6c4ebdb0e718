import Countersign.Proofs.Curve.Group

/-!
# Sums without division

A point can be given by coordinates with a weight: the first one times the square of the weight, the
second one times its cube. Sums of such points need no inverses, so long multiples are computed
quickly. They are multiples in the same group, and the first coordinate of a multiple is told from
them.
-/
namespace Countersign.Curve

/-- Coordinates and their weight, which is zero for infinity. -/
structure Weighted where
  x : Nat
  y : Nat
  z : Nat

namespace Weighted

/-- Infinity. -/
def infinity : Weighted := ⟨1, 1, 0⟩

/-- The sum of a point with itself. -/
def double (p : Weighted) : Weighted :=
  let rise := 3 * p.x * p.x % prime
  let square := p.y * p.y % prime
  let x₁ := 4 * p.x * square % prime
  let x := minus (rise * rise) (2 * x₁)
  ⟨x, minus (rise * minus x₁ x) (8 * square * square), 2 * p.y * p.z % prime⟩

/-- The difference of the first coordinates, both with the weight of the other point as well. -/
def run (p q : Weighted) : Nat := minus (q.x * p.z * p.z) (p.x * q.z * q.z)

/-- The difference of the second coordinates, both with the weight of the other point as well. -/
def rise (p q : Weighted) : Nat := minus (q.y * p.z * p.z * p.z) (p.y * q.z * q.z * q.z)

/-- The third point on the line through two points, reflected. -/
def along (p q : Weighted) : Weighted :=
  let x₁ := p.x * q.z * q.z * run p q * run p q % prime
  let y₁ := p.y * q.z * q.z * q.z * run p q * run p q * run p q % prime
  let x := minus (rise p q * rise p q) (run p q * run p q * run p q + 2 * x₁)
  ⟨x, minus (rise p q * minus x₁ x) y₁, run p q * p.z * q.z % prime⟩

/-- The sum of two points. -/
def add (p q : Weighted) : Weighted :=
  if p.z % prime = 0 then q
  else if q.z % prime = 0 then p
  else if run p q = 0 then if rise p q = 0 then double p else infinity
  else along p q

/-- A multiple of a point by a factor below `2^256`. -/
def multiple (k : Nat) (p : Weighted) : Weighted :=
  doubleAndAdd infinity double add 256 k p

/-- The coordinates are those of a point of the group with a weight. -/
inductive Weighs : Weighted → curve.Point → Prop
  | infinity {p : Weighted} (hz : (p.z : ZMod prime) = 0) : Weighs p 0
  | affine {p : Weighted} {X Y : ZMod prime} (hz : (p.z : ZMod prime) ≠ 0)
      (hx : (p.x : ZMod prime) = X * p.z ^ 2) (hy : (p.y : ZMod prime) = Y * p.z ^ 3)
      (h : curve.Nonsingular X Y) : Weighs p (.some _ _ h)

theorem cast_eq_zero {n : Nat} : (n : ZMod prime) = 0 ↔ n % prime = 0 := by
  rw [ZMod.natCast_eq_zero_iff, Nat.dvd_iff_mod_eq_zero]

/-- Only infinity has the weight zero. -/
theorem Weighs.zero_iff {p : Weighted} {P : curve.Point} (h : Weighs p P) :
    p.z % prime = 0 ↔ P = 0 := by
  rw [← cast_eq_zero]
  cases h with
  | infinity hz => simp [hz]
  | affine hz => simp [hz, WeierstrassCurve.Affine.Point.some_ne_zero]

/-- The third point on a line through two points, with a weight that makes the slope whole. -/
theorem weighs_along {p : Weighted} {X₁ Y₁ X₂ Y₂ : ZMod prime} (rise : ZMod prime)
    (h₁ : curve.Nonsingular X₁ Y₁) (h₂ : curve.Nonsingular X₂ Y₂)
    (hne : ¬(X₁ = X₂ ∧ Y₁ = curve.negY X₂ Y₂)) (hz : (p.z : ZMod prime) ≠ 0)
    (hrise : curve.slope X₁ X₂ Y₁ Y₂ * p.z = rise)
    (hx : (p.x : ZMod prime) = rise ^ 2 - (X₁ + X₂) * p.z ^ 2)
    (hy : (p.y : ZMod prime) = rise * (X₁ * p.z ^ 2 - p.x) - Y₁ * p.z ^ 3) :
    Weighs p (.some _ _ h₁ + .some _ _ h₂) := by
  rw [WeierstrassCurve.Affine.Point.add_some hne]
  have hx' : (p.x : ZMod prime) =
      curve.addX X₁ X₂ (curve.slope X₁ X₂ Y₁ Y₂) * p.z ^ 2 := by
    rw [hx, addX_eq, ← hrise]
    ring
  refine .affine hz hx' ?_ _
  rw [hy, hx', addY_eq, ← hrise]
  ring

theorem cast_double (p : Weighted) :
    (p.double.x : ZMod prime) = (3 * p.x ^ 2) ^ 2 - 8 * p.x * p.y ^ 2 ∧
    (p.double.y : ZMod prime) =
      3 * p.x ^ 2 * (4 * p.x * p.y ^ 2 - p.double.x) - 8 * p.y ^ 4 ∧
    (p.double.z : ZMod prime) = 2 * p.y * p.z := by
  simp only [double, cast_minus, ZMod.natCast_mod, Nat.cast_mul, Nat.cast_ofNat]
  refine ⟨?_, ?_, trivial⟩ <;> ring

theorem cast_along (p q : Weighted) :
    ((along p q).x : ZMod prime) =
      (rise p q : ZMod prime) ^ 2 - (run p q ^ 3 + 2 * p.x * q.z ^ 2 * run p q ^ 2) ∧
    ((along p q).y : ZMod prime) =
      rise p q * (p.x * q.z ^ 2 * run p q ^ 2 - (along p q).x) - p.y * q.z ^ 3 * run p q ^ 3 ∧
    ((along p q).z : ZMod prime) = run p q * p.z * q.z := by
  simp only [along, cast_minus, ZMod.natCast_mod, Nat.cast_mul, Nat.cast_add, Nat.cast_ofNat]
  refine ⟨?_, ?_, trivial⟩ <;> ring

theorem Weighs.double {p : Weighted} {P : curve.Point} (h : Weighs p P) :
    Weighs p.double (P + P) := by
  obtain ⟨hx', hy', hz'⟩ := p.cast_double
  cases h with
  | infinity hz =>
    rw [add_zero]
    exact .infinity (by rw [hz', hz, mul_zero])
  | @affine X Y hz hx hy h =>
    have hneg : Y = curve.negY X Y ↔ Y = 0 := by
      rw [negY_eq, eq_neg_iff_add_eq_zero, ← two_mul, mul_eq_zero, or_iff_right two_ne_zero]
    rw [hx, hy] at hx' hy'
    rw [hy] at hz'
    by_cases hY : Y = 0
    · rw [WeierstrassCurve.Affine.Point.add_self_of_Y_eq (hneg.mpr hY)]
      exact .infinity (by rw [hz', hY]; ring)
    · have hslope : 3 * X * X * (2 * Y)⁻¹ * (2 * Y) = 3 * X * X :=
        inv_mul_cancel_right₀ (mul_ne_zero two_ne_zero hY) _
      refine weighs_along (3 * (X * (p.z : ZMod prime) ^ 2) ^ 2) h h
        (fun hXY => hY (hneg.mp hXY.2)) ?_ ?_ ?_ ?_
      · rw [hz']
        exact mul_ne_zero (mul_ne_zero two_ne_zero (mul_ne_zero hY (pow_ne_zero 3 hz))) hz
      · rw [slope_self (mt hneg.mp hY), hz']
        linear_combination (p.z : ZMod prime) ^ 4 * hslope
      · rw [hx', hz']
        ring
      · rw [hy', hz']
        ring

theorem cast_run (p q : Weighted) :
    (run p q : ZMod prime) = q.x * p.z ^ 2 - p.x * q.z ^ 2 := by
  simp only [run, cast_minus, Nat.cast_mul]
  ring

theorem cast_rise (p q : Weighted) :
    (rise p q : ZMod prime) = q.y * p.z ^ 3 - p.y * q.z ^ 3 := by
  simp only [rise, cast_minus, Nat.cast_mul]
  ring

/-- Sums of weighted points are weighted sums. The differences of the cross products vanish with
those of the coordinates, as both sides carry both weights. -/
theorem Weighs.add {p q : Weighted} {P Q : curve.Point} (hp : Weighs p P) (hq : Weighs q Q) :
    Weighs (p.add q) (P + Q) := by
  unfold Weighted.add
  cases hp with
  | infinity hz₁ =>
    rw [if_pos (cast_eq_zero.mp hz₁), zero_add]
    exact hq
  | @affine X₁ Y₁ hz₁ hx₁ hy₁ h₁ =>
    rw [if_neg (mt cast_eq_zero.mpr hz₁)]
    cases hq with
    | infinity hz₂ =>
      rw [if_pos (cast_eq_zero.mp hz₂), add_zero]
      exact .affine hz₁ hx₁ hy₁ h₁
    | @affine X₂ Y₂ hz₂ hx₂ hy₂ h₂ =>
      rw [if_neg (mt cast_eq_zero.mpr hz₂)]
      have hweight : (p.z * q.z : ZMod prime) ≠ 0 := mul_ne_zero hz₁ hz₂
      have hrun : (run p q : ZMod prime) = (X₂ - X₁) * (p.z * q.z) ^ 2 := by
        rw [cast_run, hx₁, hx₂]
        ring
      have hrise : (rise p q : ZMod prime) = (Y₂ - Y₁) * (p.z * q.z) ^ 3 := by
        rw [cast_rise, hy₁, hy₂]
        ring
      have hX : run p q = 0 ↔ X₁ = X₂ := by
        rw [← cast_inj (x := run p q) (minus_lt _ _) prime_pos, Nat.cast_zero, hrun, mul_eq_zero,
          or_iff_left (pow_ne_zero 2 hweight), sub_eq_zero, eq_comm]
      have hY : rise p q = 0 ↔ Y₁ = Y₂ := by
        rw [← cast_inj (x := rise p q) (minus_lt _ _) prime_pos, Nat.cast_zero, hrise, mul_eq_zero,
          or_iff_left (pow_ne_zero 3 hweight), sub_eq_zero, eq_comm]
      by_cases hx : X₁ = X₂
      · rw [if_pos (hX.mpr hx)]
        subst hx
        by_cases hy : Y₁ = Y₂
        · rw [if_pos (hY.mpr hy)]
          subst hy
          exact (Weighs.affine hz₁ hx₁ hy₁ h₁).double
        · have hopposite : Y₁ = curve.negY X₁ Y₂ :=
            (WeierstrassCurve.Affine.Y_eq_of_X_eq h₁.left h₂.left rfl).resolve_left hy
          rw [if_neg (mt hY.mp hy), WeierstrassCurve.Affine.Point.add_of_Y_eq rfl hopposite]
          exact .infinity Nat.cast_zero
      · rw [if_neg (mt hX.mp hx)]
        obtain ⟨hx', hy', hz'⟩ := cast_along p q
        have hslope : (Y₂ - Y₁) * (X₂ - X₁)⁻¹ * (X₂ - X₁) = Y₂ - Y₁ :=
          inv_mul_cancel_right₀ (sub_ne_zero.mpr (Ne.symm hx)) _
        rw [hx₁, hrun] at hx'
        rw [hx₁, hy₁, hrun] at hy'
        rw [hrun] at hz'
        refine weighs_along (rise p q) h₁ h₂ (fun h => hx h.1) ?_ ?_ ?_ ?_
        · rw [hz', mul_assoc]
          exact mul_ne_zero
            (mul_ne_zero (sub_ne_zero.mpr (Ne.symm hx)) (pow_ne_zero 2 hweight)) hweight
        · rw [slope_of_ne hx, hrise, hz']
          linear_combination (p.z * q.z : ZMod prime) ^ 3 * hslope
        · rw [hx', hz']
          ring
        · rw [hy', hz']
          ring

/-- Multiples of weighted points are weighted multiples. -/
theorem Weighs.multiple {k : Nat} {p : Weighted} {P : curve.Point} (h : Weighs p P)
    (hk : k < 2 ^ 256) : Weighs (p.multiple k) (k • P) :=
  doubleAndAdd_stands (.infinity Nat.cast_zero) (fun _ _ => .double) (fun _ _ _ _ => .add) h hk

/-- A number is the first coordinate. -/
def isAt (p : Weighted) (x : Nat) : Bool :=
  x < prime && p.z % prime != 0 && x * p.z * p.z % prime == p.x % prime

/-- The first coordinate is told without an inverse. -/
theorem Weighs.abscissa_eq {p : Weighted} {q : Point} {P : curve.Point} (hp : Weighs p P)
    (hq : Stands q P) {x : Nat} (h : p.isAt x = true) : q.abscissa = x := by
  simp only [isAt, Bool.and_eq_true, decide_eq_true_eq, bne_iff_ne, beq_iff_eq] at h
  obtain ⟨⟨hx, hz⟩, hpx⟩ := h
  cases hq with
  | infinity => exact absurd (hp.zero_iff.mpr rfl) hz
  | @affine x' y X Y hx' hy hX hY =>
    cases hp with
    | affine hz' hX' =>
      have hpx' : (x : ZMod prime) * p.z ^ 2 = p.x := by
        rw [pow_two, ← mul_assoc, ← Nat.cast_mul, ← Nat.cast_mul, ZMod.natCast_eq_natCast_iff', hpx]
      rw [hX', ← hX] at hpx'
      exact ((cast_inj hx hx').mp (mul_right_cancel₀ (pow_ne_zero 2 hz') hpx')).symm

end Weighted

end Countersign.Curve
