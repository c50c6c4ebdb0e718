import Countersign.Proofs.Curve.Primes
import Mathlib.AlgebraicGeometry.EllipticCurve.Affine.Point
import Mathlib.FieldTheory.Finite.Basic

/-!
# The group of the curve

The sums that are computed on coordinates are those of the group of points over the field, and so
are the multiples.
-/
namespace Countersign.Curve

instance : Fact prime.Prime := ⟨prime_prime⟩

/-! ### The field -/

theorem prime_pos : 0 < prime := prime_prime.pos

theorem minus_lt (x y : Nat) : minus x y < prime := Nat.mod_lt _ prime_pos

@[simp] theorem cast_minus (x y : Nat) : (minus x y : ZMod prime) = x - y := by
  have hle : y % prime ≤ prime := (Nat.mod_lt y prime_pos).le
  rw [minus, ZMod.natCast_mod, Nat.cast_add, Nat.cast_sub hle, ZMod.natCast_self, ZMod.natCast_mod]
  ring

/-- What is computed as the inverse modulo a prime is the inverse in its field. -/
theorem cast_inverse_of_prime {m : Nat} [Fact m.Prime] (htwo : 2 < m) (hlt : m < 2 ^ 256)
    (x : Nat) : (inverse m x : ZMod m) = (x : ZMod m)⁻¹ := by
  rw [inverse, power_eq _ _ (by omega), ZMod.natCast_mod, Nat.cast_pow]
  by_cases hx : (x : ZMod m) = 0
  · rw [hx, inv_zero, zero_pow (by omega)]
  · have hone : (x : ZMod m) * (x : ZMod m) ^ (m - 2) = 1 := by
      rw [← pow_succ', show m - 2 + 1 = m - 1 by omega]
      exact ZMod.pow_card_sub_one_eq_one hx
    exact eq_inv_of_mul_eq_one_right hone

@[simp] theorem cast_inverse (x : Nat) : (inverse prime x : ZMod prime) = (x : ZMod prime)⁻¹ :=
  cast_inverse_of_prime (by decide) (by decide) x

theorem cast_inj {x y : Nat} (hx : x < prime) (hy : y < prime) :
    (x : ZMod prime) = y ↔ x = y := by
  rw [ZMod.natCast_eq_natCast_iff', Nat.mod_eq_of_lt hx, Nat.mod_eq_of_lt hy]

theorem two_ne_zero : (2 : ZMod prime) ≠ 0 := by
  have h := (cast_inj (x := 2) (y := 0) (by decide) (by decide)).not.mpr (by decide)
  exact_mod_cast h

/-! ### The curve -/

/-- The curve over the field. -/
def curve : WeierstrassCurve.Affine (ZMod prime) := ⟨0, 0, 0, 0, 7⟩

theorem equation_iff_holds {x y : Nat} : curve.Equation x y ↔ holds x y = true := by
  rw [WeierstrassCurve.Affine.equation_iff, holds, beq_iff_eq, ← ZMod.natCast_eq_natCast_iff']
  push_cast
  simp only [curve, zero_mul, add_zero, pow_succ, pow_zero, one_mul]

/-- The points of the curve are the pairs that satisfy its equation. -/
theorem nonsingular_iff_holds {x y : Nat} : curve.Nonsingular x y ↔ holds x y = true := by
  have hΔ : curve.Δ ≠ 0 := by
    have h : ((21168 : Nat) : ZMod prime) ≠ ((0 : Nat) : ZMod prime) :=
      (cast_inj (by decide) (by decide)).not.mpr (by decide)
    intro h0
    apply h
    simp only [curve, WeierstrassCurve.Δ, WeierstrassCurve.b₂, WeierstrassCurve.b₄,
      WeierstrassCurve.b₆, WeierstrassCurve.b₈] at h0
    push_cast
    linear_combination -h0
  rw [← WeierstrassCurve.Affine.equation_iff_nonsingular_of_Δ_ne_zero hΔ, equation_iff_holds]

@[simp] theorem negY_eq (x y : ZMod prime) : curve.negY x y = -y := by
  simp only [WeierstrassCurve.Affine.negY, curve, zero_mul, sub_zero]

theorem addX_eq (x₁ x₂ ℓ : ZMod prime) : curve.addX x₁ x₂ ℓ = ℓ * ℓ - (x₁ + x₂) := by
  simp only [WeierstrassCurve.Affine.addX, curve]
  ring

theorem addY_eq (x₁ x₂ y₁ ℓ : ZMod prime) :
    curve.addY x₁ x₂ y₁ ℓ = ℓ * (x₁ - curve.addX x₁ x₂ ℓ) - y₁ := by
  simp only [WeierstrassCurve.Affine.addY, WeierstrassCurve.Affine.negAddY, negY_eq]
  ring

theorem slope_self {x y : ZMod prime} (hy : y ≠ curve.negY x y) :
    curve.slope x x y y = 3 * x * x * (2 * y)⁻¹ := by
  rw [WeierstrassCurve.Affine.slope_of_Y_ne rfl hy, negY_eq, div_eq_mul_inv, sub_neg_eq_add,
    ← two_mul]
  simp only [curve]
  ring

theorem slope_of_ne {x₁ x₂ : ZMod prime} (hx : x₁ ≠ x₂) (y₁ y₂ : ZMod prime) :
    curve.slope x₁ x₂ y₁ y₂ = (y₂ - y₁) * (x₂ - x₁)⁻¹ := by
  rw [WeierstrassCurve.Affine.slope_of_X_ne hx, ← neg_div_neg_eq, neg_sub, neg_sub, div_eq_mul_inv]

/-- The coordinates are those of a point of the group. -/
inductive Stands : Point → curve.Point → Prop
  | infinity : Stands .infinity 0
  | affine {x y : Nat} {X Y : ZMod prime} (hx : x < prime) (hy : y < prime)
      (hX : (x : ZMod prime) = X) (hY : (y : ZMod prime) = Y) (h : curve.Nonsingular X Y) :
      Stands (.affine x y) (.some _ _ h)

/-- A point of the group has one pair of coordinates. -/
theorem Stands.eq {p q : Point} {P : curve.Point} (hp : Stands p P) (hq : Stands q P) : p = q := by
  cases hp with
  | infinity =>
    cases hq
    rfl
  | affine hx hy hX hY =>
    cases hq with
    | affine hx' hy' hX' hY' =>
      rw [(cast_inj hx hx').mp (hX.trans hX'.symm), (cast_inj hy hy').mp (hY.trans hY'.symm)]

/-- The third point on a line through two points is their sum if the line has the right slope. -/
theorem stands_along {x₁ y₁ x₂ slope : Nat} {X₁ Y₁ X₂ Y₂ : ZMod prime}
    (hX₁ : (x₁ : ZMod prime) = X₁) (hY₁ : (y₁ : ZMod prime) = Y₁) (hX₂ : (x₂ : ZMod prime) = X₂)
    (h₁ : curve.Nonsingular X₁ Y₁) (h₂ : curve.Nonsingular X₂ Y₂)
    (hne : ¬(X₁ = X₂ ∧ Y₁ = curve.negY X₂ Y₂))
    (hslope : (slope : ZMod prime) = curve.slope X₁ X₂ Y₁ Y₂) :
    Stands (Point.along slope x₁ y₁ x₂) (.some _ _ h₁ + .some _ _ h₂) := by
  rw [WeierstrassCurve.Affine.Point.add_some hne]
  have hx : ((minus (slope * slope) (x₁ + x₂) : Nat) : ZMod prime) =
      curve.addX X₁ X₂ (curve.slope X₁ X₂ Y₁ Y₂) := by
    rw [cast_minus, Nat.cast_mul, Nat.cast_add, hslope, hX₁, hX₂, addX_eq]
  refine .affine (minus_lt _ _) (minus_lt _ _) hx ?_ _
  rw [cast_minus, Nat.cast_mul, cast_minus, hx, hslope, hX₁, hY₁, addY_eq]

theorem Stands.double {p : Point} {P : curve.Point} (h : Stands p P) : Stands p.double (P + P) := by
  cases h with
  | infinity =>
    rw [add_zero]
    exact .infinity
  | @affine x y X Y hx hy hX hY h =>
    have hneg : Y = curve.negY X Y ↔ y = 0 := by
      rw [negY_eq, eq_neg_iff_add_eq_zero, ← two_mul, mul_eq_zero, or_iff_right two_ne_zero, ← hY,
        ← Nat.cast_zero, cast_inj hy prime_pos]
    rw [Point.double, Nat.mod_eq_of_lt hy]
    by_cases hy0 : y = 0
    · rw [if_pos hy0, WeierstrassCurve.Affine.Point.add_self_of_Y_eq (hneg.mpr hy0)]
      exact .infinity
    · rw [if_neg hy0]
      refine stands_along hX hY hX h h (fun hxy => hy0 (hneg.mp hxy.2)) ?_
      rw [slope_self (mt hneg.mp hy0), ZMod.natCast_mod, Nat.cast_mul, cast_inverse,
        ZMod.natCast_mod, ← hX, ← hY]
      push_cast
      rfl

/-- What is computed as a sum is the sum in the group. -/
theorem Stands.add {p q : Point} {P Q : curve.Point} (hp : Stands p P) (hq : Stands q Q) :
    Stands (p.add q) (P + Q) := by
  cases hp with
  | infinity =>
    rw [zero_add]
    exact hq
  | @affine x₁ y₁ X₁ Y₁ hx₁ hy₁ hX₁ hY₁ h₁ =>
    cases hq with
    | infinity =>
      rw [add_zero]
      exact .affine hx₁ hy₁ hX₁ hY₁ h₁
    | @affine x₂ y₂ X₂ Y₂ hx₂ hy₂ hX₂ hY₂ h₂ =>
      have hX : X₁ = X₂ ↔ x₁ = x₂ := by rw [← hX₁, ← hX₂, cast_inj hx₁ hx₂]
      have hY : Y₁ = Y₂ ↔ y₁ = y₂ := by rw [← hY₁, ← hY₂, cast_inj hy₁ hy₂]
      rw [Point.add]
      by_cases hx : x₁ = x₂
      · rw [if_pos hx]
        obtain rfl := hX.mpr hx
        by_cases hy : y₁ = y₂
        · rw [if_pos hy]
          obtain rfl := hY.mpr hy
          exact (Stands.affine hx₁ hy₁ hX₁ hY₁ h₁).double
        · have hopposite : Y₁ = curve.negY X₁ Y₂ :=
            (WeierstrassCurve.Affine.Y_eq_of_X_eq h₁.left h₂.left rfl).resolve_left (mt hY.mp hy)
          rw [if_neg hy, WeierstrassCurve.Affine.Point.add_of_Y_eq rfl hopposite]
          exact .infinity
      · have hne := mt hX.mp hx
        rw [if_neg hx]
        refine stands_along hX₁ hY₁ hX₂ h₁ h₂ (fun hxy => hne hxy.1) ?_
        rw [slope_of_ne hne, ZMod.natCast_mod, Nat.cast_mul, cast_minus, cast_inverse, cast_minus,
          hX₁, hY₁, hX₂, hY₂]

/-! ### Multiples -/

/-- A multiple by doubling and adding; the factor has the given number of bits at most. -/
def doubleAndAdd {α : Type} (zero : α) (double : α → α) (add : α → α → α) : Nat → Nat → α → α
  | 0, _, _ => zero
  | bits + 1, k, p =>
    let rest := doubleAndAdd zero double add bits (k / 2) (double p)
    if k % 2 = 1 then add p rest else rest

theorem Point.times_eq (bits k : Nat) (p : Point) :
    times bits k p = doubleAndAdd infinity double add bits k p := by
  induction bits generalizing k p with
  | zero => rfl
  | succ bits ih => simp only [times, doubleAndAdd, ih]

/-- Whatever stands for points and is added like them has the same multiples. -/
theorem doubleAndAdd_stands {α G : Type} [AddMonoid G] {R : α → G → Prop} {zero : α}
    {double : α → α} {add : α → α → α} (hzero : R zero 0)
    (hdouble : ∀ p P, R p P → R (double p) (P + P))
    (hadd : ∀ p q P Q, R p P → R q Q → R (add p q) (P + Q)) {bits k : Nat} {p : α} {P : G}
    (h : R p P) (hk : k < 2 ^ bits) : R (doubleAndAdd zero double add bits k p) (k • P) := by
  induction bits generalizing k p P with
  | zero =>
    obtain rfl : k = 0 := by simpa using hk
    rw [zero_nsmul]
    exact hzero
  | succ bits ih =>
    have hrest : R (doubleAndAdd zero double add bits (k / 2) (double p)) ((k / 2) • (P + P)) :=
      ih (hdouble p P h) (by omega)
    rw [← two_nsmul, ← mul_nsmul] at hrest
    simp only [doubleAndAdd]
    by_cases hodd : k % 2 = 1
    · have hsum : P + (2 * (k / 2)) • P = k • P := by
        rw [← succ_nsmul', show 2 * (k / 2) + 1 = k by omega]
      rw [if_pos hodd, ← hsum]
      exact hadd p _ P _ h hrest
    · rw [if_neg hodd]
      rwa [show 2 * (k / 2) = k by omega] at hrest

theorem Stands.times {bits k : Nat} {p : Point} {P : curve.Point} (h : Stands p P)
    (hk : k < 2 ^ bits) : Stands (Point.times bits k p) (k • P) := by
  rw [Point.times_eq]
  exact doubleAndAdd_stands .infinity (fun _ _ => .double) (fun _ _ _ _ => .add) h hk

end Countersign.Curve
