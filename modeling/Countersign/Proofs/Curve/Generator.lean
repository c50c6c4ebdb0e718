import Countersign.Proofs.Curve.Weighted

/-!
# Multiples of the generator

The order takes the generator to infinity and is prime, so no factor below it does. The points of
secret factors have coordinates therefore, and of two factors it does not matter which one is taken
first.
-/
namespace Countersign.Curve

theorem generator_holds : holds generator.abscissa generator.ordinate = true := by
  decide

/-- The generator as a point of the group. -/
noncomputable def base : curve.Point :=
  .some _ _ (nonsingular_iff_holds.mpr generator_holds)

theorem stands_generator : Stands generator base :=
  .affine (by decide) (by decide) rfl rfl _

/-- The generator with the weight one. -/
def Weighted.generator : Weighted :=
  ⟨Curve.generator.abscissa, Curve.generator.ordinate, 1⟩

theorem weighs_generator : Weighted.generator.Weighs base :=
  .affine (by simp [Weighted.generator]) (by simp [Weighted.generator])
    (by simp [Weighted.generator]) _

/-- The order takes the generator to infinity. -/
theorem order_base : order • base = 0 :=
  (weighs_generator.multiple (by decide)).zero_iff.mp (by decide +kernel)

/-- The order of the generator divides a prime and is not one. -/
theorem addOrderOf_base : addOrderOf base = order := by
  have hbase : base ≠ 0 := WeierstrassCurve.Affine.Point.some_ne_zero _
  have hdvd : addOrderOf base ∣ order := addOrderOf_dvd_of_nsmul_eq_zero order_base
  apply ((Nat.dvd_prime prime_order).mp hdvd).resolve_left
  exact mt AddMonoid.addOrderOf_eq_one_iff.mp hbase

theorem nsmul_base_ne_zero {k : Nat} (hpos : 0 < k) (hlt : k < order) : k • base ≠ 0 := by
  intro h
  have hdvd : order ∣ k := addOrderOf_base ▸ addOrderOf_dvd_of_nsmul_eq_zero h
  exact Nat.not_le_of_lt hlt (Nat.le_of_dvd hpos hdvd)

namespace Scalar

theorem lt_two_pow (d : Scalar) : d.value < 2 ^ 256 :=
  d.lt_order.trans (by decide)

theorem stands_point (d : Scalar) : Stands d.point (d.value • base) :=
  stands_generator.times d.lt_two_pow

/-- The point of a secret factor has coordinates. -/
theorem exists_point (d : Scalar) : ∃ x y, d.point = .affine x y ∧ x < prime ∧ y < prime ∧
    holds x y = true := by
  have hne := nsmul_base_ne_zero d.pos d.lt_order
  have h := d.stands_point
  generalize d.value • base = P at hne h
  generalize d.point = p at h
  cases h with
  | infinity => exact absurd rfl hne
  | affine hx hy hX hY h => exact ⟨_, _, rfl, hx, hy, nonsingular_iff_holds.mp (by rwa [hX, hY])⟩

/-- Two owners of secrets compute the same coordinate, each from the point of the other. -/
theorem shared_comm (d e : Scalar) : d.shared e.point = e.shared d.point := by
  have hd : Stands (e.point.multiple d.value) (d.value • e.value • base) :=
    e.stands_point.times d.lt_two_pow
  have he : Stands (d.point.multiple e.value) (e.value • d.value • base) :=
    d.stands_point.times e.lt_two_pow
  rw [smul_comm] at he
  rw [shared, shared, hd.eq he]

/-- The coordinate that is shared with the owner of the secret one. -/
theorem shared_generator {d : Scalar} {x : Nat}
    (h : (Weighted.generator.multiple d.value).isAt x = true) : d.shared generator = x :=
  (weighs_generator.multiple d.lt_two_pow).abscissa_eq (stands_generator.times d.lt_two_pow) h

end Scalar

end Countersign.Curve
