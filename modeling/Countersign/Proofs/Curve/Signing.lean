import Countersign.Curve.Ecdsa
import Countersign.Proofs.Curve.Encoding
import Countersign.Proofs.Curve.Generator

/-!
# Signatures that verify

What is signed with a secret verifies under the point of the secret, and nothing with a high second
number does. Both multiples that are added to check a signature make up the multiple of the
generator by the secret number of the signature, or by its opposite if the signature was lowered.
Opposite points have the same first coordinate, and that is all that is compared.
-/
namespace Countersign.Curve

instance : Fact order.Prime := ⟨prime_order⟩

/-! ### Multiples of the generator -/

theorem cast_inverse_order (x : Nat) : (inverse order x : ZMod order) = (x : ZMod order)⁻¹ :=
  cast_inverse_of_prime (by decide) (by decide) x

theorem cast_order_ne_zero {x : Nat} (hpos : 0 < x) (hlt : x < order) : (x : ZMod order) ≠ 0 := by
  rw [Ne, ZMod.natCast_eq_zero_iff]
  exact Nat.not_dvd_of_pos_of_lt hpos hlt

theorem cast_opposite {x : Nat} (h : x ≤ order) : ((order - x : Nat) : ZMod order) = -x := by
  rw [Nat.cast_sub h, ZMod.natCast_self, zero_sub]

/-- Factors that are equal modulo the order give the same multiple. -/
theorem nsmul_base_congr {a b : Nat} (h : (a : ZMod order) = b) : a • base = b • base := by
  rw [nsmul_eq_nsmul_iff_modEq, addOrderOf_base]
  exact (ZMod.natCast_eq_natCast_iff a b order).mp h

theorem nsmul_base_opposite {k : Nat} (h : k ≤ order) : (order - k) • base = -(k • base) := by
  apply eq_neg_of_add_eq_zero_left
  rw [← add_nsmul, Nat.sub_add_cancel h, order_base]

theorem Stands.abscissa_neg {p q : Point} {P : curve.Point} (hp : Stands p P) (hq : Stands q (-P)) :
    q.abscissa = p.abscissa := by
  cases hp with
  | infinity =>
    rw [neg_zero] at hq
    cases hq
    rfl
  | affine hx hy hX hY h =>
    rw [WeierstrassCurve.Affine.Point.neg_some] at hq
    cases hq with
    | affine hx' hy' hX' hY' => exact (cast_inj hx' hx).mp (hX'.trans hX.symm)

theorem stands_multiple {k : Nat} (h : k ≤ order) : Stands (generator.multiple k) (k • base) :=
  stands_generator.times (h.trans_lt (by decide))

/-- Opposite multiples have the same first coordinate. -/
theorem abscissa_opposite {k : Nat} (h : k ≤ order) :
    (generator.multiple (order - k)).abscissa = (generator.multiple k).abscissa := by
  have hopposite := stands_multiple (Nat.sub_le order k)
  rw [nsmul_base_opposite h] at hopposite
  exact (stands_multiple h).abscissa_neg hopposite

/-! ### Pairs -/

namespace EcdsaPair

theorem inRange_iff {c : EcdsaPair} :
    c.inRange = true ↔ 0 < c.r ∧ c.r < order ∧ 0 < c.s ∧ c.s < order := by
  simp [inRange, and_assoc]

theorem isLow_iff {c : EcdsaPair} : c.isLow = true ↔ c.s ≤ order / 2 := by
  simp [isLow]

/-- The other one of two equivalent signatures. -/
def twin (c : EcdsaPair) : EcdsaPair := ⟨c.r, order - c.s⟩

theorem inRange_twin {c : EcdsaPair} (h : c.inRange = true) : c.twin.inRange = true := by
  obtain ⟨hr, hr', hs, hs'⟩ := inRange_iff.mp h
  rw [inRange_iff]
  simp only [twin]
  omega

/-- The order is odd, so one of two equivalent signatures is low. -/
theorem isLow_twin {c : EcdsaPair} (h : c.inRange = true) : c.twin.isLow = !c.isLow := by
  obtain ⟨-, -, hs, hs'⟩ := inRange_iff.mp h
  have hodd : order % 2 = 1 := by decide
  rw [Bool.eq_iff_iff, Bool.not_eq_true', ← Bool.not_eq_true, isLow_iff, isLow_iff]
  simp only [twin]
  omega

theorem lowered_of_low {c : EcdsaPair} (h : c.isLow = true) : c.lowered = c := if_pos h

theorem lowered_of_high {c : EcdsaPair} (h : c.isLow = false) : c.lowered = c.twin := by
  rw [lowered, h]
  rfl

theorem inRange_lowered {c : EcdsaPair} (h : c.inRange = true) : c.lowered.inRange = true := by
  cases hlow : c.isLow with
  | true => rwa [lowered_of_low hlow]
  | false =>
    rw [lowered_of_high hlow]
    exact inRange_twin h

theorem isLow_lowered {c : EcdsaPair} (h : c.inRange = true) : c.lowered.isLow = true := by
  cases hlow : c.isLow with
  | true => rwa [lowered_of_low hlow]
  | false => rw [lowered_of_high hlow, isLow_twin h, hlow, Bool.not_false]

theorem length_bytes (c : EcdsaPair) : c.bytes.length = 64 := by
  simp [bytes]

/-- A pair is read back from its octets. -/
theorem decode_bytes {c : EcdsaPair} (h : c.inRange = true) : decode? c.bytes = some c := by
  obtain ⟨-, hr, -, hs⟩ := inRange_iff.mp h
  have hwidth : order < 256 ^ 32 := by decide
  have htake : c.bytes.take 32 = Bytes.ofNat 32 c.r := List.take_left' (Bytes.length_ofNat 32 c.r)
  have hdrop : c.bytes.drop 32 = Bytes.ofNat 32 c.s := List.drop_left' (Bytes.length_ofNat 32 c.r)
  simp only [decode?, htake, hdrop, Bytes.toNat_ofNat, Nat.mod_eq_of_lt (hr.trans hwidth),
    Nat.mod_eq_of_lt (hs.trans hwidth), length_bytes, h, and_self, if_true]

end EcdsaPair

/-! ### Verifying -/

/-- A high signature belongs to nothing. -/
theorem verify_of_high {c : EcdsaPair} (h : c.isLow = false) (q : Point) (digest : Bytes) :
    verify q digest c = false := by
  simp only [verify, h, Bool.and_false, Bool.false_eq_true, if_false]

/-- The two multiples that are added make up the multiple by a secret number for which the numbers
of the signature belong together. -/
theorem stands_checked {d : Scalar} {digest : Bytes} {c : EcdsaPair} {k : Nat}
    (hc : c.inRange = true) (h : (c.s * k : ZMod order) = Bytes.toNat digest + c.r * d.value) :
    let w := inverse order c.s
    Stands ((generator.multiple (Bytes.toNat digest * w % order)).add
      (d.point.multiple (c.r * w % order))) (k • base) := by
  intro w
  obtain ⟨-, -, hpos, hlt⟩ := EcdsaPair.inRange_iff.mp hc
  have hmod (x : Nat) : x % order < order := Nat.mod_lt x prime_order.pos
  have hfactor : ((Bytes.toNat digest * w % order + c.r * w % order * d.value : Nat) : ZMod order) =
      k := by
    have hs := cast_order_ne_zero hpos hlt
    simp only [w]
    rw [Nat.cast_add, Nat.cast_mul (c.r * _ % order), ZMod.natCast_mod, ZMod.natCast_mod,
      Nat.cast_mul, Nat.cast_mul, cast_inverse_order]
    field_simp
    linear_combination -h
  rw [← nsmul_base_congr hfactor, add_nsmul, mul_nsmul']
  exact (stands_multiple (hmod _).le).add (d.stands_point.times ((hmod _).trans (by decide)))

/-- A low signature verifies if its first number is that of a secret number for which both belong
together. -/
theorem verify_of_secret {d : Scalar} {digest : Bytes} {c : EcdsaPair} {k : Nat}
    (hc : c.inRange = true) (hlow : c.isLow = true) (hpos : 0 < k) (hlt : k < order)
    (hr : (generator.multiple k).abscissa % order = c.r)
    (hs : (c.s * k : ZMod order) = Bytes.toNat digest + c.r * d.value) :
    verify d.point digest c = true := by
  have hsum := (stands_checked hc hs).eq (stands_multiple hlt.le)
  obtain ⟨x, y, hpoint, -⟩ := (⟨k, hpos, hlt⟩ : Scalar).exists_point
  rw [Scalar.point] at hpoint
  rw [hpoint] at hsum hr
  simp only [verify, hc, hlow, Bool.and_self, if_true, hsum, beq_iff_eq]
  exact hr

/-! ### Signing -/

/-- The pair that a secret number makes. -/
def pairOf (secret : Scalar) (digest : Bytes) (k : Nat) : EcdsaPair :=
  let r := (generator.multiple k).abscissa % order
  ⟨r, inverse order k * (Bytes.toNat digest + r * secret.value) % order⟩

theorem cast_pairOf {k : Nat} (hpos : 0 < k) (hlt : k < order) (secret : Scalar) (digest : Bytes) :
    ((pairOf secret digest k).s * k : ZMod order) =
      Bytes.toNat digest + (pairOf secret digest k).r * secret.value := by
  have hk := cast_order_ne_zero hpos hlt
  simp only [pairOf]
  rw [ZMod.natCast_mod, Nat.cast_mul, cast_inverse_order, mul_comm, mul_inv_cancel_left₀ hk]
  push_cast
  rfl

/-- The lowered pair of a secret number verifies: if the pair is high, it is the pair of the
opposite number. -/
theorem verify_pairOf {k : Nat} (hpos : 0 < k) (hlt : k < order) {secret : Scalar} {digest : Bytes}
    (hc : (pairOf secret digest k).inRange = true) :
    verify secret.point digest (pairOf secret digest k).lowered = true := by
  have hrange := EcdsaPair.inRange_lowered hc
  have hlow := EcdsaPair.isLow_lowered hc
  cases hcase : (pairOf secret digest k).isLow with
  | true =>
    rw [EcdsaPair.lowered_of_low hcase] at hrange hlow ⊢
    exact verify_of_secret hrange hlow hpos hlt rfl (cast_pairOf hpos hlt secret digest)
  | false =>
    rw [EcdsaPair.lowered_of_high hcase] at hrange hlow ⊢
    obtain ⟨-, -, -, hs⟩ := EcdsaPair.inRange_iff.mp hc
    apply verify_of_secret (k := order - k) hrange hlow (by omega) (by omega)
    · rw [abscissa_opposite hlt.le]
      rfl
    · have hsum := cast_pairOf hpos hlt secret digest
      simp only [EcdsaPair.twin]
      rw [cast_opposite hs.le, cast_opposite hlt.le, neg_mul_neg, hsum]

/-- A signature is the lowered pair of a secret number in range. -/
theorem Draws.exists_of_sign {secret : Scalar} {digest : Bytes} {fuel : Nat} {draws : Draws}
    {c : EcdsaPair} (h : sign? secret digest fuel draws = some c) :
    ∃ k, 0 < k ∧ k < order ∧ (pairOf secret digest k).inRange = true ∧
      c = (pairOf secret digest k).lowered := by
  induction fuel generalizing draws with
  | zero => cases h
  | succ fuel ih =>
    rw [sign?] at h
    split at h
    next hk =>
      obtain ⟨hpos, hlt, hc⟩ := hk
      exact ⟨_, hpos, hlt, hc, (Option.some.inj h).symm⟩
    next => exact ih h

/-- A draw whose pair is in range makes the signature. -/
theorem Draws.sign_of_pair {secret : Scalar} {digest : Bytes} {draws : Draws} {k : Nat}
    {c : EcdsaPair} (hk : Bytes.toNat (Sha256.hmac draws.key draws.value) = k) (hpos : 0 < k)
    (hlt : k < order) (hpair : pairOf secret digest k = c) (hc : c.inRange = true) (fuel : Nat) :
    sign? secret digest (fuel + 1) draws = some c.lowered := by
  subst hk hpair
  rw [sign?]
  exact if_pos ⟨hpos, hlt, hc⟩

/-- A signature is in range and low, and verifies. -/
theorem verify_sign {secret : Scalar} {digest : Bytes} {c : EcdsaPair}
    (h : sign? secret digest = some c) :
    c.inRange = true ∧ c.isLow = true ∧ verify secret.point digest c = true := by
  rw [sign?] at h
  obtain ⟨k, hpos, hlt, hc, rfl⟩ := Draws.exists_of_sign h
  exact ⟨EcdsaPair.inRange_lowered hc, EcdsaPair.isLow_lowered hc, verify_pairOf hpos hlt hc⟩

theorem verifies_eq {key digest signature : Bytes} {q : Point} {c : EcdsaPair}
    (hkey : Point.decode? key = some q) (hsignature : EcdsaPair.decode? signature = some c) :
    verifies key digest signature = verify q digest c := by
  simp only [verifies, hkey, hsignature]

end Countersign.Curve
