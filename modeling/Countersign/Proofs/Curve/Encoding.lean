import Countersign.Curve.Encoding
import Countersign.Proofs.Bytes
import Countersign.Proofs.Curve.Group

/-!
# Reading back points

A point with coordinates is read back from its long form and from its short one. The second
coordinate of the short form is a root of a number whose two roots differ in parity, since the prime
is odd. Nothing but the encodings of points on the curve is read as a point.
-/
namespace Countersign.Curve

namespace Point

theorem lt_octets {x : Nat} (hx : x < prime) : x < 256 ^ 32 :=
  hx.trans (by decide)

theorem toNat_coordinate {x : Nat} (hx : x < prime) : Bytes.toNat (Bytes.ofNat 32 x) = x := by
  rw [Bytes.toNat_ofNat, Nat.mod_eq_of_lt (lt_octets hx)]

theorem power_lt {exponent : Nat} (base : Nat) (h : exponent < 2 ^ 256) :
    power prime 256 base exponent < prime := by
  rw [power_eq _ _ h]
  exact Nat.mod_lt _ prime_pos

theorem length_uncompressed (x y : Nat) : (uncompressed (.affine x y)).length = 65 := by
  simp [uncompressed, coordinates]

theorem decode_uncompressed {x y : Nat} (hx : x < prime) (hy : y < prime) (h : holds x y = true) :
    decode? (uncompressed (.affine x y)) = some (.affine x y) := by
  have hlen : (coordinates (.affine x y)).length = 64 := by simp [coordinates]
  have hxs : (coordinates (.affine x y)).take 32 = Bytes.ofNat 32 x :=
    List.take_left' (Bytes.length_ofNat 32 x)
  have hys : (coordinates (.affine x y)).drop 32 = Bytes.ofNat 32 y :=
    List.drop_left' (Bytes.length_ofNat 32 x)
  simp only [uncompressed, decode?, hlen, hxs, hys, toNat_coordinate hx, toNat_coordinate hy, hx,
    hy, h, and_self, if_true]
  rfl

/-- The root that is computed of a square is one of the two roots. -/
theorem root_cases {x y : Nat} (hy : y < prime) (h : holds x y = true) :
    let root := power prime 256 ((x * x * x + 7) % prime) ((prime + 1) / 4)
    root < prime ∧ holds x root = true ∧ (root = y ∨ root + y = prime) := by
  intro root
  have hroot : root < prime := power_lt _ (by decide)
  have hsquare : ((x * x * x + 7 : Nat) : ZMod prime) = (y : ZMod prime) ^ 2 := by
    rw [holds, beq_iff_eq] at h
    rw [pow_two, ← Nat.cast_mul, ZMod.natCast_eq_natCast_iff', h]
  have hcast : (root : ZMod prime) = (y : ZMod prime) ^ ((prime + 1) / 2) := by
    simp only [root]
    rw [power_eq _ _ (by decide), ZMod.natCast_mod, Nat.cast_pow, ZMod.natCast_mod, hsquare,
      ← pow_mul]
    congr 1
  have hroots : (root : ZMod prime) ^ 2 = (y : ZMod prime) ^ 2 := by
    rw [hcast, ← pow_mul, show (prime + 1) / 2 * 2 = prime + 1 by decide, pow_succ, ZMod.pow_card,
      pow_two]
  refine ⟨hroot, ?_, ?_⟩
  · rw [holds, beq_iff_eq, ← ZMod.natCast_eq_natCast_iff', hsquare, ← hroots]
    push_cast
    ring
  · rcases sq_eq_sq_iff_eq_or_eq_neg.mp hroots with heq | hneg
    · exact .inl ((cast_inj hroot hy).mp heq)
    · have hsum : ((root + y : Nat) : ZMod prime) = 0 := by
        rw [Nat.cast_add, hneg, neg_add_cancel]
      obtain ⟨k, hk⟩ := (ZMod.natCast_eq_zero_iff _ _).mp hsum
      have hk2 : k < 2 := by
        by_contra hge
        have := Nat.mul_le_mul_left prime (Nat.le_of_not_lt hge)
        omega
      interval_cases k
      · exact .inl (by omega)
      · exact .inr (by omega)

theorem lift_parity {x y : Nat} (hx : x < prime) (hy : y < prime) (h : holds x y = true) :
    lift? x (y % 2 == 1) = some (.affine x y) := by
  obtain ⟨hroot, hholds, hcases⟩ := root_cases hy h
  have hodd : prime % 2 = 1 := by decide
  simp only [lift?]
  generalize power prime 256 ((x * x * x + 7) % prime) ((prime + 1) / 4) = root at *
  rw [if_pos ⟨hx, hholds⟩]
  rcases hcases with rfl | hsum
  · rw [if_pos rfl]
  · have hparity : (root % 2 == 1) ≠ (y % 2 == 1) := by
      simp only [ne_eq, beq_eq_beq]
      omega
    rw [if_neg hparity]
    congr 2
    omega

theorem decode_compressed {x y : Nat} (hx : x < prime) (hy : y < prime) (h : holds x y = true) :
    decode? (compressed (.affine x y)) = some (.affine x y) := by
  have hlift := lift_parity hx hy h
  simp only [compressed, ordinate, abscissa, decode?, Bytes.length_ofNat, if_true,
    toNat_coordinate hx]
  by_cases hodd : y % 2 = 1
  · simp only [hodd, if_true] at hlift ⊢
    exact hlift
  · have heven : (y % 2 == 1) = false := by simpa using hodd
    rw [heven] at hlift
    simp only [hodd, if_false]
    exact hlift

/-! ### What is read as a point -/

/-- A point has no second coordinate zero, since minus seven is no cube. -/
theorem ordinate_ne_zero {x y : Nat} (h : holds x y = true) : y ≠ 0 := by
  rintro rfl
  have hcube : (x : ZMod prime) ^ 3 = ((prime - 7 : Nat) : ZMod prime) := by
    rw [holds, beq_iff_eq, ← ZMod.natCast_eq_natCast_iff'] at h
    rw [Nat.cast_sub (by decide), ZMod.natCast_self]
    push_cast at h ⊢
    linear_combination -h
  have hthird : (prime - 1) / 3 * 3 = prime - 1 := by decide
  have hx : (x : ZMod prime) ≠ 0 := by
    intro hzero
    rw [hzero, zero_pow (by decide), eq_comm, ← Nat.cast_zero,
      cast_inj (by decide) (by decide)] at hcube
    exact absurd hcube (by decide)
  have hpower : ((prime - 7 : Nat) : ZMod prime) ^ ((prime - 1) / 3) = 1 := by
    rw [← hcube, ← pow_mul, Nat.mul_comm, hthird]
    exact ZMod.pow_card_sub_one_eq_one hx
  have hone : power prime 256 (prime - 7) ((prime - 1) / 3) = 1 := by
    rw [← cast_inj (power_lt _ (by decide)) (by decide), power_eq _ _ (by decide), ZMod.natCast_mod,
      Nat.cast_pow, hpower, Nat.cast_one]
  exact absurd hone (by decide +kernel)

theorem holds_negated {x y : Nat} (hy : y < prime) (h : holds x y = true) :
    holds x (prime - y) = true := by
  rw [holds, beq_iff_eq, ← ZMod.natCast_eq_natCast_iff'] at h ⊢
  rw [← h, Nat.cast_mul, Nat.cast_sub hy.le, ZMod.natCast_self]
  push_cast
  ring

/-- A point that is computed from its first coordinate has it, and the parity that was asked for. -/
theorem lift_eq_some {x : Nat} {odd : Bool} {p : Point} (h : lift? x odd = some p) :
    ∃ y, p = .affine x y ∧ x < prime ∧ y < prime ∧ holds x y = true ∧ (y % 2 == 1) = odd := by
  simp only [lift?] at h
  have hroot : power prime 256 ((x * x * x + 7) % prime) ((prime + 1) / 4) < prime :=
    power_lt _ (by decide)
  generalize power prime 256 ((x * x * x + 7) % prime) ((prime + 1) / 4) = root at *
  split at h
  next hx =>
    obtain ⟨hx, hholds⟩ := hx
    split at h
    next hodd => exact ⟨root, (Option.some.inj h).symm, hx, hroot, hholds, hodd⟩
    next hodd =>
      have hne := ordinate_ne_zero hholds
      have hprime : prime % 2 = 1 := by decide
      refine ⟨prime - root, (Option.some.inj h).symm, hx, by omega, holds_negated hroot hholds, ?_⟩
      cases odd <;> simp only [beq_iff_eq, beq_eq_false_iff_ne] at hodd ⊢ <;> omega
  next => cases h

/-- The encodings of a point with coordinates. -/
inductive Encodes (x y : Nat) : Bytes → Prop
  | long : Encodes x y (uncompressed (.affine x y))
  | short : Encodes x y (compressed (.affine x y))
  | compact (heven : y % 2 = 0) : Encodes x y (0x05 :: Bytes.ofNat 32 x)

theorem compressed_even {x y : Nat} (h : y % 2 = 0) :
    compressed (.affine x y) = 0x02 :: Bytes.ofNat 32 x := by
  simp [compressed, ordinate, abscissa, h]

theorem compressed_odd {x y : Nat} (h : y % 2 = 1) :
    compressed (.affine x y) = 0x03 :: Bytes.ofNat 32 x := by
  simp [compressed, ordinate, abscissa, h]

/-- Only the encodings of points on the curve are read as points. -/
theorem encodes_of_decode {b : Bytes} {p : Point} (h : decode? b = some p) :
    ∃ x y, p = .affine x y ∧ x < prime ∧ y < prime ∧ holds x y = true ∧ Encodes x y b := by
  match b with
  | [] => cases h
  | tag :: rest =>
    simp only [decode?] at h
    split at h
    next hlen =>
      have hrest : Bytes.ofNat 32 (Bytes.toNat rest) = rest := Bytes.ofNat_toNat_self hlen
      generalize Bytes.toNat rest = x at *
      subst hrest
      split at h
      next htag =>
        obtain ⟨y, rfl, hx, hy, hholds, hodd⟩ := lift_eq_some h
        refine ⟨x, y, rfl, hx, hy, hholds, ?_⟩
        have heven : y % 2 = 0 := by
          have := beq_eq_false_iff_ne.mp hodd
          omega
        rcases htag with rfl | rfl
        · exact compressed_even heven ▸ .short
        · exact .compact heven
      next =>
        split at h
        next htag =>
          obtain ⟨y, rfl, hx, hy, hholds, hodd⟩ := lift_eq_some h
          exact ⟨x, y, rfl, hx, hy, hholds, htag ▸ compressed_odd (beq_iff_eq.mp hodd) ▸ .short⟩
        next => cases h
    next =>
      split at h
      next hlong =>
        obtain ⟨hlen, rfl⟩ := hlong
        split at h
        next hpoint =>
          obtain ⟨hx, hy, hholds⟩ := hpoint
          refine ⟨_, _, (Option.some.inj h).symm, hx, hy, hholds, ?_⟩
          have hxs : Bytes.ofNat 32 (Bytes.toNat (rest.take 32)) = rest.take 32 :=
            Bytes.ofNat_toNat_self (by simp [hlen])
          have hys : Bytes.ofNat 32 (Bytes.toNat (rest.drop 32)) = rest.drop 32 :=
            Bytes.ofNat_toNat_self (by simp [hlen])
          have hlong : uncompressed
              (.affine (Bytes.toNat (rest.take 32)) (Bytes.toNat (rest.drop 32))) =
              0x04 :: rest := by
            simp only [uncompressed, coordinates, abscissa, ordinate, hxs, hys,
              List.take_append_drop]
          exact hlong ▸ .long
        next => cases h
      next => cases h

/-- Every encoding of a point on the curve is read as the point. -/
theorem Encodes.decode {x y : Nat} {b : Bytes} (h : Encodes x y b) (hx : x < prime) (hy : y < prime)
    (hholds : holds x y = true) : decode? b = some (.affine x y) := by
  cases h with
  | long => exact decode_uncompressed hx hy hholds
  | short => exact decode_compressed hx hy hholds
  | compact heven =>
    have hlift := lift_parity hx hy hholds
    rw [heven] at hlift
    simp only [decode?, Bytes.length_ofNat, if_true, toNat_coordinate hx, or_true]
    exact hlift

theorem Encodes.length {x y : Nat} {b : Bytes} (h : Encodes x y b) :
    b.length = 33 ∨ b.length = 65 := by
  cases h with
  | long => exact .inr (length_uncompressed x y)
  | short => exact .inl (by simp [compressed])
  | compact => exact .inl (by simp)

/-- The octets are the long form of a point on the curve. -/
def IsLongForm (q : Point) (b : Bytes) : Prop :=
  ∃ x y, q = .affine x y ∧ x < prime ∧ y < prime ∧ holds x y = true ∧ b = q.uncompressed

/-- Of so many octets only the long form of a point is read as one. -/
theorem decode_iff_isLongForm {q : Point} {b : Bytes} (hb : b.length = 65) :
    decode? b = some q ↔ q.IsLongForm b := by
  constructor
  · intro h
    obtain ⟨x, y, rfl, hx, hy, hholds, hencodes⟩ := encodes_of_decode h
    refine ⟨x, y, rfl, hx, hy, hholds, ?_⟩
    cases hencodes with
    | long => rfl
    | short => simp [compressed] at hb
    | compact => simp at hb
  · rintro ⟨x, y, rfl, hx, hy, hholds, rfl⟩
    exact decode_uncompressed hx hy hholds

end Point

/-! ### Secret factors -/

namespace Scalar

/-- Thirty-two octets in range are the octets of the factor that is read. -/
theorem decode_of_range {b : Bytes} (hlen : b.length = 32)
    (h : 0 < Bytes.toNat b ∧ Bytes.toNat b < order) :
    ∃ d : Scalar, decode? b = some d ∧ Bytes.ofNat 32 d.value = b := by
  refine ⟨⟨Bytes.toNat b, h.1, h.2⟩, ?_, Bytes.ofNat_toNat_self hlen⟩
  rw [decode?, if_pos hlen, ofNat?, dif_pos h]

theorem decode_out_of_range {b : Bytes} (h : ¬(0 < Bytes.toNat b ∧ Bytes.toNat b < order)) :
    decode? b = none := by
  simp only [decode?, ofNat?, dif_neg h, ite_self]

end Scalar

end Countersign.Curve
