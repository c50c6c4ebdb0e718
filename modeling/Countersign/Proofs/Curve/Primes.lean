import Countersign.Bytes
import Countersign.Curve.Point
import Mathlib.Data.List.Prime
import Mathlib.NumberTheory.LucasPrimality

/-!
# The primes of the curve

The order of the field and the order of the group are prime. The test is that of Lucas: some number
has all of `p - 1` as its order modulo `p`. It needs the prime factors of `p - 1`, which are tested
in the same way as far as they are not small.
-/
namespace Countersign.Curve

/-- Squaring and multiplying gives the power modulo `m`. -/
theorem power_eq {bits exponent : Nat} (m base : Nat) (h : exponent < 2 ^ bits) :
    power m bits base exponent = base ^ exponent % m := by
  induction bits generalizing base exponent with
  | zero =>
    obtain rfl : exponent = 0 := by simpa using h
    simp [power]
  | succ bits ih =>
    have hrest :
        power m bits (base * base % m) (exponent / 2) = base ^ (2 * (exponent / 2)) % m := by
      rw [ih _ (by omega), ← Nat.pow_mod, ← Nat.pow_two, ← Nat.pow_mul]
    simp only [power, hrest]
    by_cases hodd : exponent % 2 = 1
    · have hsum : (2 * (exponent / 2)).succ = exponent := by omega
      rw [if_pos hodd, Nat.mul_mod_mod, ← Nat.pow_succ', hsum]
    · have heven : 2 * (exponent / 2) = exponent := by omega
      rw [if_neg hodd, heven]

/-- A number, an element of full order, and the prime factors of what is one less, each with its
exponent. -/
structure Certificate where
  number : Nat
  root : Nat
  factors : List (Nat × Nat)

/-- A number below `72²` that no other number below `72` divides, except one. -/
def isSmallPrime (q : Nat) : Bool :=
  2 ≤ q && q < 72 * 72 && (List.range 72).all fun k => k < 2 || k == q || q % k != 0

/-- A proper divisor of such a number would come with one below `72`. -/
theorem prime_of_isSmallPrime {q : Nat} (h : isSmallPrime q = true) : q.Prime := by
  simp only [isSmallPrime, Bool.and_eq_true, decide_eq_true_eq, List.all_eq_true, List.mem_range,
    Bool.or_eq_true, beq_iff_eq, bne_iff_ne] at h
  obtain ⟨⟨htwo, hlt⟩, hnone⟩ := h
  by_contra hq
  have hsquare := Nat.minFac_sq_le_self (by omega) hq
  have hsmall : q.minFac < 72 := by nlinarith
  have hfactor := (Nat.minFac_prime (by omega : q ≠ 1)).two_le
  rcases hnone q.minFac hsmall with (hone | hself) | hmod
  · omega
  · exact hq (hself ▸ Nat.minFac_prime (by omega : q ≠ 1))
  · exact hmod (Nat.mod_eq_zero_of_dvd q.minFac_dvd)

namespace Certificate

/-- A power of the element. -/
def rootPower (c : Certificate) (n : Nat) : Nat :=
  power c.number (c.number.log2 + 1) c.root n

/-- The factors are small or were tested before, and the element has full order. -/
def valid (known : List Nat) (c : Certificate) : Bool :=
  2 ≤ c.number && (c.factors.map fun f => f.1 ^ f.2).prod == c.number - 1
    && (c.factors.all fun f => known.contains f.1 || isSmallPrime f.1)
    && c.rootPower (c.number - 1) == 1
    && c.factors.all fun f => c.rootPower ((c.number - 1) / f.1) != 1

/-- Tests certificates one after the other. -/
def validAll (known : List Nat) : List Certificate → Bool
  | [] => true
  | c :: rest => c.valid known && validAll (c.number :: known) rest

theorem rootPower_eq_one {c : Certificate} (hc : 2 ≤ c.number) {n : Nat} (hn : n ≤ c.number - 1) :
    (c.root : ZMod c.number) ^ n = 1 ↔ c.rootPower n = 1 := by
  have hlt : n < 2 ^ (c.number.log2 + 1) :=
    (hn.trans (Nat.sub_le _ _)).trans_lt Nat.lt_log2_self
  rw [rootPower, power_eq _ _ hlt, ← Nat.cast_pow, ← Nat.cast_one, ZMod.natCast_eq_natCast_iff',
    Nat.one_mod_eq_one.mpr (by omega)]

/-- An element of full order makes the number a prime. -/
theorem prime_of_valid {known : List Nat} {c : Certificate} (hknown : ∀ q ∈ known, q.Prime)
    (h : c.valid known = true) : c.number.Prime := by
  simp only [valid, Bool.and_eq_true, decide_eq_true_eq, beq_iff_eq, List.all_eq_true,
    Bool.or_eq_true, List.contains_iff_mem, bne_iff_ne] at h
  obtain ⟨⟨⟨⟨htwo, hprod⟩, hfactors⟩, hone⟩, hne⟩ := h
  refine lucas_primality c.number c.root ((rootPower_eq_one htwo le_rfl).mpr hone) ?_
  intro q hq hdvd
  rw [← hprod] at hdvd
  obtain ⟨r, hr, hqr⟩ := (Prime.dvd_prod_iff hq.prime).mp hdvd
  obtain ⟨f, hf, rfl⟩ := List.mem_map.mp hr
  have hprime : f.1.Prime := (hfactors f hf).elim (hknown f.1) prime_of_isSmallPrime
  obtain rfl := (Nat.prime_dvd_prime_iff_eq hq hprime).mp (hq.dvd_of_dvd_pow hqr)
  rw [Ne, rootPower_eq_one htwo (Nat.div_le_self _ _)]
  exact hne f hf

theorem prime_of_validAll {known : List Nat} {cs : List Certificate}
    (hknown : ∀ q ∈ known, q.Prime) (h : validAll known cs = true) :
    ∀ p ∈ cs.map number, p.Prime := by
  induction cs generalizing known with
  | nil => simp
  | cons c cs ih =>
    simp only [validAll, Bool.and_eq_true] at h
    have hc := prime_of_valid hknown h.1
    refine List.forall_mem_cons.mpr ⟨hc, ih ?_ h.2⟩
    exact List.forall_mem_cons.mpr ⟨hc, hknown⟩

end Certificate

/-- The factors that are not small in ascending order, and the two primes. -/
def certificates : List Certificate :=
  [⟨5323, 5, [(2, 1), (3, 1), (887, 1)]⟩,
    ⟨7723, 3, [(2, 1), (3, 3), (11, 1), (13, 1)]⟩,
    ⟨9349, 2, [(2, 2), (3, 1), (19, 1), (41, 1)]⟩,
    ⟨13441, 11, [(2, 7), (3, 1), (5, 1), (7, 1)]⟩,
    ⟨16699, 3, [(2, 1), (3, 1), (11, 2), (23, 1)]⟩,
    ⟨20113, 10, [(2, 4), (3, 1), (419, 1)]⟩,
    ⟨24809, 6, [(2, 3), (7, 1), (443, 1)]⟩,
    ⟨28181, 2, [(2, 2), (5, 1), (1409, 1)]⟩,
    ⟨41201, 3, [(2, 4), (5, 2), (103, 1)]⟩,
    ⟨85831, 3, [(2, 1), (3, 1), (5, 1), (2861, 1)]⟩,
    ⟨96557, 2, [(2, 2), (101, 1), (239, 1)]⟩,
    ⟨120233, 3, [(2, 3), (7, 1), (19, 1), (113, 1)]⟩,
    ⟨305873, 3, [(2, 4), (7, 1), (2731, 1)]⟩,
    ⟨1206781, 10, [(2, 2), (3, 1), (5, 1), (20113, 1)]⟩,
    ⟨1627771, 3, [(2, 1), (3, 1), (5, 1), (29, 1), (1871, 1)]⟩,
    ⟨4681609, 23, [(2, 3), (3, 1), (97, 1), (2011, 1)]⟩,
    ⟨7240687, 3, [(2, 1), (3, 1), (1206781, 1)]⟩,
    ⟨13331831, 13, [(2, 1), (5, 1), (971, 1), (1373, 1)]⟩,
    ⟨44706919, 6, [(2, 1), (3, 1), (797, 1), (9349, 1)]⟩,
    ⟨107590001, 3, [(2, 4), (5, 4), (7, 1), (29, 1), (53, 1)]⟩,
    ⟨545358713, 5, [(2, 3), (41, 1), (59, 1), (28181, 1)]⟩,
    ⟨297159362677, 2, [(2, 2), (3, 2), (11, 1), (461, 1), (1627771, 1)]⟩,
    ⟨107361793816595537, 3, [(2, 4), (16699, 1), (85831, 1), (4681609, 1)]⟩,
    ⟨173378833005251801, 6, [(2, 3), (5, 2), (2621, 1), (24809, 1), (13331831, 1)]⟩,
    ⟨174723607534414371449, 3, [(2, 3), (17, 1), (59, 1), (4051, 1), (120233, 1), (44706919, 1)]⟩,
    ⟨22149492674086928081353, 5, [(2, 3), (3, 1), (5323, 1), (173378833005251801, 1)]⟩,
    ⟨132896956044521568488119, 6, [(2, 1), (3, 1), (22149492674086928081353, 1)]⟩,
    ⟨29047611873442575647497758179, 2, [(2, 1), (293, 1), (305873, 1), (545358713, 1),
      (297159362677, 1)]⟩,
    ⟨341948486974166000522343609283189, 2, [(2, 2), (3, 3), (109, 1),
      (29047611873442575647497758179, 1)]⟩,
    ⟨255515944373312847190720520512484175977, 3, [(2, 3), (7, 2), (11, 1), (1627, 1), (2657, 1),
      (4423, 1), (41201, 1), (96557, 1), (7240687, 1), (107590001, 1)]⟩,
    ⟨205115282021455665897114700593932402728804164701536103180137503955397371, 10, [(2, 1),
      (3, 1), (5, 1), (29, 2), (31, 1), (7723, 1), (132896956044521568488119, 1),
      (255515944373312847190720520512484175977, 1)]⟩,
    ⟨order, 7, [(2, 6), (3, 1), (149, 1), (631, 1), (107361793816595537, 1),
      (174723607534414371449, 1), (341948486974166000522343609283189, 1)]⟩,
    ⟨prime, 3, [(2, 1), (3, 1), (7, 1), (13441, 1),
      (205115282021455665897114700593932402728804164701536103180137503955397371, 1)]⟩]

theorem prime_certified : ∀ p ∈ certificates.map Certificate.number, p.Prime :=
  Certificate.prime_of_validAll (List.forall_mem_nil _) (by decide +kernel)

theorem prime_prime : prime.Prime :=
  prime_certified prime (by decide)

/-- The group has a prime number of points. -/
theorem prime_order : order.Prime :=
  prime_certified order (by decide)

end Countersign.Curve
