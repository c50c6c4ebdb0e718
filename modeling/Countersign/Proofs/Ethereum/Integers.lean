import Countersign.Proofs.Ethereum.Reading

/-!
# Integers of typed data

What integers are taken where a type asks for one, and how they are told from one another once they
are words. Only the word of a type is looked at, not the size behind it: whatever has two hundred
and fifty-six bits besides its sign is taken. So the range of a type is kept by the largest unsigned
one alone, and a signed type has one word for two integers wherever one of them is negative and the
other one is beyond what the type can hold.
-/
namespace Countersign

theorem Json.gathered_lt {n : Nat} (h : n < 2 ^ 64) (ds : List Nat) :
    (gathered n ds).1 < 2 ^ 64 := by
  induction ds generalizing n with
  | nil => exact h
  | cons d ds ih =>
    unfold gathered
    split
    · exact h
    · exact ih (by omega)

/-- All numbers that are read fit. -/
theorem Json.fits_of_literal {l : Literal} {n : Number} (h : l.value? = some n) :
    (Json.number n).Fits := by
  have hwhole := gathered_lt (by decide : 0 < 2 ^ 64) l.whole
  have hfloat {x : Option Float} {f : Float → Float} (h : x.map (fun x => .float (f x)) = some n) :
      (Json.number n).Fits := by
    obtain ⟨y, -, rfl⟩ := Option.map_eq_some_iff.mp h
    trivial
  unfold Literal.value? at h
  dsimp only at h
  split at h
  · split at h
    · obtain rfl := Option.some.inj h
      exact hwhole
    · split at h
      · obtain rfl := Option.some.inj h
        trivial
      next hsmall =>
        obtain rfl := Option.some.inj h
        exact Nat.not_lt.mp (not_or.mp hsmall).2
  · split at h
    · exact hfloat h
    · split at h
      · split at h
        · cases h
        · obtain rfl := Option.some.inj h
          trivial
      · exact hfloat h

namespace TypedData

/-! ### Integers of types -/

/-- Types of integers. -/
def Atom.IsInteger (a : Atom) : Prop :=
  ∃ bits, a = .unsigned bits ∨ a = .signed bits

/-- The integers that a type can hold. -/
def Atom.InRange : Atom → Int → Prop
  | .unsigned bits, z => 0 ≤ z ∧ z < (2 ^ bits : Nat)
  | .signed bits, z => -(2 ^ (bits - 1) : Nat) ≤ z ∧ z < (2 ^ (bits - 1) : Nat)
  | _, _ => False

/-- The integers that are taken for a type, in whatever form they are given. -/
inductive Atom.Takes : Atom → Json → Int → Prop
  | unsigned {bits : Nat} {j : Json} {n : Nat} (h : NaturalGiven j n) (hn : n < 2 ^ 256) :
      Takes (.unsigned bits) j n
  | signed {bits : Nat} {j : Json} {z : Int} (h : IntegerForm j z) (hz : z.natAbs < 2 ^ 256) :
      Takes (.signed bits) j z

/-- The complement of an integer in a word. -/
def twosComplement (z : Int) : Bytes :=
  wordOf (z % (2 ^ 256 : Nat)).toNat

/-- Integers have the same word if they differ by a multiple of `2^256`. -/
theorem twosComplement_eq_iff {z z' : Int} :
    twosComplement z = twosComplement z' ↔ z % (2 ^ 256 : Nat) = z' % (2 ^ 256 : Nat) := by
  have hlt (z : Int) : (z % (2 ^ 256 : Nat)).toNat < 256 ^ 32 := by omega
  constructor
  · intro h
    have hnumbers := Bytes.ofNat_inj (hlt z) (hlt z') h
    omega
  · intro h
    rw [twosComplement, twosComplement, h]

/-! ### What is encoded -/

/-- A value gives one integer only. -/
theorem Atom.Takes.unique {a : Atom} {j : Json} {z z' : Int} (h : a.Takes j z) (h' : a.Takes j z') :
    z = z' := by
  cases h with
  | unsigned h hn =>
    cases h' with
    | unsigned h' hn' =>
      cases h with
      | number => cases h'; rfl
      | text h =>
        cases h' with
        | text h' => exact congrArg Int.ofNat (h.unique hn h' hn')
  | signed h hz =>
    cases h' with
    | signed h' hz' =>
      cases h with
      | natural | negative => cases h'; rfl
      | naturalText h =>
        cases h' with
        | naturalText h' => exact congrArg Int.ofNat (h.unique hz h' hz')
        | negativeText hs => exact absurd hs (h.ne_minus _)
      | negativeText hs h =>
        cases h' with
        | naturalText h' => exact absurd hs (h'.ne_minus _)
        | negativeText hs' h' =>
          obtain rfl := (List.cons.inj (hs.symm.trans hs')).2
          rw [h.unique (by omega) h' (by omega)]

/-- The word of an integer type is that of the integer that is taken. -/
theorem encodePrimitive_iff {a : Atom} {name : String} (ha : a.Names name) (hinteger : a.IsInteger)
    {j : Json} (hj : j.Fits) {word : Bytes} :
    encodePrimitive name j = .ok word ↔ ∃ z, a.Takes j z ∧ word = twosComplement z := by
  obtain ⟨bits, rfl | rfl⟩ := hinteger
  · obtain ⟨⟨cs, hcs⟩, -⟩ := ha.unsigned_shape
    rw [encodePrimitive_uint hcs]
    constructor
    · intro h
      obtain ⟨n, hn, rfl⟩ := exists_of_map_ok h
      obtain ⟨hgiven, hlt⟩ := (unsignedOf_iff hj).mp hn
      refine ⟨n, .unsigned hgiven hlt, ?_⟩
      rw [twosComplement, Int.emod_eq_of_lt (by omega) (by omega), Int.toNat_natCast]
    · rintro ⟨z, hz, rfl⟩
      cases hz with
      | unsigned h hn =>
        rw [(unsignedOf_iff hj).mpr ⟨h, hn⟩, twosComplement,
          Int.emod_eq_of_lt (by omega) (by omega), Int.toNat_natCast]
        rfl
  · obtain ⟨⟨cs, hcs⟩, -⟩ := ha.signed_shape
    rw [encodePrimitive_int hcs]
    constructor
    · intro h
      obtain ⟨m, hm, rfl⟩ := exists_of_map_ok h
      obtain ⟨z, hz, hlt, rfl⟩ := (signedOf_iff hj).mp hm
      exact ⟨z, .signed hz hlt, rfl⟩
    · rintro ⟨z, hz, rfl⟩
      cases hz with
      | signed h hlt =>
        rw [h.signedOf hlt]
        rfl

/-- What an integer type does not take is refused. -/
theorem encodePrimitive_refused {a : Atom} {name : String} (ha : a.Names name)
    (hinteger : a.IsInteger) {j : Json} (hj : j.Fits) (hnone : ∀ z, ¬a.Takes j z) :
    ∃ v, encodePrimitive name j = mismatch "unsigned integer" v := by
  have hfails (word : Bytes) : encodePrimitive name j ≠ .ok word := by
    intro h
    obtain ⟨z, hz, -⟩ := (encodePrimitive_iff ha hinteger hj).mp h
    exact hnone z hz
  obtain ⟨bits, rfl | rfl⟩ := hinteger
  · obtain ⟨⟨cs, hcs⟩, -⟩ := ha.unsigned_shape
    rw [encodePrimitive_uint hcs] at hfails ⊢
    rcases unsignedOf_cases j with ⟨n, hn⟩ | hrefused
    · exact absurd (by rw [hn]; rfl) (hfails (wordOf n))
    · exact ⟨j, by rw [hrefused]; rfl⟩
  · obtain ⟨⟨cs, hcs⟩, -⟩ := ha.signed_shape
    rw [encodePrimitive_int hcs] at hfails ⊢
    rcases signedOf_cases j with ⟨n, hn⟩ | ⟨v, hrefused⟩
    · exact absurd (by rw [hn]; rfl) (hfails (wordOf n))
    · exact ⟨v, by rw [hrefused]; rfl⟩

/-! ### Ranges and words -/

/-- The number `2^255` as a text. -/
def halfWord : String :=
  "57896044618658097711785492504343953926634992332820282019728792003956564819968"

theorem halfWord_form : NaturalForm halfWord.toList (2 ^ 255) :=
  (numberOfText_iff.mp (by decide +kernel)).1

/-- The integers that are taken are those of the type for the largest unsigned type only: any other
one takes `2^255`, which it cannot hold. -/
theorem inRange_iff {a : Atom} {name : String} (ha : a.Names name) (hinteger : a.IsInteger) :
    (∀ j z, a.Takes j z → a.InRange z) ↔ a = .unsigned 256 := by
  constructor
  · intro h
    obtain ⟨bits, rfl | rfl⟩ := hinteger
    · obtain ⟨-, hlt⟩ := h _ _ (.unsigned (.text halfWord_form) (by decide))
      have hbits : 255 < bits :=
        (Nat.pow_lt_pow_iff_right Nat.one_lt_two).mp (by exact_mod_cast hlt)
      obtain ⟨-, hle⟩ := ha.unsigned_shape
      obtain rfl : bits = 256 := by omega
      rfl
    · obtain ⟨-, hlt⟩ := h _ _ (.signed (.naturalText halfWord_form) (by decide))
      have hbits : 255 < bits - 1 :=
        (Nat.pow_lt_pow_iff_right Nat.one_lt_two).mp (by exact_mod_cast hlt)
      obtain ⟨-, hle⟩ := ha.signed_shape
      omega
  · rintro rfl j z hz
    cases hz with
    | unsigned h hn => exact ⟨by omega, by exact_mod_cast hn⟩

/-- Integers that are taken for one type share a word only if the type is signed and they are
`2^256` apart. -/
theorem Atom.Takes.twosComplement_eq_iff {a : Atom} {j j' : Json} {z z' : Int} (h : a.Takes j z)
    (h' : a.Takes j' z') : twosComplement z = twosComplement z' ↔
      z = z' ∨ (∃ bits, a = .signed bits) ∧ (z - z').natAbs = 2 ^ 256 := by
  rw [TypedData.twosComplement_eq_iff]
  cases h with
  | unsigned h hn =>
    cases h' with
    | unsigned h' hn' =>
      simp only [reduceCtorEq, exists_false, false_and, or_false]
      omega
  | signed h hz =>
    cases h' with
    | signed h' hz' =>
      simp only [Atom.signed.injEq, exists_eq', true_and]
      omega

/-- A value is encoded for a type of integers if and only if it gives an integer that is taken, as
the complement of that one in a word, and is refused otherwise. The sizes of types take no part in
that. So all integers that are taken can be held by the type for the largest unsigned type alone,
and two integers of a type have one word if the type is signed and they are `2^256` apart, but not
otherwise. -/
theorem encodePrimitive_integer {a : Atom} {name : String} (ha : a.Names name)
    (hinteger : a.IsInteger) :
    (∀ j : Json, j.Fits →
      (∀ word, encodePrimitive name j = .ok word ↔ ∃! z, a.Takes j z ∧ word = twosComplement z) ∧
      ((∀ z, ¬a.Takes j z) → ∃ v, encodePrimitive name j = mismatch "unsigned integer" v)) ∧
    ((∀ j z, a.Takes j z → a.InRange z) ↔ a = .unsigned 256) ∧
    ∀ j z j' z', a.Takes j z → a.Takes j' z' → (twosComplement z = twosComplement z' ↔
      z = z' ∨ (∃ bits, a = .signed bits) ∧ (z - z').natAbs = 2 ^ 256) := by
  refine ⟨?_, inRange_iff ha hinteger, fun j z j' z' h h' => h.twosComplement_eq_iff h'⟩
  intro j hj
  refine ⟨fun word => ?_, encodePrimitive_refused ha hinteger hj⟩
  rw [encodePrimitive_iff ha hinteger hj]
  constructor
  · rintro ⟨z, hz, hword⟩
    exact ⟨z, ⟨hz, hword⟩, fun z' h' => h'.1.unique hz⟩
  · rintro ⟨z, h, -⟩
    exact ⟨z, h⟩

/-- A negative number in a text, with a mark and an underscore, is encoded as its complement. -/
theorem marked_debt_encoded :
    Atom.Names (.signed 16) "int16" ∧ (Atom.signed 16).IsInteger ∧
      encodePrimitive "int16" (.string "-0x1_0") = .ok (twosComplement (-16)) := by
  have hname : Atom.Names (.signed 16) "int16" :=
    .signedOf ⟨['1', '6'], rfl, rfl⟩ (by decide) (by decide) rfl
  have hinteger : (Atom.signed 16).IsInteger := ⟨16, .inr rfl⟩
  have hsixteen : NaturalForm ['0', 'x', '1', '_', '0'] 16 := (numberOfText_iff.mp (by decide)).1
  have htakes : (Atom.signed 16).Takes (.string "-0x1_0") (-16) :=
    .signed (.negativeText rfl hsixteen) (by decide)
  obtain ⟨hencoded, -⟩ := encodePrimitive_integer hname hinteger
  obtain ⟨hword, -⟩ := hencoded (.string "-0x1_0") trivial
  refine ⟨hname, hinteger, (hword _).mpr ⟨-16, ⟨htakes, rfl⟩, ?_⟩⟩
  exact fun z h => h.1.unique htakes

/-- A number of nine bits is encoded for a type of eight, and minus one and the largest number of
two hundred and fifty-six bits are encoded as one word for the same signed type. -/
theorem wide_integers_encoded :
    Atom.Names (.unsigned 8) "uint8" ∧
    encodePrimitive "uint8" (Json.nat 256) = .ok (twosComplement 256) ∧
    ¬Atom.InRange (.unsigned 8) 256 ∧
    Atom.Names (.signed 256) "int256" ∧
    encodePrimitive "int256" (.number (.negative 1)) = .ok (twosComplement (-1)) ∧
    encodePrimitive "int256" (.string
      "115792089237316195423570985008687907853269984665640564039457584007913129639935") =
        .ok (twosComplement (-1)) ∧
    ¬Atom.InRange (.signed 256)
      115792089237316195423570985008687907853269984665640564039457584007913129639935 := by
  refine ⟨.unsignedOf ⟨['8'], rfl, rfl⟩ (by decide) (by decide) rfl, by rfl, ?_,
    .signedOf ⟨['2', '5', '6'], rfl, rfl⟩ (by decide) (by decide) rfl, by rfl, by rfl, ?_⟩
  · exact fun h => absurd h.2 (by decide)
  · exact fun h => absurd h.2 (by decide)

end TypedData

end Countersign
