import Countersign.Proofs.Ethereum.Words
import Countersign.Proofs.Text.Numeral
import Mathlib.Algebra.Group.Nat.Defs

/-!
# Numbers of typed data

What numbers values give, as numbers of a document or by texts, and that just those are read. In a
text there may be underscores and any number of zeros in front, and hexadecimal digits behind a
mark.
-/
namespace Countersign

/-- An integer that a document gives as a number has sixty-four bits. -/
def Json.Fits : Json → Prop
  | .number (.natural n) => n < 2 ^ 64
  | .number (.negative n) => n ≤ 2 ^ 63
  | _ => True

namespace TypedData

/-- Digits of a base, among which underscores may stand; no digit at all is zero. -/
def LooseNumeral (base : Nat) (cs : List Char) (n : Nat) : Prop :=
  Digits.Numeral base (cs.filter (· ≠ '_')) n ∨ cs.filter (· ≠ '_') = [] ∧ n = 0

/-- A text gives a natural number in some form. -/
def NaturalForm (cs : List Char) (n : Nat) : Prop :=
  LooseNumeral 10 cs n ∨ ∃ ds, cs = '0' :: 'x' :: ds ∧ LooseNumeral 16 ds n

/-- An integer is given as a number or by a text, in some form. -/
inductive IntegerForm : Json → Int → Prop
  | natural (n : Nat) : IntegerForm (.number (.natural n)) n
  | negative (n : Nat) : IntegerForm (.number (.negative n)) (-n)
  | naturalText {s : String} {n : Nat} (h : NaturalForm s.toList n) : IntegerForm (.string s) n
  | negativeText {s : String} {cs : List Char} {n : Nat} (hs : s.toList = '-' :: cs)
      (h : NaturalForm cs n) : IntegerForm (.string s) (-n)

/-- A natural number is given as a number or by a text, in some form and without a sign. -/
inductive NaturalGiven : Json → Nat → Prop
  | number (n : Nat) : NaturalGiven (.number (.natural n)) n
  | text {s : String} {n : Nat} (h : NaturalForm s.toList n) : NaturalGiven (.string s) n

/-! ### Texts -/

theorem LooseNumeral.of_numeral {base : Nat} (hb : base ≤ 16) {cs : List Char} {n : Nat}
    (h : Digits.Numeral base cs n) : LooseNumeral base cs n := by
  have hf : cs.filter (· ≠ '_') = cs := by
    rw [List.filter_eq_self]
    intro c hc
    simpa using h.ne hb (by simp) c hc
  exact .inl (hf.symm ▸ h)

theorem LooseNumeral.readLoose {base limit : Nat} (hb : base ≤ 16) {cs : List Char} {n : Nat}
    (h : LooseNumeral base cs n) (hn : n < limit) : Digits.readLoose? base limit cs = some n := by
  unfold Digits.readLoose?
  rcases h with h | ⟨h, rfl⟩
  · rw [Digits.continued_numeral hb h hn]
    rfl
  · rw [h]
    rfl

theorem LooseNumeral.of_readLoose {base limit : Nat} (hb : base ≤ 16) (hlimit : 0 < limit)
    {cs : List Char} {n : Nat} (h : Digits.readLoose? base limit cs = some n) :
    LooseNumeral base cs n ∧ n < limit := by
  unfold Digits.readLoose? at h
  cases hread : Digits.continued base limit 0 (cs.filter (· ≠ '_')) with
  | error e =>
    rw [hread] at h
    cases h
  | ok m =>
    rw [hread] at h
    obtain rfl := Option.some.inj h
    rcases Digits.numeral_of_continued hb hread with ⟨hnone, rfl⟩ | ⟨hnumeral, hlt⟩
    · exact ⟨.inr ⟨hnone, rfl⟩, hlimit⟩
    · exact ⟨.inl hnumeral, hlt⟩

/-- In a numeral there is no mark. -/
theorem LooseNumeral.notMem {base : Nat} (hb : base ≤ 16) {cs : List Char} {n : Nat}
    (h : LooseNumeral base cs n) {m : Char} (hm : m ∈ ['+', '-', 'x', '[', ']']) : m ∉ cs := by
  intro hmem
  have hloose : m ∈ cs.filter (· ≠ '_') := by
    rw [List.mem_filter]
    refine ⟨hmem, ?_⟩
    rw [decide_eq_true_eq]
    rintro rfl
    exact absurd hm (by decide)
  rcases h with h | ⟨h, -⟩
  · exact h.ne hb (List.mem_cons_of_mem _ hm) m hloose rfl
  · rw [h] at hloose
    cases hloose

theorem NaturalForm.numberOfText {cs : List Char} {n : Nat} (h : NaturalForm cs n)
    (hn : n < 2 ^ 256) : numberOfText? cs = some n := by
  unfold numberOfText?
  rcases h with h | ⟨ds, rfl, h⟩
  · split
    · exact absurd (by simp) (h.notMem (by decide) (m := 'x') (by simp))
    · exact h.readLoose (by decide) hn
  · exact h.readLoose (by decide) hn

theorem NaturalForm.ne_minus {cs : List Char} {n : Nat} (h : NaturalForm cs n)
    (rest : List Char) : cs ≠ '-' :: rest := by
  rintro rfl
  rcases h with h | ⟨ds, hds, -⟩
  · exact h.notMem (by decide) (m := '-') (by simp) List.mem_cons_self
  · simp at hds

/-- A text is read as the number below `2^256` that it gives. -/
theorem numberOfText_iff {cs : List Char} {n : Nat} :
    numberOfText? cs = some n ↔ NaturalForm cs n ∧ n < 2 ^ 256 := by
  constructor
  · intro h
    unfold numberOfText? at h
    split at h
    next ds =>
      exact (LooseNumeral.of_readLoose (by decide) (by decide) h).imp_left fun h =>
        .inr ⟨ds, rfl, h⟩
    next => exact (LooseNumeral.of_readLoose (by decide) (by decide) h).imp_left .inl
  · rintro ⟨h, hn⟩
    exact h.numberOfText hn

/-- A text gives one number only. -/
theorem NaturalForm.unique {cs : List Char} {n m : Nat} (h : NaturalForm cs n) (hn : n < 2 ^ 256)
    (h' : NaturalForm cs m) (hm : m < 2 ^ 256) : n = m :=
  Option.some.inj ((h.numberOfText hn).symm.trans (h'.numberOfText hm))

/-! ### Values -/

theorem unsignedOf_iff {j : Json} (hj : j.Fits) {n : Nat} :
    unsignedOf j = .ok n ↔ NaturalGiven j n ∧ n < 2 ^ 256 := by
  constructor
  · intro h
    cases j with
    | null | bool | array | object => cases h
    | number m =>
      cases m with
      | negative | float => cases h
      | natural m =>
        obtain rfl := Except.ok.inj h
        exact ⟨.number m, Nat.lt_of_lt_of_le hj (Nat.pow_le_pow_right (by decide) (by decide))⟩
    | string s =>
      unfold unsignedOf at h
      cases hs : numberOfText? s.toList with
      | none =>
        simp only [hs] at h
        cases h
      | some m =>
        simp only [hs] at h
        obtain rfl := Except.ok.inj h
        exact (numberOfText_iff.mp hs).imp_left .text
  · rintro ⟨h, hn⟩
    cases h with
    | number => rfl
    | text h => simp only [unsignedOf, h.numberOfText hn]

theorem NaturalGiven.integer {j : Json} {n : Nat} (h : NaturalGiven j n) : IntegerForm j n := by
  cases h with
  | number => exact .natural n
  | text h => exact .naturalText h

/-- An unsigned number that is taken has the value that it is given as. -/
theorem IntegerForm.unsignedOf {j : Json} {z : Int} (h : IntegerForm j z) (hz : 0 ≤ z)
    (hlt : z < (2 ^ 256 : Nat)) {n : Nat} (hn : TypedData.unsignedOf j = .ok n) : n = z.toNat := by
  cases h with
  | natural m => exact (Except.ok.inj hn).symm
  | negative m => cases hn
  | naturalText h =>
    simp only [TypedData.unsignedOf, h.numberOfText (by omega)] at hn
    exact (Except.ok.inj hn).symm
  | @negativeText s cs m hs h =>
    have hnone : numberOfText? s.toList = none := by
      rw [hs]
      rfl
    simp only [TypedData.unsignedOf, hnone] at hn
    cases hn

theorem negated_eq {n : Nat} (hn : n < 2 ^ 256) :
    negated n = ((-n : Int) % (2 ^ 256 : Nat)).toNat := by
  unfold negated
  omega

theorem IntegerForm.signedOf {j : Json} {z : Int} (h : IntegerForm j z) (hz : z.natAbs < 2 ^ 256) :
    TypedData.signedOf j = .ok (z % (2 ^ 256 : Nat)).toNat := by
  have hnatural (n : Nat) (hn : n < 2 ^ 256) : n = ((n : Int) % (2 ^ 256 : Nat)).toNat := by
    omega
  cases h with
  | natural n => exact congrArg Except.ok (hnatural n (by omega))
  | negative n => exact congrArg Except.ok (negated_eq (by omega))
  | @naturalText s n h =>
    simp only [TypedData.signedOf]
    split
    next rest hrest => exact absurd hrest (h.ne_minus rest)
    next =>
      simp only [TypedData.unsignedOf, h.numberOfText (by omega)]
      exact congrArg Except.ok (hnatural n (by omega))
  | @negativeText s cs n hs h =>
    have hcs : numberOfText? (String.ofList cs).toList = some n := by
      rw [String.toList_ofList]
      exact h.numberOfText (by omega)
    simp only [TypedData.signedOf, hs, TypedData.unsignedOf, hcs]
    exact congrArg Except.ok (negated_eq (by omega))

theorem signedOf_iff {j : Json} (hj : j.Fits) {m : Nat} :
    signedOf j = .ok m ↔ ∃ z, IntegerForm j z ∧ z.natAbs < 2 ^ 256 ∧
      m = (z % (2 ^ 256 : Nat)).toNat := by
  constructor
  · intro h
    have hunsigned (h : unsignedOf j = .ok m) :
        ∃ z, IntegerForm j z ∧ z.natAbs < 2 ^ 256 ∧ m = (z % (2 ^ 256 : Nat)).toNat := by
      obtain ⟨hgiven, hm⟩ := (unsignedOf_iff hj).mp h
      exact ⟨m, hgiven.integer, by omega, by omega⟩
    unfold signedOf at h
    split at h
    next n =>
      obtain rfl := Except.ok.inj h
      have hn : n < 2 ^ 256 := Nat.lt_of_le_of_lt hj (Nat.pow_lt_pow_right (by decide) (by decide))
      exact ⟨-n, .negative n, by omega, negated_eq hn⟩
    next s =>
      split at h
      next rest hrest =>
        obtain ⟨n, hn, rfl⟩ := exists_of_map_ok h
        obtain ⟨hgiven, hlt⟩ := (unsignedOf_iff (j := .string (String.ofList rest)) trivial).mp hn
        cases hgiven with
        | text hform =>
          rw [String.toList_ofList] at hform
          exact ⟨-n, .negativeText hrest hform, by omega, negated_eq hlt⟩
      next => exact hunsigned h
    next => exact hunsigned h
  · rintro ⟨z, hz, hlt, rfl⟩
    exact hz.signedOf hlt

/-- What is not read is refused, and the refusal says what was asked for. -/
theorem unsignedOf_cases (j : Json) :
    (∃ n, unsignedOf j = .ok n) ∨ unsignedOf j = mismatch "unsigned integer" j := by
  unfold unsignedOf
  dsimp only
  split
  next n _ => exact .inl ⟨n, rfl⟩
  next => exact .inr rfl

theorem signedOf_cases (j : Json) :
    (∃ n, signedOf j = .ok n) ∨ ∃ v, signedOf j = mismatch "unsigned integer" v := by
  have hunsigned :
      (∃ n, unsignedOf j = .ok n) ∨ ∃ v, unsignedOf j = mismatch "unsigned integer" v :=
    (unsignedOf_cases j).imp_right fun h => ⟨j, h⟩
  unfold signedOf
  split
  next n => exact .inl ⟨negated n, rfl⟩
  next =>
    split
    next rest _ =>
      rcases unsignedOf_cases (.string (String.ofList rest)) with ⟨n, hn⟩ | hrefused
      · exact .inl ⟨negated n, by rw [hn]; rfl⟩
      · exact .inr ⟨_, by rw [hrefused]; rfl⟩
    next => exact hunsigned
  next => exact hunsigned

end TypedData

end Countersign
