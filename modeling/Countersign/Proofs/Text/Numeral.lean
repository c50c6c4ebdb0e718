import Countersign.Text.Digits
import Countersign.Text.Hex
import Mathlib.Data.List.Induction

/-!
# Numerals and hexadecimal text

What numerals of base ten and sixteen and the hexadecimal text of a byte string are, apart from how
they are read, and that reading gives what they stand for.
-/
namespace Countersign

namespace Digits

/-- The digits of a base up to sixteen; letters are of either case. -/
def IsDigit (base : Nat) (c : Char) (d : Nat) : Prop :=
  d < base ∧ (c = d.digitChar ∨ c = d.digitChar.toUpper)

/-- A numeral is a digit, or a numeral with a digit behind it. -/
inductive Numeral (base : Nat) : List Char → Nat → Prop
  | digit {c : Char} {d : Nat} (hd : IsDigit base c d) : Numeral base [c] d
  | snoc {cs : List Char} {n : Nat} {c : Char} {d : Nat} (hn : Numeral base cs n)
      (hd : IsDigit base c d) : Numeral base (cs ++ [c]) (base * n + d)

theorem value_digit : ∀ d : Fin 16, value? (Nat.digitChar d) = some d.val ∧
    value? (Nat.digitChar d).toUpper = some d.val := by
  decide

theorem valueIn_digit {base : Nat} (hb : base ≤ 16) {c : Char} {d : Nat} (h : IsDigit base c d) :
    valueIn? base c = some d := by
  obtain ⟨hd, rfl | rfl⟩ := h
  · have hv : value? d.digitChar = some d := (value_digit ⟨d, by omega⟩).1
    simp [valueIn?, hv, hd]
  · have hv : value? d.digitChar.toUpper = some d := (value_digit ⟨d, by omega⟩).2
    simp [valueIn?, hv, hd]

/-- No digit is an underscore or a mark in front of a numeral. -/
theorem digit_notMem : ∀ d : Fin 16, Nat.digitChar d ∉ ['_', '+', '-', 'x', '[', ']'] ∧
    (Nat.digitChar d).toUpper ∉ ['_', '+', '-', 'x', '[', ']'] := by
  decide

theorem IsDigit.ne {base : Nat} (hb : base ≤ 16) {c : Char} {d : Nat} (h : IsDigit base c d)
    {m : Char} (hm : m ∈ ['_', '+', '-', 'x', '[', ']']) : c ≠ m := by
  obtain ⟨hd, rfl | rfl⟩ := h
  · exact (ne_of_mem_of_not_mem hm (digit_notMem ⟨d, by omega⟩).1).symm
  · exact (ne_of_mem_of_not_mem hm (digit_notMem ⟨d, by omega⟩).2).symm

theorem Numeral.isDigit {base : Nat} {cs : List Char} {n : Nat} (h : Numeral base cs n) :
    ∀ c ∈ cs, ∃ d, IsDigit base c d := by
  induction h with
  | digit hd =>
    intro c hc
    obtain rfl := List.mem_singleton.mp hc
    exact ⟨_, hd⟩
  | snoc _ hd ih =>
    intro c hc
    rcases List.mem_append.mp hc with hc | hc
    · exact ih c hc
    · obtain rfl := List.mem_singleton.mp hc
      exact ⟨_, hd⟩

theorem Numeral.ne {base : Nat} (hb : base ≤ 16) {cs : List Char} {n : Nat}
    (h : Numeral base cs n) {m : Char} (hm : m ∈ ['_', '+', '-', 'x', '[', ']']) :
    ∀ c ∈ cs, c ≠ m := by
  intro c hc
  obtain ⟨d, hd⟩ := h.isDigit c hc
  exact hd.ne hb hm

theorem continued_append (base limit : Nat) (cs more : List Char) (n : Nat) :
    continued base limit n (cs ++ more) =
      (continued base limit n cs).bind fun m => continued base limit m more := by
  induction cs generalizing n with
  | nil => rfl
  | cons c cs ih =>
    simp only [List.cons_append, continued]
    cases valueIn? base c with
    | none => rfl
    | some d =>
      by_cases hl : limit ≤ base * n + d
      · simp [hl, Except.bind]
      · simp [hl, ih]

/-- What is read has no character that is no digit. -/
theorem notMem_of_continued {base limit n m : Nat} {c : Char} (hc : valueIn? base c = none)
    {cs : List Char} (h : continued base limit n cs = .ok m) : c ∉ cs := by
  induction cs generalizing n with
  | nil => simp
  | cons d cs ih =>
    simp only [continued] at h
    split at h
    next => cases h
    next value hvalue =>
      split at h
      next => cases h
      next =>
        refine List.not_mem_cons_of_ne_of_not_mem ?_ (ih h)
        rintro rfl
        rw [hc] at hvalue
        cases hvalue

theorem notMem_of_read {base limit m : Nat} {c : Char} (hc : valueIn? base c = none)
    (hplus : c ≠ '+') {cs : List Char} (h : read base limit cs = .ok m) : c ∉ cs := by
  unfold read at h
  split at h
  next => cases h
  next => cases h
  next rest _ => exact List.not_mem_cons_of_ne_of_not_mem hplus (notMem_of_continued hc h)
  next => exact notMem_of_continued hc h

theorem continued_numeral {base limit : Nat} (hb : base ≤ 16) {cs : List Char} {n : Nat}
    (h : Numeral base cs n) (hn : n < limit) : continued base limit 0 cs = .ok n := by
  induction h with
  | digit hd => simp [continued, valueIn_digit hb hd, Nat.not_le.mpr hn]
  | @snoc cs m c d hm hd ih =>
    have hle : m ≤ base * m := Nat.le_mul_of_pos_left m (Nat.zero_lt_of_lt hd.1)
    rw [continued_append, ih (by omega)]
    simp [Except.bind, continued, valueIn_digit hb hd, Nat.not_le.mpr hn]

theorem toNat_of_value {c : Char} {d : Nat} (h : value? c = some d) :
    c.toNat = d + 48 ∧ d < 10 ∨ 10 ≤ d ∧ (c.toNat = d + 87 ∨ c.toNat = d + 55) := by
  have hle (a b : Char) : a ≤ b ↔ a.toNat ≤ b.toNat := UInt32.le_iff_toNat_le
  simp only [value?, hle, Char.reduceToNat] at h
  split at h
  next => have := Option.some.inj h; omega
  next =>
    split at h
    next => have := Option.some.inj h; omega
    next =>
      split at h
      next => have := Option.some.inj h; omega
      next => cases h

/-- Digits are read from digits only. -/
theorem isDigit_of_valueIn {base : Nat} (hb : base ≤ 16) {c : Char} {d : Nat}
    (h : valueIn? base c = some d) : IsDigit base c d := by
  obtain ⟨hvalue, hlt⟩ := Option.filter_eq_some_iff.mp h
  have hd : d < base := by simpa using hlt
  have hchars : ∀ d : Fin 16, (d.val < 10 → Char.ofNat (d + 48) = d.val.digitChar) ∧
      (10 ≤ d.val → Char.ofNat (d + 87) = d.val.digitChar ∧
        Char.ofNat (d + 55) = d.val.digitChar.toUpper) := by
    decide
  obtain ⟨hlow, hletter⟩ := hchars ⟨d, by omega⟩
  refine ⟨hd, ?_⟩
  rw [← Char.ofNat_toNat c]
  rcases toNat_of_value hvalue with ⟨hc, hsmall⟩ | ⟨hlarge, hc | hc⟩
  · exact .inl (hc ▸ hlow hsmall)
  · exact .inl (hc ▸ (hletter hlarge).1)
  · exact .inr (hc ▸ (hletter hlarge).2)

/-- What is read are the digits of a numeral, unless there are none. -/
theorem numeral_of_continued {base limit : Nat} (hb : base ≤ 16) {cs : List Char} {n : Nat}
    (h : continued base limit 0 cs = .ok n) : cs = [] ∧ n = 0 ∨ Numeral base cs n ∧ n < limit := by
  induction cs using List.reverseRecOn generalizing n with
  | nil => exact .inl ⟨rfl, (Except.ok.inj h).symm⟩
  | append_singleton cs c ih =>
    rw [continued_append] at h
    cases hm : continued base limit 0 cs with
    | error e => rw [hm] at h; cases h
    | ok m =>
      rw [hm] at h
      simp only [Except.bind, continued] at h
      split at h
      next => cases h
      next d hd =>
        have hdigit := isDigit_of_valueIn hb hd
        split at h
        next => cases h
        next hlt =>
          obtain rfl := Except.ok.inj h
          right
          constructor
          · rcases ih hm with ⟨rfl, rfl⟩ | ⟨hnumeral, -⟩
            · simpa using Numeral.digit hdigit
            · exact .snoc hnumeral hdigit
          · exact Nat.not_le.mp hlt

theorem Numeral.ne_nil {base : Nat} {cs : List Char} {n : Nat} (h : Numeral base cs n) :
    cs ≠ [] := by
  cases h with
  | digit hd => simp
  | snoc hn hd => simp

/-- A numeral, or one behind a plus sign. -/
def Signed (base : Nat) (cs : List Char) (n : Nat) : Prop :=
  ∃ ds, Numeral base ds n ∧ (cs = ds ∨ cs = '+' :: ds)

theorem Signed.isDigit {base : Nat} {cs : List Char} {n : Nat} (h : Signed base cs n) :
    ∀ c ∈ cs, c = '+' ∨ ∃ d, IsDigit base c d := by
  obtain ⟨ds, hds, rfl | rfl⟩ := h
  · exact fun c hc => .inr (hds.isDigit c hc)
  · exact List.forall_mem_cons.mpr ⟨.inl rfl, fun c hc => .inr (hds.isDigit c hc)⟩

/-- What is read are the numerals below the limit, which may follow one plus sign. -/
theorem read_iff {base limit : Nat} (hb : base ≤ 16) {cs : List Char} {n : Nat} :
    read base limit cs = .ok n ↔ Signed base cs n ∧ n < limit := by
  constructor
  · intro h
    unfold read at h
    split at h
    next => cases h
    next => cases h
    next ds hds =>
      rcases numeral_of_continued hb h with ⟨rfl, -⟩ | ⟨hnumeral, hn⟩
      · exact absurd rfl hds
      · exact ⟨⟨ds, hnumeral, .inr rfl⟩, hn⟩
    next hnil _ _ =>
      rcases numeral_of_continued hb h with ⟨rfl, -⟩ | ⟨hnumeral, hn⟩
      · exact absurd rfl hnil
      · exact ⟨⟨_, hnumeral, .inl rfl⟩, hn⟩
  · rintro ⟨⟨ds, hds, rfl | rfl⟩, hn⟩
    · have hplus : ∀ rest, cs ≠ '+' :: rest := by
        rintro rest rfl
        exact hds.ne hb (by simp) _ List.mem_cons_self rfl
      rw [read, continued_numeral hb hds hn]
      · exact hds.ne_nil
      · exact hplus []
      · exact hplus
    · rw [read, continued_numeral hb hds hn]
      exact hds.ne_nil

/-- A text is that of at most one number. -/
theorem Signed.unique {base : Nat} (hb : base ≤ 16) {cs : List Char} {m n : Nat}
    (hm : Signed base cs m) (hn : Signed base cs n) : m = n := by
  have hread : read base (max m n + 1) cs = .ok m := (read_iff hb).mpr ⟨hm, by omega⟩
  rw [(read_iff hb).mpr ⟨hn, by omega⟩] at hread
  exact (Except.ok.inj hread).symm

/-- The digits that are written for a number are a numeral of it. -/
theorem numeral_toDigits {base : Nat} (hbase : 1 < base) (n : Nat) :
    Numeral base (Nat.toDigits base n) n := by
  induction n using Nat.strongRecOn with
  | ind n ih =>
    by_cases hn : n < base
    · rw [Nat.toDigits_of_lt_base hn]
      exact .digit ⟨hn, .inl rfl⟩
    · have hlast : IsDigit base (Nat.digitChar (n % base)) (n % base) :=
        ⟨Nat.mod_lt n (by omega), .inl rfl⟩
      have hsnoc := (ih (n / base) (Nat.div_lt_self (by omega) hbase)).snoc hlast
      rw [Nat.div_add_mod] at hsnoc
      rwa [Nat.toDigits_of_base_le hbase (by omega)]

end Digits

namespace Hex

open Digits (IsDigit)

/-- The hexadecimal text of a byte string: two digits for each octet. -/
inductive Spells : List Char → Bytes → Prop
  | nil : Spells [] []
  | cons {c c' : Char} {x y : Nat} {cs : List Char} {b : Bytes} (hx : IsDigit 16 c x)
      (hy : IsDigit 16 c' y) (h : Spells cs b) :
      Spells (c :: c' :: cs) (UInt8.ofNat (16 * x + y) :: b)

/-- A text that gives a byte string in hexadecimal, with or without the mark `0x`. -/
def IsText (s : String) (b : Bytes) : Prop :=
  ∃ cs, Spells cs b ∧ (s.toList = cs ∨ s.toList = '0' :: 'x' :: cs)

theorem octet_digit : ∀ d : Fin 16,
    (String.utf8EncodeChar (Nat.digitChar d)).map value? = [some d.val] ∧
      (String.utf8EncodeChar (Nat.digitChar d).toUpper).map value? = [some d.val] := by
  decide

theorem octet_of_digit {c : Char} {d : Nat} (h : IsDigit 16 c d) :
    ∃ o, String.utf8EncodeChar c = [o] ∧ value? o = some d := by
  obtain ⟨hd, rfl | rfl⟩ := h
  · exact List.map_eq_singleton_iff.mp (octet_digit ⟨d, hd⟩).1
  · exact List.map_eq_singleton_iff.mp (octet_digit ⟨d, hd⟩).2

theorem pairs_spells {cs : List Char} {b : Bytes} (h : Spells cs b) (position : Nat) :
    (cs.flatMap String.utf8EncodeChar).length % 2 = 0 ∧
      pairs position (cs.flatMap String.utf8EncodeChar) = .ok b := by
  induction h generalizing position with
  | nil => exact ⟨rfl, rfl⟩
  | cons hx hy _ ih =>
    obtain ⟨o, ho, hvo⟩ := octet_of_digit hx
    obtain ⟨o', ho', hvo'⟩ := octet_of_digit hy
    obtain ⟨hlen, hrest⟩ := ih (position + 2)
    simp only [List.flatMap_cons, ho, ho', List.cons_append, List.nil_append, List.length_cons]
    exact ⟨by omega, by simp [pairs, hvo, hvo', hrest]⟩

theorem unmarked_text {s : String} {cs : List Char} {b : Bytes} (h : Spells cs b)
    (hs : s.toList = cs ∨ s.toList = '0' :: 'x' :: cs) : unmarked s = cs := by
  unfold unmarked
  rcases hs with hs | hs <;> rw [hs]
  · split
    · cases h with
      | cons _ hy _ => exact absurd rfl (hy.ne (Nat.le_refl 16) (by simp))
    · rfl
  · rfl

theorem decode_text {s : String} {b : Bytes} (h : IsText s b) : decode s = .ok b := by
  obtain ⟨cs, hcs, hs⟩ := h
  obtain ⟨hlen, hpairs⟩ := pairs_spells hcs 0
  rw [decode, unmarked_text hcs hs, decodeOctets, if_neg (by omega), hpairs]

/-- The digits that are written for octets spell them. -/
theorem spells_digits (b : Bytes) : Spells (digits b) b := by
  have hdigit : ∀ d : Fin 16, digit d = Nat.digitChar d := by decide
  induction b with
  | nil => exact .nil
  | cons o b ih =>
    have ho := o.toNat_lt
    have hhigh : IsDigit 16 (digit (o.toNat / 16)) (o.toNat / 16) :=
      ⟨by omega, .inl (hdigit ⟨o.toNat / 16, by omega⟩)⟩
    have hlow : IsDigit 16 (digit (o.toNat % 16)) (o.toNat % 16) :=
      ⟨by omega, .inl (hdigit ⟨o.toNat % 16, by omega⟩)⟩
    have hspells := Spells.cons hhigh hlow ih
    rwa [Nat.div_add_mod, UInt8.ofNat_toNat] at hspells

/-- An octet that is a digit is all that its character has, as the first octet of a longer character
is no digit. -/
theorem digit_of_octet {c : Char} {o : UInt8} {os : Bytes} {x : Nat}
    (hc : String.utf8EncodeChar c = o :: os) (ho : value? o = some x) :
    os = [] ∧ IsDigit 16 c x := by
  have hvalues : ∀ n : Fin 128, value? (UInt8.ofNat n) = Digits.valueIn? 16 (Char.ofNat n) := by
    decide
  have hsmall : o.toNat < 0x80 := by
    simp only [value?, UInt8.le_iff_toNat_le, UInt8.reduceToNat] at ho
    split at ho
    next => omega
    next =>
      split at ho
      next => omega
      next =>
        split at ho
        next => omega
        next => cases ho
  have hval : c.val.toNat = c.toNat := rfl
  unfold String.utf8EncodeChar at hc
  rw [hval] at hc
  dsimp only at hc
  split at hc
  next hc' =>
    obtain ⟨rfl, rfl⟩ := List.cons.inj hc
    refine ⟨rfl, Digits.isDigit_of_valueIn (Nat.le_refl 16) ?_⟩
    have hvalue := hvalues ⟨c.toNat, by omega⟩
    rw [Char.ofNat_toNat] at hvalue
    rw [← hvalue]
    exact ho
  next =>
    have hlong {n : Nat} (hn : 0x80 ≤ n ∧ n < 256) : UInt8.ofNat n ≠ o := by
      rintro rfl
      have htoNat : (UInt8.ofNat n).toNat = n := UInt8.toNat_ofNat_of_lt hn.2
      omega
    split at hc
    next => exact absurd (List.cons.inj hc).1 (hlong (by omega))
    next =>
      split at hc
      next => exact absurd (List.cons.inj hc).1 (hlong (by omega))
      next => exact absurd (List.cons.inj hc).1 (hlong (by omega))

/-- An octet that is a digit is the first character of its text. -/
theorem digit_of_octets {cs : List Char} {o : UInt8} {rest : Bytes} {x : Nat}
    (hcs : cs.flatMap String.utf8EncodeChar = o :: rest) (ho : value? o = some x) :
    ∃ c more, cs = c :: more ∧ IsDigit 16 c x ∧ more.flatMap String.utf8EncodeChar = rest := by
  cases cs with
  | nil => cases hcs
  | cons c more =>
    obtain ⟨o', os, hc⟩ := List.exists_cons_of_ne_nil (String.utf8EncodeChar_ne_nil (c := c))
    rw [List.flatMap_cons, hc, List.cons_append] at hcs
    obtain ⟨rfl, hrest⟩ := List.cons.inj hcs
    obtain ⟨rfl, hdigit⟩ := digit_of_octet hc ho
    exact ⟨c, more, rfl, hdigit, hrest⟩

/-- Octets are read from what spells them only. -/
theorem spells_of_pairs {cs : List Char} {b : Bytes} {position : Nat}
    (h : pairs position (cs.flatMap String.utf8EncodeChar) = .ok b) : Spells cs b := by
  generalize htext : cs.flatMap String.utf8EncodeChar = text at h
  fun_induction pairs position text generalizing cs b with
  | case1 | case2 | case3 | case5 => cases h
  | case4 position o o' rest x y ho' ho bytes hbytes ih =>
    obtain rfl := Except.ok.inj h
    obtain ⟨c, more, rfl, hc, hmore⟩ := digit_of_octets htext ho
    obtain ⟨c', behind, rfl, hc', hbehind⟩ := digit_of_octets hmore ho'
    exact .cons hc hc' (ih hbehind hbytes)
  | case6 =>
    obtain rfl := Except.ok.inj h
    cases cs with
    | nil => exact .nil
    | cons c more =>
      rw [List.flatMap_cons] at htext
      exact absurd (List.append_eq_nil_iff.mp htext).1 String.utf8EncodeChar_ne_nil

end Hex

end Countersign
