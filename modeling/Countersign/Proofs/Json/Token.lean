import Countersign.Json.Token
import Countersign.Proofs.Text.Numeral
import Countersign.Proofs.Text.Utf8
import Mathlib.Algebra.Group.Nat.Defs

/-!
# Strings and numbers in compact text

A string is read character by character: each escape, and each octet that is not escaped, gives back
the octets of its character. A number is read up to the first octet that cannot go on with it.
-/
namespace Countersign.Json

open Utf8 (octets)

/-! ### Strings -/

/-- An octet that stands for itself in a string. -/
def IsPlain (o : UInt8) : Prop := o ≠ 0x22 ∧ o ≠ 0x5C ∧ ¬o < 0x20

theorem pieces_plain {os : Bytes} (h : ∀ o ∈ os, IsPlain o) (rest : Bytes) :
    pieces? (os ++ rest) = (pieces? rest).map fun (more, rest) =>
      (os.map .octet ++ more, rest) := by
  induction os with
  | nil => simp
  | cons o os ih =>
    obtain ⟨⟨hquote, hslash, hcontrol⟩, hos⟩ := List.forall_mem_cons.mp h
    rw [List.cons_append, pieces?, if_neg hcontrol, ih hos]
    · cases pieces? rest <;> rfl
    · exact hquote
    · intro _ _ _ _ _ ho
      exact absurd ho hslash
    · intro _ _ ho
      exact absurd ho hslash

theorem spelled_octets (os : Bytes) (more : List Piece) :
    spelled? (os.map .octet ++ more) = (spelled? more).map (os ++ ·) := by
  induction os with
  | nil => simp
  | cons o os ih =>
    simp only [List.map_cons, List.cons_append, spelled?, ih, Option.map_map]
    rfl

theorem plain_of_encodeChar {c : Char} (hquote : c ≠ '"') (hslash : c ≠ '\\')
    (hcontrol : ¬c.toNat < 0x20) : ∀ o ∈ String.utf8EncodeChar c, IsPlain o := by
  have hplain (n : Nat) (hn : n < 256) (h : 0x20 ≤ n ∧ n ≠ 0x22 ∧ n ≠ 0x5C) :
      IsPlain (UInt8.ofNat n) := by
    refine ⟨?_, ?_, ?_⟩
    · exact mt (Utf8.octet_eq hn (by decide)).mp h.2.1
    · exact mt (Utf8.octet_eq hn (by decide)).mp h.2.2
    · exact mt (Utf8.octet_lt hn (by decide)).mp (Nat.not_lt.mpr h.1)
  have hne (d : Char) (h : c ≠ d) : c.toNat ≠ d.toNat := fun heq => h (Char.toNat_inj.mp heq)
  have hquote : c.toNat ≠ 0x22 := hne '"' hquote
  have hslash : c.toNat ≠ 0x5C := hne '\\' hslash
  have hval : c.val.toNat = c.toNat := rfl
  unfold String.utf8EncodeChar
  rw [hval]
  generalize c.toNat = v at *
  dsimp only
  split
  next => simpa using hplain v (by omega) (by omega)
  next =>
    split
    next =>
      simp only [List.forall_mem_cons, List.not_mem_nil, false_imp_iff, implies_true, and_true]
      exact ⟨hplain _ (by omega) (by omega), hplain _ (by omega) (by omega)⟩
    next =>
      split
      next =>
        simp only [List.forall_mem_cons, List.not_mem_nil, false_imp_iff, implies_true, and_true]
        exact ⟨hplain _ (by omega) (by omega), hplain _ (by omega) (by omega),
          hplain _ (by omega) (by omega)⟩
      next =>
        simp only [List.forall_mem_cons, List.not_mem_nil, false_imp_iff, implies_true, and_true]
        exact ⟨hplain _ (by omega) (by omega), hplain _ (by omega) (by omega),
          hplain _ (by omega) (by omega), hplain _ (by omega) (by omega)⟩

/-- The two digits of a control character are read back. -/
theorem unit_control : ∀ n : Fin 32,
    octets [Nat.digitChar (n.val / 16), Nat.digitChar (n.val % 16)] =
      [(Nat.digitChar (n.val / 16)).toNat.toUInt8, (Nat.digitChar (n.val % 16)).toNat.toUInt8] ∧
    unit? 0x30 0x30 (Nat.digitChar (n.val / 16)).toNat.toUInt8
      (Nat.digitChar (n.val % 16)).toNat.toUInt8 = some n.val := by
  decide

/-- An escaped character is read as pieces that give its octets. -/
theorem exists_pieces (c : Char) : ∃ ps,
    (∀ rest, pieces? (octets (escaped c) ++ rest) =
      (pieces? rest).map fun (more, rest) => (ps ++ more, rest)) ∧
    ∀ more, spelled? (ps ++ more) = (spelled? more).map (String.utf8EncodeChar c ++ ·) := by
  have hshort {o e : UInt8} (ho : o ≠ 0x75) (he : shortEscape? o = some e) (rest : Bytes) :
      pieces? (0x5C :: o :: rest) =
        (pieces? rest).map fun (more, rest) => ([Piece.octet e] ++ more, rest) := by
    rw [pieces?, he]
    · cases pieces? rest <;> rfl
    · intro _ _ _ _ _ h
      exact absurd h ho
  have hspelled (e : UInt8) (more : List Piece) :
      spelled? ([.octet e] ++ more) = (spelled? more).map ([e] ++ ·) := rfl
  unfold escaped
  split
  next h => exact ⟨_, hshort (by decide) rfl, by subst h; exact hspelled 0x22⟩
  next hquote =>
  split
  next h => exact ⟨_, hshort (by decide) rfl, by subst h; exact hspelled 0x5C⟩
  next hslash =>
  split
  next h => exact ⟨_, hshort (by decide) rfl, by subst h; exact hspelled 0x08⟩
  split
  next h => exact ⟨_, hshort (by decide) rfl, by subst h; exact hspelled 0x09⟩
  split
  next h => exact ⟨_, hshort (by decide) rfl, by subst h; exact hspelled 0x0A⟩
  split
  next h => exact ⟨_, hshort (by decide) rfl, by subst h; exact hspelled 0x0C⟩
  split
  next h => exact ⟨_, hshort (by decide) rfl, by subst h; exact hspelled 0x0D⟩
  split
  next hcontrol =>
    obtain ⟨hdigits, hunit⟩ := unit_control ⟨c.toNat, hcontrol⟩
    refine ⟨[.unit c.toNat], fun rest => ?_, fun more => ?_⟩
    · have hescape : octets ['\\', 'u', '0', '0'] = [0x5C, 0x75, 0x30, 0x30] := by decide
      change pieces? (octets (['\\', 'u', '0', '0'] ++ [_, _]) ++ rest) = _
      rw [Utf8.octets_append, hescape, hdigits]
      simp only [List.cons_append, List.nil_append, pieces?, hunit]
      cases pieces? rest <;> rfl
    · have hlow : ¬(0xD800 ≤ c.toNat ∧ c.toNat < 0xDC00) := by omega
      have hhigh : ¬(0xDC00 ≤ c.toNat ∧ c.toNat < 0xE000) := by omega
      rw [List.singleton_append, spelled?.eq_def]
      simp only [hlow, hhigh, if_false, Char.ofNat_toNat]
  next hcontrol =>
    refine ⟨(String.utf8EncodeChar c).map .octet, fun rest => ?_, spelled_octets _⟩
    rw [Utf8.octets_cons, Utf8.octets_nil, List.append_nil]
    exact pieces_plain (plain_of_encodeChar hquote hslash hcontrol) rest

/-- The text of a string is read as the string. -/
theorem read_stringText (s : String) (rest : Bytes) :
    ∃ ps, pieces? (octets (s.toList.flatMap escaped ++ ['"']) ++ rest) = some (ps, rest) ∧
      stringOf? ps = some s := by
  have h (cs : List Char) : ∃ ps,
      pieces? (octets (cs.flatMap escaped ++ ['"']) ++ rest) = some (ps, rest) ∧
        spelled? ps = some (octets cs) := by
    induction cs with
    | nil => exact ⟨[], by simp [pieces?, String.utf8EncodeChar], rfl⟩
    | cons c cs ih =>
      obtain ⟨ps, hps, hspelled⟩ := ih
      obtain ⟨qs, hqs, hqspelled⟩ := exists_pieces c
      refine ⟨qs ++ ps, ?_, ?_⟩
      · rw [List.flatMap_cons, List.append_assoc, Utf8.octets_append, List.append_assoc, hqs, hps]
        rfl
      · rw [hqspelled, hspelled]
        rfl
  obtain ⟨ps, hps, hspelled⟩ := h s.toList
  refine ⟨ps, hps, ?_⟩
  rw [stringOf?, hspelled, Option.bind_some, Utf8.decode_octets, String.ofList_toList]

/-! ### Numbers -/

/-- No octet comes next that goes on with a number. -/
def EndsNumber (rest : Bytes) : Prop :=
  ∀ o ∈ rest.head?, isDigit o = false ∧ o ≠ 0x2E ∧ o ≠ 0x65 ∧ o ≠ 0x45

variable {rest : Bytes}

theorem digitsOf_append (hrest : EndsNumber rest) (input : Bytes) :
    digitsOf (input ++ rest) = ((digitsOf input).1, (digitsOf input).2 ++ rest) := by
  induction input with
  | nil =>
    cases rest with
    | nil => rfl
    | cons o rest =>
      have ho : isDigit o = false := (hrest o rfl).1
      simp [digitsOf, ho]
  | cons o input ih =>
    unfold digitsOf at ih ⊢
    obtain ⟨htake, hdrop⟩ := Prod.mk.inj ih
    cases ho : isDigit o with
    | true => simpa [ho] using ⟨htake, hdrop⟩
    | false => simp [ho]

/-- What starts another part than a number still does so in front of such octets. -/
theorem head_append (hrest : EndsNumber rest) {input : Bytes} {P : UInt8 → Prop}
    (hP : ∀ o, isDigit o = false ∧ o ≠ 0x2E ∧ o ≠ 0x65 ∧ o ≠ 0x45 → P o)
    (h : ∀ o ∈ input.head?, P o) : ∀ o ∈ (input ++ rest).head?, P o := by
  cases input with
  | nil => exact fun o ho => hP o (hrest o ho)
  | cons o input => exact h

theorem fraction_none {input : Bytes} (h : ∀ o ∈ input.head?, o ≠ 0x2E) :
    fraction? input = some (none, input) := by
  unfold fraction?
  split
  next rest => exact absurd rfl (h 0x2E rfl)
  next => rfl

theorem exponent_none {input : Bytes} (h : ∀ o ∈ input.head?, ¬(o = 0x65 ∨ o = 0x45)) :
    exponent? input = some (none, input) := by
  unfold exponent?
  split
  next => rfl
  next o rest => rw [if_neg (h o rfl)]

theorem fraction_append (hrest : EndsNumber rest) {input left : Bytes} {f : Option (List Nat)}
    (h : fraction? input = some (f, left)) :
    fraction? (input ++ rest) = some (f, left ++ rest) := by
  by_cases hpoint : ∀ o ∈ input.head?, o ≠ 0x2E
  · rw [fraction_none hpoint] at h
    obtain ⟨rfl, rfl⟩ := Prod.mk.inj (Option.some.inj h)
    exact fraction_none (head_append hrest (fun o ho => ho.2.1) hpoint)
  · obtain ⟨more, rfl⟩ : ∃ more, input = 0x2E :: more := by
      cases input with
      | nil => exact absurd nofun hpoint
      | cons o more => exact ⟨more, by simpa using hpoint⟩
    simp only [List.cons_append, fraction?, digitsOf_append hrest] at h ⊢
    rcases hdigits : digitsOf more with ⟨_ | ⟨d, ds⟩, behind⟩ <;> rw [hdigits] at h
    · cases h
    · obtain ⟨rfl, rfl⟩ := Prod.mk.inj (Option.some.inj h)
      rfl

/-- The sign in front of the digits of an exponent, and what is behind it. -/
def exponentSign : Bytes → Bool × Bytes
  | 0x2B :: rest => (false, rest)
  | 0x2D :: rest => (true, rest)
  | rest => (false, rest)

/-- The digits of an exponent; there is one at least. -/
def exponentDigits (minus : Bool) (input : Bytes) : Option (Option (Bool × List Nat) × Bytes) :=
  match digitsOf input with
  | ([], _) => none
  | (ds, rest) => some (some (minus, ds), rest)

theorem exponent_mark {o : UInt8} (ho : o = 0x65 ∨ o = 0x45) (input : Bytes) :
    exponent? (o :: input) = exponentDigits (exponentSign input).1 (exponentSign input).2 := by
  unfold exponent?
  exact if_pos ho

theorem exponentSign_append {input : Bytes} (h : input ≠ []) :
    exponentSign (input ++ rest) = ((exponentSign input).1, (exponentSign input).2 ++ rest) := by
  obtain ⟨sign, more, rfl⟩ := List.exists_cons_of_ne_nil h
  rw [List.cons_append]
  by_cases hplus : sign = 0x2B
  · subst hplus
    rfl
  · by_cases hminus : sign = 0x2D
    · subst hminus
      rfl
    · have hnone (digits : Bytes) : exponentSign (sign :: digits) = (false, sign :: digits) := by
        unfold exponentSign
        split
        next heq => exact absurd (List.cons.inj heq).1 hplus
        next heq => exact absurd (List.cons.inj heq).1 hminus
        next => rfl
      rw [hnone, hnone, List.cons_append]

theorem exponentDigits_append (hrest : EndsNumber rest) {minus : Bool} {input left : Bytes}
    {e : Option (Bool × List Nat)} (h : exponentDigits minus input = some (e, left)) :
    exponentDigits minus (input ++ rest) = some (e, left ++ rest) := by
  unfold exponentDigits at h ⊢
  rw [digitsOf_append hrest]
  rcases hds : digitsOf input with ⟨_ | ⟨d, ds⟩, behind⟩ <;> rw [hds] at h
  · cases h
  · obtain ⟨rfl, rfl⟩ := Prod.mk.inj (Option.some.inj h)
    rfl

theorem exponent_append (hrest : EndsNumber rest) {input left : Bytes}
    {e : Option (Bool × List Nat)} (h : exponent? input = some (e, left)) :
    exponent? (input ++ rest) = some (e, left ++ rest) := by
  by_cases hmark : ∀ o ∈ input.head?, ¬(o = 0x65 ∨ o = 0x45)
  · rw [exponent_none hmark] at h
    obtain ⟨rfl, rfl⟩ := Prod.mk.inj (Option.some.inj h)
    exact exponent_none (head_append hrest (fun o ho => not_or.mpr ho.2.2) hmark)
  · obtain ⟨o, more, rfl, ho⟩ : ∃ o more, input = o :: more ∧ (o = 0x65 ∨ o = 0x45) := by
      cases input with
      | nil => exact absurd nofun hmark
      | cons o more =>
        refine ⟨o, more, rfl, Decidable.byContradiction fun hno => hmark fun o' ho' => ?_⟩
        obtain rfl := Option.some.inj ho'
        exact hno
    have hmore : more ≠ [] := by
      rintro rfl
      rw [exponent_mark ho] at h
      cases h
    rw [exponent_mark ho] at h
    rw [List.cons_append, exponent_mark ho, exponentSign_append hmore]
    exact exponentDigits_append hrest h

/-- The sign in front of a number, and what is behind it. -/
def numberSign : Bytes → Bool × Bytes
  | 0x2D :: rest => (true, rest)
  | rest => (false, rest)

theorem numberSign_none {o : UInt8} (ho : o ≠ 0x2D) (input : Bytes) :
    numberSign (o :: input) = (false, o :: input) := by
  unfold numberSign
  split
  next heq => exact absurd (List.cons.inj heq).1 ho
  next => rfl

/-- The digits in front of the point. -/
def wholePart (input : Bytes) : Option (List Nat × Bytes) :=
  match digitsOf input with
  | ([], _) => none
  | ([d], rest) => some ([d], rest)
  | (0 :: _, _) => none
  | (ds, rest) => some (ds, rest)

theorem literal_eq (input : Bytes) :
    literal? input = do
      let (whole, behind) ← wholePart (numberSign input).2
      let (fraction, behind) ← fraction? behind
      let (exponent, left) ← exponent? behind
      return (⟨(numberSign input).1, whole, fraction, exponent⟩, left) := by
  change (match digitsOf (numberSign input).2 with
    | ([], _) => _
    | ([_], _) => _
    | (0 :: _, _) => _
    | (_, _) => _) = _
  unfold wholePart
  split <;> rfl

theorem numberSign_append {input : Bytes} (h : input ≠ []) :
    numberSign (input ++ rest) = ((numberSign input).1, (numberSign input).2 ++ rest) := by
  obtain ⟨sign, more, rfl⟩ := List.exists_cons_of_ne_nil h
  rw [List.cons_append]
  by_cases hminus : sign = 0x2D
  · subst hminus
    rfl
  · rw [numberSign_none hminus, numberSign_none hminus, List.cons_append]

theorem wholePart_append (hrest : EndsNumber rest) {input left : Bytes} {ds : List Nat}
    (h : wholePart input = some (ds, left)) :
    wholePart (input ++ rest) = some (ds, left ++ rest) := by
  unfold wholePart at h ⊢
  rw [digitsOf_append hrest]
  split at h
  next => cases h
  next hd =>
    obtain ⟨rfl, rfl⟩ := Prod.mk.inj (Option.some.inj h)
    rw [hd]
  next => cases h
  next hnil hone hzero hd =>
    obtain ⟨rfl, rfl⟩ := Prod.mk.inj (Option.some.inj h)
    rw [hd]
    dsimp only
    split
    next heq => exact absurd (Prod.mk.inj heq).1 hnil
    next heq => exact absurd (Prod.mk.inj heq).1 (hone _)
    next heq => exact absurd (Prod.mk.inj heq).1 (hzero _)
    next heq => exact congrArg some heq.symm

/-- A number is read alike in front of what does not go on with it. -/
theorem literal_append (hrest : EndsNumber rest) {input left : Bytes} {l : Literal}
    (h : literal? input = some (l, left)) : literal? (input ++ rest) = some (l, left ++ rest) := by
  rw [literal_eq] at h
  obtain ⟨⟨whole, more⟩, hwhole, h⟩ := Option.bind_eq_some_iff.mp h
  obtain ⟨⟨fraction, more'⟩, hfraction, h⟩ := Option.bind_eq_some_iff.mp h
  obtain ⟨⟨exponent, left'⟩, hexponent, h⟩ := Option.bind_eq_some_iff.mp h
  obtain ⟨rfl, rfl⟩ := Prod.mk.inj (Option.some.inj h)
  have hinput : input ≠ [] := by
    rintro rfl
    cases hwhole
  simp only [literal_eq, numberSign_append hinput, wholePart_append hrest hwhole,
    fraction_append hrest hfraction, exponent_append hrest hexponent, Option.bind_eq_bind,
    Option.bind_some]
  rfl

/-- A number starts with a digit or a minus sign. -/
theorem head_of_literal {input left : Bytes} {l : Literal} (h : literal? input = some (l, left)) :
    ∃ o more, input = o :: more ∧ (o = 0x2D ∨ isDigit o = true) := by
  rw [literal_eq] at h
  obtain ⟨⟨whole, more⟩, hwhole, -⟩ := Option.bind_eq_some_iff.mp h
  cases input with
  | nil => cases hwhole
  | cons o input =>
    refine ⟨o, input, rfl, ?_⟩
    by_cases hminus : o = 0x2D
    · exact .inl hminus
    · refine .inr (eq_true_of_ne_false fun hdigit => ?_)
      have hnone : digitsOf (o :: input) = ([], o :: input) := by simp [digitsOf, hdigit]
      rw [numberSign_none hminus, wholePart, hnone] at hwhole
      cases hwhole

/-! ### Integers -/

/-- The number that decimal digits write behind another one. -/
def writtenBy (n : Nat) (ds : List Nat) : Nat := ds.foldl (fun n d => 10 * n + d) n

theorem le_writtenBy (n : Nat) (ds : List Nat) : n ≤ writtenBy n ds := by
  induction ds generalizing n with
  | nil => exact Nat.le_refl n
  | cons d ds ih => exact Nat.le_trans (by omega) (ih (10 * n + d))

theorem gathered_eq {n : Nat} {ds : List Nat} (h : writtenBy n ds < 2 ^ 64) :
    gathered n ds = (writtenBy n ds, 0) := by
  induction ds generalizing n with
  | nil => rfl
  | cons d ds ih =>
    have hfits : ¬2 ^ 64 ≤ 10 * n + d := Nat.not_le.mpr (Nat.lt_of_le_of_lt (le_writtenBy _ ds) h)
    rw [gathered, if_neg hfits]
    exact ih h

/-- The octet of a digit. -/
def digitOctet (d : Nat) : UInt8 := UInt8.ofNat (48 + d)

theorem digitOctet_spec : ∀ d : Fin 10, octets [Nat.digitChar d] = [digitOctet d] ∧
    isDigit (digitOctet d) = true ∧ (digitOctet d).toNat - 0x30 = d.val ∧ digitOctet d ≠ 0x2D := by
  decide

theorem digitsOf_digits {ds : List Nat} (h : ∀ d ∈ ds, d < 10) :
    digitsOf (ds.map digitOctet) = (ds, []) := by
  induction ds with
  | nil => rfl
  | cons d ds ih =>
    obtain ⟨hd, hds⟩ := List.forall_mem_cons.mp h
    obtain ⟨-, hdigit, hvalue, -⟩ := digitOctet_spec ⟨d, hd⟩
    obtain ⟨htake, hdrop⟩ := Prod.mk.inj (ih hds)
    simp only at hdigit hvalue
    simp only [digitsOf, List.map_cons, List.takeWhile_cons, List.dropWhile_cons, hdigit, if_true,
      hvalue, htake, hdrop]

/-- The digits of a number. Only zero itself starts with a zero. -/
theorem exists_digits (n : Nat) : ∃ d ds, octets (Nat.toDigits 10 n) = (d :: ds).map digitOctet ∧
    (∀ e ∈ d :: ds, e < 10) ∧ (d = 0 → n = 0 ∧ ds = []) ∧ writtenBy 0 (d :: ds) = n := by
  induction n using Nat.strongRecOn with
  | ind n ih =>
    by_cases hn : n < 10
    · refine ⟨n, [], ?_, by simpa using hn, fun h => ⟨h, rfl⟩, by simp [writtenBy]⟩
      rw [Nat.toDigits_of_lt_base hn]
      exact (digitOctet_spec ⟨n, hn⟩).1
    · obtain ⟨d, ds, hoctets, hdigits, hzero, hwritten⟩ := ih (n / 10) (by omega)
      have hlast : n % 10 < 10 := Nat.mod_lt n (by decide)
      refine ⟨d, ds ++ [n % 10], ?_, ?_, fun h => ?_, ?_⟩
      · rw [Nat.toDigits_of_base_le (by decide) (by omega), Utf8.octets_append, hoctets,
          (digitOctet_spec ⟨n % 10, hlast⟩).1, ← List.cons_append, List.map_append]
        rfl
      · intro e he
        rcases List.mem_append.mp (List.cons_append ▸ he) with he | he
        · exact hdigits e he
        · exact List.mem_singleton.mp he ▸ hlast
      · have := (hzero h).1
        omega
      · have happend :
            writtenBy 0 (d :: (ds ++ [n % 10])) = 10 * writtenBy 0 (d :: ds) + n % 10 := by
          simp [writtenBy]
        rw [happend, hwritten]
        omega

/-- What the text of a number is read as. -/
def Number.read? (n : Number) : Option Number :=
  match literal? (octets n.text) with
  | some (l, []) => l.value?
  | _ => none

theorem wholePart_digits {d : Nat} {ds : List Nat} (hdigits : ∀ e ∈ d :: ds, e < 10)
    (hzero : d = 0 → ds = []) :
    wholePart ((d :: ds).map digitOctet) = some (d :: ds, []) := by
  rw [wholePart, digitsOf_digits hdigits]
  cases ds with
  | nil => rfl
  | cons e ds =>
    cases d with
    | zero => cases hzero rfl
    | succ d => rfl

theorem read_natural {n : Nat} (h : n < 2 ^ 64) : (Number.natural n).read? = some (.natural n) := by
  obtain ⟨d, ds, hoctets, hdigits, hzero, hwritten⟩ := exists_digits n
  have hsign : numberSign ((d :: ds).map digitOctet) = (false, (d :: ds).map digitOctet) :=
    numberSign_none (digitOctet_spec ⟨d, hdigits d List.mem_cons_self⟩).2.2.2 _
  have hliteral :
      literal? (octets (Number.natural n).text) = some (⟨false, d :: ds, none, none⟩, []) := by
    rw [Number.text, hoctets, literal_eq, hsign, wholePart_digits hdigits fun h => (hzero h).2]
    rfl
  rw [Number.read?, hliteral]
  simp only [Literal.value?, gathered_eq (hwritten ▸ h), hwritten]
  rfl

theorem read_negative {n : Nat} (hpos : 0 < n) (h : n ≤ 2 ^ 63) :
    (Number.negative n).read? = some (.negative n) := by
  obtain ⟨d, ds, hoctets, hdigits, hzero, hwritten⟩ := exists_digits n
  have hminus : octets ('-' :: Nat.toDigits 10 n) = 0x2D :: (d :: ds).map digitOctet := by
    rw [Utf8.octets_cons, hoctets]
    rfl
  have hliteral :
      literal? (octets (Number.negative n).text) = some (⟨true, d :: ds, none, none⟩, []) := by
    rw [Number.text, hminus, literal_eq, numberSign, wholePart_digits hdigits fun h => (hzero h).2]
    rfl
  have hrange : ¬(n = 0 ∨ 2 ^ 63 < n) := by omega
  rw [Number.read?, hliteral]
  simp only [Literal.value?, gathered_eq (hwritten ▸ Nat.lt_of_le_of_lt h (by decide)), hwritten,
    hrange, if_false]
  rfl

end Countersign.Json
