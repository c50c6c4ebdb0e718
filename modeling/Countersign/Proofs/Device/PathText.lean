import Countersign.Proofs.Device.PathOctets
import Countersign.Proofs.Json.Forms

/-!
# Paths in text

A path is read from the texts of one form only: `m` and five numbers, each behind a slash, with an
apostrophe behind each of the first three. The first number is the purpose, and any number may have
zeros in front, or a plus sign. Of these texts a path is written as the shortest one, which is read
back.
-/
namespace Countersign.DerivationPath

open Digits (Signed)

/-! ### Parts between slashes -/

theorem parts_slash (rest : List Char) : parts ('/' :: rest) = [] :: parts rest := rfl

theorem parts_ne_nil (cs : List Char) : parts cs ≠ [] := by
  unfold parts
  split
  next => simp
  next => simp
  next =>
    split
    next => simp
    next => simp

theorem parts_cons {c : Char} (hc : c ≠ '/') {cs part : List Char} {more : List (List Char)}
    (h : parts cs = part :: more) : parts (c :: cs) = (c :: part) :: more := by
  rw [parts, h]
  exact hc

/-- The parts behind each other, with a slash in front of each, are the text behind a slash. -/
theorem flatMap_parts (cs : List Char) : (parts cs).flatMap ('/' :: ·) = '/' :: cs := by
  induction cs with
  | nil => rfl
  | cons c cs ih =>
    obtain ⟨part, more, hparts⟩ := List.exists_cons_of_ne_nil (parts_ne_nil cs)
    rw [hparts, List.flatMap_cons, List.cons_append, List.cons.injEq] at ih
    by_cases hc : c = '/'
    · subst hc
      rw [parts_slash, hparts, List.flatMap_cons, List.flatMap_cons, ← ih.2]
      rfl
    · rw [parts_cons hc hparts, List.flatMap_cons, List.cons_append, List.cons_append, ih.2]

theorem parts_of_free {part : List Char} (h : '/' ∉ part) : parts part = [part] := by
  induction part with
  | nil => rfl
  | cons c part ih =>
    obtain ⟨hc, hpart⟩ := List.ne_and_not_mem_of_not_mem_cons h
    exact parts_cons (Ne.symm hc) (ih hpart)

theorem parts_append_slash {part : List Char} (h : '/' ∉ part) (rest : List Char) :
    parts (part ++ '/' :: rest) = part :: parts rest := by
  induction part with
  | nil => rfl
  | cons c part ih =>
    obtain ⟨hc, hpart⟩ := List.ne_and_not_mem_of_not_mem_cons h
    exact parts_cons (Ne.symm hc) (ih hpart)

/-- Parts without a slash are those of the text that they make. -/
theorem parts_flatMap {ps : List (List Char)} (h : ∀ part ∈ ps, '/' ∉ part) {cs : List Char}
    (hcs : '/' :: cs = ps.flatMap ('/' :: ·)) : parts cs = ps := by
  induction ps generalizing cs with
  | nil => cases hcs
  | cons part more ih =>
    obtain ⟨hpart, hmore⟩ := List.forall_mem_cons.mp h
    rw [List.flatMap_cons, List.cons_append, List.cons.injEq] at hcs
    obtain ⟨-, rfl⟩ := hcs
    cases more with
    | nil => rw [List.flatMap_nil, List.append_nil, parts_of_free hpart]
    | cons next more =>
      rw [List.flatMap_cons, List.cons_append, parts_append_slash hpart, ih hmore]
      rfl

/-! ### Steps in text -/

/-- The apostrophe of a hardened step. -/
def Step.mark (s : Step) : List Char :=
  if s.hardened then ['\''] else []

/-- A part of a text that gives a step: digits, which may follow a plus sign, and the mark behind
them. -/
def Step.Spelled (s : Step) (part : List Char) : Prop :=
  ∃ digits, Signed 10 digits s.number ∧ part = digits ++ s.mark

/-- The steps of numbers from a place on. -/
def steps (place : Nat) (ns : List Nat) : List Step :=
  (ns.zipIdx place).map fun (n, place) => ⟨n, isHardened place⟩

theorem map_number_steps (place : Nat) (ns : List Nat) : (steps place ns).map Step.number = ns := by
  rw [steps, List.map_map]
  exact List.zipIdx_map_fst place ns

theorem steps_inj {place : Nat} {ms ns : List Nat} (h : steps place ms = steps place ns) :
    ms = ns := by
  rw [← map_number_steps place ms, h, map_number_steps]

/-- No digit or sign is a mark of a path. -/
theorem signed_notMem {digits : List Char} {n : Nat} (h : Signed 10 digits n) {m : Char}
    (hm : m ∈ ['\'', '/']) : m ∉ digits := by
  have hdigit : ∀ d : Fin 10,
      Nat.digitChar d ∉ ['\'', '/'] ∧ (Nat.digitChar d).toUpper ∉ ['\'', '/'] := by
    decide
  intro hmem
  rcases h.isDigit m hmem with rfl | ⟨d, hd, rfl | rfl⟩
  · exact absurd hm (by decide)
  · exact (hdigit ⟨d, hd⟩).1 hm
  · exact (hdigit ⟨d, hd⟩).2 hm

theorem unmarkedPart_append (digits : List Char) :
    unmarkedPart (digits ++ ['\'']) = (digits, true) := by
  simp [unmarkedPart]

theorem unmarkedPart_of_notMem {digits : List Char} (h : '\'' ∉ digits) :
    unmarkedPart digits = (digits, false) := by
  unfold unmarkedPart
  split
  next rest hrest =>
    have hmem : '\'' ∈ digits.reverse := hrest ▸ List.mem_cons_self
    exact absurd (List.mem_reverse.mp hmem) h
  next => rfl

theorem append_unmarkedPart {part digits : List Char} {hardened : Bool}
    (h : unmarkedPart part = (digits, hardened)) :
    part = digits ++ if hardened then ['\''] else [] := by
  unfold unmarkedPart at h
  split at h
  next rest hrest =>
    obtain ⟨rfl, rfl⟩ := Prod.mk.inj h
    rw [← List.reverse_reverse part, hrest]
    simp
  next =>
    obtain ⟨rfl, rfl⟩ := Prod.mk.inj h
    simp

theorem Step.spelled_iff {s : Step} {part : List Char} :
    s.Spelled part ↔ ∃ digits, unmarkedPart part = (digits, s.hardened) ∧
      Signed 10 digits s.number := by
  constructor
  · rintro ⟨digits, hdigits, rfl⟩
    refine ⟨digits, ?_, hdigits⟩
    cases hs : s.hardened with
    | true => simpa [mark, hs] using unmarkedPart_append digits
    | false => simpa [mark, hs] using unmarkedPart_of_notMem (signed_notMem hdigits (by simp))
  · rintro ⟨digits, hpart, hdigits⟩
    exact ⟨digits, hdigits, append_unmarkedPart hpart⟩

/-- No part gives two steps. -/
theorem Step.leftUnique_spelled : Relator.LeftUnique Step.Spelled := by
  rintro ⟨m, hardened⟩ ⟨n, hardened'⟩ part h h'
  obtain ⟨digits, hpart, hm⟩ := spelled_iff.mp h
  obtain ⟨digits', hpart', hn⟩ := spelled_iff.mp h'
  obtain ⟨rfl, rfl⟩ := Prod.mk.inj (hpart.symm.trans hpart')
  obtain rfl : m = n := hm.unique (by decide) hn
  rfl

theorem Step.Spelled.free {s : Step} {part : List Char} (h : s.Spelled part) : '/' ∉ part := by
  obtain ⟨digits, hdigits, rfl⟩ := h
  have hmark : '/' ∉ s.mark := by
    unfold mark
    split <;> decide
  exact List.not_mem_append (signed_notMem hdigits (by simp)) hmark

theorem free_of_spelled {ss : List Step} {ps : List (List Char)}
    (h : List.Forall₂ Step.Spelled ss ps) : ∀ part ∈ ps, '/' ∉ part := by
  induction h with
  | nil => simp
  | cons hpart _ ih => exact List.forall_mem_cons.mpr ⟨hpart.free, ih⟩

/-- The part that is written for a step. -/
def Step.part (s : Step) : List Char :=
  Nat.toDigits 10 s.number ++ s.mark

theorem Step.spelled_part (s : Step) : s.Spelled s.part :=
  ⟨_, ⟨_, Digits.numeral_toDigits (by decide) s.number, .inl rfl⟩, rfl⟩

theorem spelled_map_part (ss : List Step) : List.Forall₂ Step.Spelled ss (ss.map Step.part) :=
  List.forall₂_map_right_iff.mpr (List.forall₂_same.mpr fun s _ => s.spelled_part)

/-! ### Reading -/

theorem segmentOf_iff {whole : String} {place n : Nat} {part : List Char} :
    segmentOf whole place part = .ok n ↔ Step.Spelled ⟨n, isHardened place⟩ part ∧ n < 2 ^ 32 := by
  rw [Step.spelled_iff]
  unfold segmentOf
  obtain ⟨digits, hardened⟩ := unmarkedPart part
  dsimp only
  constructor
  · intro h
    split at h
    next => cases h
    next hmark =>
      split at h
      next m hm =>
        obtain rfl := Except.ok.inj h
        obtain ⟨hdigits, hlt⟩ := (Digits.read_iff (by decide)).mp hm
        exact ⟨⟨digits, by rw [not_not.mp hmark], hdigits⟩, hlt⟩
      next => cases h
  · rintro ⟨⟨digits', hpart, hdigits⟩, hlt⟩
    obtain ⟨rfl, rfl⟩ := Prod.mk.inj hpart
    rw [if_neg (not_not.mpr rfl), (Digits.read_iff (by decide)).mpr ⟨hdigits, hlt⟩]

theorem segmentsOf_iff {whole : String} {place : Nat} {ps : List (List Char)} {ns : List Nat} :
    segmentsOf whole place ps = .ok ns ↔
      List.Forall₂ Step.Spelled (steps place ns) ps ∧ ∀ n ∈ ns, n < 2 ^ 32 := by
  constructor
  · intro h
    induction ps generalizing place ns with
    | nil =>
      obtain rfl := Except.ok.inj h
      exact ⟨.nil, by simp⟩
    | cons part ps ih =>
      obtain ⟨n, hn, h⟩ := exists_of_bind_ok h
      obtain ⟨more, hmore, h⟩ := exists_of_bind_ok h
      obtain rfl := Except.ok.inj h
      obtain ⟨hpart, hlt⟩ := segmentOf_iff.mp hn
      obtain ⟨hparts, hall⟩ := ih hmore
      exact ⟨.cons hpart hparts, List.forall_mem_cons.mpr ⟨hlt, hall⟩⟩
  · rintro ⟨hparts, hall⟩
    induction ns generalizing place ps with
    | nil =>
      obtain rfl := List.forall₂_nil_left_iff.mp hparts
      rfl
    | cons n ns ih =>
      obtain ⟨part, ps, hpart, hmore, rfl⟩ := List.forall₂_cons_left_iff.mp hparts
      obtain ⟨hlt, hall⟩ := List.forall_mem_cons.mp hall
      rw [segmentsOf, segmentOf_iff.mpr ⟨hpart, hlt⟩, ih hmore hall]
      rfl

theorem ofSegments_iff {ns : List Nat} {p : DerivationPath} :
    ofSegments ns = .ok p ↔ ns = p.segments := by
  constructor
  · intro h
    unfold ofSegments at h
    split at h
    next purpose coin account change index =>
      split at h
      next => cases h
      next hpurpose =>
        split at h
        next coin account change index hcoin haccount hchange hindex =>
          obtain rfl := Except.ok.inj h
          rw [Json.word_eq_some.mp hcoin, Json.word_eq_some.mp haccount,
            Json.word_eq_some.mp hchange, Json.word_eq_some.mp hindex, not_not.mp hpurpose]
          rfl
        next => cases h
    next => cases h
  · rintro rfl
    simp only [ofSegments, segments, Json.word_eq_some.mpr rfl, ne_eq, not_true_eq_false, if_false]

/-- The numbers of a path stand behind the mark of a text, each behind a slash and in a part that
spells it. -/
theorem parse_iff_spelled {whole : String} {p : DerivationPath} :
    parse whole = .ok p ↔ ∃ ps, List.Forall₂ Step.Spelled p.shown ps ∧
      whole.toList = 'm' :: ps.flatMap ('/' :: ·) := by
  unfold parse
  constructor
  · intro h
    split at h
    next rest hwhole =>
      obtain ⟨ns, hns, h⟩ := exists_of_bind_ok h
      obtain rfl := ofSegments_iff.mp h
      exact ⟨parts rest, (segmentsOf_iff.mp hns).1, by rw [hwhole, flatMap_parts]⟩
    next => cases h
  · rintro ⟨ps, hps, hwhole⟩
    obtain ⟨rest, hrest⟩ : ∃ rest, ps.flatMap ('/' :: ·) = '/' :: rest := by
      obtain ⟨part, more, -, -, rfl⟩ := List.forall₂_cons_left_iff.mp hps
      exact ⟨_, rfl⟩
    have hread : segmentsOf whole 0 (parts rest) = .ok p.segments := by
      rw [parts_flatMap (free_of_spelled hps) hrest.symm]
      exact segmentsOf_iff.mpr ⟨hps, p.segments_lt⟩
    rw [hwhole, hrest]
    simp only [hread]
    exact ofSegments_iff.mpr rfl

/-- A text that gives a path: behind `m`, five numbers behind a slash each, the purpose in front,
and an apostrophe behind the first three. Each has one digit at least, and may follow a plus sign.
-/
def IsText (whole : String) (p : DerivationPath) : Prop :=
  ∃ first coin account change index,
    Signed 10 first 44 ∧ Signed 10 coin p.coinType ∧ Signed 10 account p.fields.account ∧
      Signed 10 change p.fields.change ∧ Signed 10 index p.fields.addressIndex ∧
      whole.toList = ['m', '/'] ++ first ++ ['\'', '/'] ++ coin ++ ['\'', '/'] ++ account ++
        ['\'', '/'] ++ change ++ ['/'] ++ index

theorem parse_iff {whole : String} {p : DerivationPath} : parse whole = .ok p ↔ IsText whole p := by
  have hshown : p.shown = [⟨44, true⟩, ⟨p.coinType, true⟩, ⟨p.fields.account, true⟩,
      ⟨p.fields.change, false⟩, ⟨p.fields.addressIndex, false⟩] := rfl
  rw [parse_iff_spelled, hshown]
  constructor
  · rintro ⟨ps, hps, hwhole⟩
    obtain _ | ⟨⟨first, hfirst, rfl⟩, hps⟩ := hps
    obtain _ | ⟨⟨coin, hcoin, rfl⟩, hps⟩ := hps
    obtain _ | ⟨⟨account, haccount, rfl⟩, hps⟩ := hps
    obtain _ | ⟨⟨change, hchange, rfl⟩, hps⟩ := hps
    obtain _ | ⟨⟨index, hindex, rfl⟩, _ | _⟩ := hps
    refine ⟨first, coin, account, change, index, hfirst, hcoin, haccount, hchange, hindex, ?_⟩
    simpa [Step.mark] using hwhole
  · rintro ⟨first, coin, account, change, index, hfirst, hcoin, haccount, hchange, hindex, hwhole⟩
    refine ⟨[first ++ ['\''], coin ++ ['\''], account ++ ['\''], change, index], ?_,
      by simpa using hwhole⟩
    have hplain {n : Nat} {digits : List Char} (h : Signed 10 digits n) :
        Step.Spelled ⟨n, false⟩ digits :=
      ⟨digits, h, (List.append_nil digits).symm⟩
    exact .cons ⟨first, hfirst, rfl⟩ (.cons ⟨coin, hcoin, rfl⟩ (.cons ⟨account, haccount, rfl⟩
      (.cons (hplain hchange) (.cons (hplain hindex) .nil))))

/-! ### Writing -/

theorem segmentsText_flatMap (place : Nat) (ns : List Nat) :
    segmentsText place ns = ((steps place ns).map Step.part).flatMap ('/' :: ·) := by
  rw [segmentsText_eq, steps, List.map_map, List.flatMap_map]
  rfl

theorem flatMap_slash_inj {ps qs : List (List Char)} (hps : ∀ part ∈ ps, '/' ∉ part)
    (hqs : ∀ part ∈ qs, '/' ∉ part) (h : ps.flatMap ('/' :: ·) = qs.flatMap ('/' :: ·)) :
    ps = qs := by
  cases ps with
  | nil =>
    cases qs with
    | nil => rfl
    | cons part more => cases h
  | cons part more =>
    rw [← parts_flatMap hps rfl]
    exact parts_flatMap hqs h

theorem segmentsText_inj {place : Nat} {ms ns : List Nat}
    (h : segmentsText place ms = segmentsText place ns) : ms = ns := by
  have hspelled (ns : List Nat) := spelled_map_part (steps place ns)
  rw [segmentsText_flatMap, segmentsText_flatMap] at h
  have hparts := flatMap_slash_inj (free_of_spelled (hspelled ms)) (free_of_spelled (hspelled ns)) h
  exact steps_inj (Step.leftUnique_spelled.forall₂ (hspelled ms) (hparts ▸ hspelled ns))

theorem textOf_inj {ms ns : List Nat} {text : String} (hm : textOf ms = .ok text)
    (hn : textOf ns = .ok text) : ms = ns := by
  have hwritten {ns : List Nat} (h : textOf ns = .ok text) :
      'm' :: segmentsText 0 ns = text.toList := by
    unfold textOf at h
    split at h
    next =>
      obtain rfl := Except.ok.inj h
      rw [String.toList_ofList]
    next => cases h
  exact segmentsText_inj (List.cons.inj ((hwritten hm).trans (hwritten hn).symm)).2

theorem text_written (p : DerivationPath) :
    p.text = "m/44'/" ++ Digits.decimal p.coinType ++ "'/" ++ Digits.decimal p.fields.account ++
      "'/" ++ Digits.decimal p.fields.change ++ "/" ++ Digits.decimal p.fields.addressIndex := by
  have hpurpose : Nat.toDigits 10 purpose = ['4', '4'] := by decide
  apply String.toList_inj.mp
  simp [text, segmentsText, segments, isHardened, Digits.decimal, hpurpose]

theorem parse_text (p : DerivationPath) : parse p.text = .ok p := by
  rw [parse_iff_spelled]
  refine ⟨p.shown.map Step.part, spelled_map_part p.shown, ?_⟩
  rw [text, String.toList_ofList, segmentsText_flatMap]
  rfl

/-- A path is read from a text if and only if that is one of its texts: `m` and five numbers below
`2 ^ 32` in digits, the purpose first and an apostrophe behind three. It is written as one of them,
which is read back, and which is that of its numbers. Numbers have a text if and only if there are
five, and no others have the same. -/
theorem read_from_own_texts :
    (∀ whole p, parse whole = .ok p ↔ IsText whole p) ∧
    (∀ p : DerivationPath,
      p.text = "m/44'/" ++ Digits.decimal p.coinType ++ "'/" ++ Digits.decimal p.fields.account ++
        "'/" ++ Digits.decimal p.fields.change ++ "/" ++ Digits.decimal p.fields.addressIndex ∧
      parse p.text = .ok p ∧ textOf p.segments = .ok p.text) ∧
    ∀ segments : List Nat,
      (segments.length ≠ 5 → textOf segments = .error (.invalidPathLength segments.length)) ∧
      (segments.length = 5 → ∃ text, textOf segments = .ok text ∧
        ∀ others, textOf others = .ok text → others = segments) := by
  refine ⟨fun whole p => parse_iff, fun p => ⟨p.text_written, p.parse_text, if_pos rfl⟩,
    fun segments => ?_⟩
  constructor
  · intro hlength
    exact if_neg hlength
  · intro hlength
    have htext : textOf segments = .ok _ := if_pos hlength
    exact ⟨_, htext, fun others hothers => textOf_inj hothers htext⟩

/-- Plus signs and zeros in front are read, and so is the largest index, but what is written has no
such signs. Four numbers have no text, and five have one whatever the first of them is. -/
theorem largest_index_back :
    let p : DerivationPath := ⟨118, ⟨7, 0, 4294967295⟩⟩
    IsText "m/+44'/0118'/007'/+0/4294967295" p ∧ p.text = "m/44'/118'/7'/0/4294967295" ∧
      parse p.text = .ok p ∧ textOf [44, 118, 7, 0] = .error (.invalidPathLength 4) ∧
      textOf [43, 118, 7, 0, 0] = .ok "m/43'/118'/7'/0/0" ∧
      ∀ others, textOf others = .ok "m/43'/118'/7'/0/0" → others = [43, 118, 7, 0, 0] := by
  intro p
  obtain ⟨hread, hwritten, hnumbers⟩ := read_from_own_texts
  obtain ⟨text, htext, hothers⟩ := (hnumbers [43, 118, 7, 0, 0]).2 rfl
  have hfive : textOf [43, 118, 7, 0, 0] = .ok "m/43'/118'/7'/0/0" := by decide +kernel
  obtain rfl := Except.ok.inj (htext.symm.trans hfive)
  exact ⟨(hread _ p).mp (by decide +kernel), by decide +kernel, (hwritten p).2.1,
    (hnumbers [44, 118, 7, 0]).1 (by decide), hfive, hothers⟩

end Countersign.DerivationPath
