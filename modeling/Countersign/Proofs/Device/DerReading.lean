import Countersign.Proofs.Device.Der

/-!
# Reading of DER

A number in DER has one form, and both numbers of a signature come back from theirs, whatever stands
for the length of the sequence and whatever follows. Nothing else is read than two integers that fit
their width. The octets of an integer are there before they are taken, and there is room for them
before they are copied.
-/
namespace Countersign

namespace Bytes

/-- The octets in front of a place and those from there on. There is no place behind the last octet.
-/
def splitAt? (place : Nat) (b : Bytes) : Option (Bytes × Bytes) :=
  if place ≤ b.length then some (b.take place, b.drop place) else none

/-- A buffer with octets copied over its own from a place on. They must take all of the room behind
it. -/
def copiedTo? (place : Nat) (b buffer : Bytes) : Option Bytes :=
  if place + b.length = buffer.length then some (buffer.take place ++ b) else none

theorem copiedTo_zeros {width : Nat} {b : Bytes} (h : b.length ≤ width) :
    copiedTo? (width - b.length) b (List.replicate width 0) = some (padLeft width b) := by
  have hroom : width - b.length + b.length = (List.replicate width (0 : UInt8)).length := by
    rw [List.length_replicate]
    omega
  rw [copiedTo?, if_pos hroom, List.take_replicate, Nat.min_eq_left (Nat.sub_le _ _), padLeft]

end Bytes

namespace DerSignature

/-! ### Accesses -/

/-- Reads one integer, with nothing to go on with if it is taken from outside of the octets. -/
def integerWithin (name : String) : Bytes → ExceptT Fault Option (Bytes × Bytes)
  | 0x02 :: length :: rest =>
    if rest.length < length.toNat then throw (.overrun name)
    else (Bytes.splitAt? length.toNat rest : Option (Bytes × Bytes))
  | _ => throw (.missing name)

/-- Copies the octets of an integer to the end of a number of the curve, with nothing to go on with
if they are copied to where there is no room. -/
def widenedWithin (name : String) (b : Bytes) : ExceptT Fault Option Bytes :=
  if 32 < (unpadded b).length then throw (.tooWide name)
  else Bytes.copiedTo? (32 - (unpadded b).length) (unpadded b) (List.replicate 32 0)

/-- Reads the two numbers by these accesses. -/
def readWithin : Bytes → ExceptT Fault Option (Bytes × Bytes)
  | 0x30 :: _ :: body => do
    let (r, body) ← integerWithin "r" body
    let (s, _) ← integerWithin "s" body
    let r ← widenedWithin "r" r
    let s ← widenedWithin "s" s
    return (r, s)
  | _ => throw .noSequence

/-- A result that is come to by accesses in range. -/
def within {α : Type} (result : Except Fault α) : ExceptT Fault Option α :=
  ExceptT.mk (some result)

theorem within_bind {α β : Type} (result : Except Fault α) {f : α → ExceptT Fault Option β}
    {g : α → Except Fault β} (h : ∀ a, f a = within (g a)) :
    within result >>= f = within (result >>= g) := by
  cases result with
  | ok a => exact h a
  | error e => rfl

theorem integerWithin_eq (name : String) (b : Bytes) :
    integerWithin name b = within (integer name b) := by
  unfold integerWithin
  split
  next length rest =>
    rw [integer]
    split
    next => rfl
    next hle =>
      rw [Bytes.splitAt?, if_pos (Nat.not_lt.mp hle)]
      rfl
  next h =>
    rw [integer]
    · rfl
    · exact h

theorem widenedWithin_eq (name : String) (b : Bytes) :
    widenedWithin name b = within (widened name b) := by
  rw [widened_eq, widenedWithin]
  split
  next => rfl
  next hle =>
    rw [Bytes.copiedTo_zeros (Nat.not_lt.mp hle)]
    rfl

/-- All accesses are in range, whatever the octets are. -/
theorem readWithin_eq (der : Bytes) : readWithin der = within (read der) := by
  unfold readWithin
  split
  next outer body =>
    simp only [read, integerWithin_eq, widenedWithin_eq]
    apply within_bind
    rintro ⟨r, behind⟩
    apply within_bind
    rintro ⟨s, more⟩
    exact within_bind _ fun rs => within_bind _ fun ss => rfl
  next h =>
    rw [read]
    · rfl
    · exact h

/-! ### The form of a number -/

/-- The contents of an integer are told from its octets without zeros in front: one of zero stands
in front of them if there are none, or if the first one is 128 at least. -/
theorem Contents.eq_of_trimmed {c : Bytes} {n : Nat} (h : Contents c n) :
    c = if (Bytes.trimmed c).head?.all (128 ≤ ·.toNat) then 0x00 :: Bytes.trimmed c
      else Bytes.trimmed c := by
  obtain ⟨-, o, rest, rfl, hlow, hzero⟩ := h
  by_cases ho : o = 0x00
  · subst ho
    have hhead : rest.head? ≠ some 0 := by
      intro hrest
      have hhigh := hzero rfl 0 hrest
      exact absurd hhigh (by decide)
    have htrimmed : Bytes.trimmed (0x00 :: rest) = rest := Bytes.trimmed_eq_self hhead
    have hall : rest.head?.all (128 ≤ ·.toNat) = true := by
      simpa [Option.all_eq_true] using hzero rfl
    rw [htrimmed, if_pos hall]
  · have htrimmed : Bytes.trimmed (o :: rest) = o :: rest :=
      Bytes.trimmed_eq_self (by simpa using ho)
    have hall : ¬(o :: rest).head?.all (128 ≤ ·.toNat) = true := by
      simpa using hlow
    rw [htrimmed, if_neg hall]

/-- No number has contents of two forms. -/
theorem Contents.unique {c c' : Bytes} {n : Nat} (h : Contents c n) (h' : Contents c' n) :
    c = c' := by
  rw [h.eq_of_trimmed, h'.eq_of_trimmed, Bytes.trimmed_eq_iff.mpr (h.1.trans h'.1.symm)]

theorem existsUnique_contents {n : Nat} (hn : n < 256 ^ 32) : ∃! c, Contents c n := by
  obtain ⟨c, hc⟩ := exists_contents hn
  exact ⟨c, hc, fun c' hc' => hc'.unique hc⟩

/-! ### What is read -/

theorem parse_eq_ok {der : Bytes} {parts : Bytes × Bytes} :
    parse der = .ok parts ↔ read der = .ok parts := by
  unfold parse
  cases read der with
  | ok parts' => simp only [Except.ok.injEq]
  | error e => exact ⟨nofun, nofun⟩

/-- What is returned are the numbers of two integers, in the width of numbers of the curve. -/
theorem parse_iff {der r s : Bytes} :
    parse der = .ok (r, s) ↔ ∃ outer rs ss more,
      der = 0x30 :: outer :: (field rs ++ (field ss ++ more)) ∧ Fits rs ∧ Fits ss ∧
        (r.length = 32 ∧ Bytes.toNat r = Bytes.toNat rs) ∧
        s.length = 32 ∧ Bytes.toNat s = Bytes.toNat ss := by
  have hwidth {b c : Bytes} (hb : b = Bytes.ofNat 32 (Bytes.toNat c)) (hc : Fits c) :
      b.length = 32 ∧ Bytes.toNat b = Bytes.toNat c := by
    rw [hb, Bytes.length_ofNat, Bytes.toNat_ofNat, Nat.mod_eq_of_lt hc.lt]
    exact ⟨rfl, rfl⟩
  constructor
  · intro h
    obtain ⟨m, n, hreads⟩ := reads_of_read (parse_eq_ok.mp h)
    obtain ⟨hr, hs⟩ := Prod.mk.inj (Except.ok.inj (h.symm.trans (parse_of_reads hreads)))
    obtain ⟨outer, rs, ss, more, rfl, hrs, hss, rfl, rfl⟩ := hreads
    exact ⟨outer, rs, ss, more, rfl, hrs, hss, hwidth hr hrs, hwidth hs hss⟩
  · rintro ⟨outer, rs, ss, more, rfl, hrs, hss, ⟨hrlength, hr⟩, hslength, hs⟩
    rw [parse_of_reads ⟨outer, rs, ss, more, rfl, hrs, hss, hr.symm, hs.symm⟩,
      Bytes.ofNat_toNat_self hrlength, Bytes.ofNat_toNat_self hslength]

theorem parse_total (der : Bytes) :
    (∃ parts, parse der = .ok parts) ∨ ∃ text, parse der = .error (.invalidSignature text) := by
  unfold parse
  cases read der with
  | ok parts => exact .inl ⟨parts, rfl⟩
  | error e => exact .inr ⟨e.message, rfl⟩

/-- Each number of 256 bits has one form in DER, and both numbers come back from theirs, whatever
stands for the length of the sequence and whatever follows. Two numbers are read only from two
integers behind each other that fit their width, and are those of the integers; all else is no
signature. No octet is taken or copied out of range, whatever is read. -/
theorem numbers_back_from_der :
    (∀ r s, r < 2 ^ 256 → s < 2 ^ 256 → (∃! rs, Contents rs r) ∧ (∃! ss, Contents ss s) ∧
      ∀ rs ss outer more, Contents rs r → Contents ss s →
        parse (0x30 :: outer :: (field rs ++ (field ss ++ more))) =
          .ok (Bytes.ofNat 32 r, Bytes.ofNat 32 s)) ∧
    ∀ der,
      (∀ r s, parse der = .ok (r, s) ↔ ∃ outer rs ss more,
        der = 0x30 :: outer :: (field rs ++ (field ss ++ more)) ∧ Fits rs ∧ Fits ss ∧
          (r.length = 32 ∧ Bytes.toNat r = Bytes.toNat rs) ∧
          s.length = 32 ∧ Bytes.toNat s = Bytes.toNat ss) ∧
      ((∃ parts, parse der = .ok parts) ∨ ∃ text, parse der = .error (.invalidSignature text)) ∧
      readWithin der = within (read der) := by
  refine ⟨fun r s hr hs => ?_, fun der =>
    ⟨fun r s => parse_iff, parse_total der, readWithin_eq der⟩⟩
  refine ⟨existsUnique_contents hr, existsUnique_contents hs, fun rs ss outer more hrs hss => ?_⟩
  exact parse_of_reads ⟨outer, rs, ss, more, rfl, hrs.fits hr, hss.fits hs, hrs.1, hss.1⟩

/-- A number with the highest bit and zero come back behind a wrong length and in front of an octet.
An integer that is cut short by one octet is no signature, nor is one of thirty-three octets without
a zero in front. -/
theorem high_number_and_zero_back :
    let high : Bytes := 0x00 :: Bytes.ofNat 32 (2 ^ 256 - 1)
    let der : Bytes := 0x30 :: 0x07 :: (field high ++ (field [0x00] ++ [0xEE]))
    let cut : Bytes := (0x30 :: 0x26 :: (field [0x01] ++ field high)).dropLast
    let wide : Bytes := 0x30 :: 0x26 :: (field (0x01 :: Bytes.ofNat 32 0) ++ field [0x01])
    Contents high (2 ^ 256 - 1) ∧ Contents [0x00] 0 ∧
      parse der = .ok (Bytes.ofNat 32 (2 ^ 256 - 1), Bytes.ofNat 32 0) ∧
      (∃ text, parse cut = .error (.invalidSignature text)) ∧
      ∃ text, parse wide = .error (.invalidSignature text) := by
  intro high der cut wide
  have hhigh : Contents high (2 ^ 256 - 1) :=
    ⟨by decide +kernel, _, _, rfl, by decide, fun _ => by decide +kernel⟩
  have hzero : Contents [0x00] 0 := ⟨by decide, _, _, rfl, by decide, nofun⟩
  obtain ⟨hback, hread⟩ := numbers_back_from_der
  obtain ⟨-, -, hparse⟩ := hback (2 ^ 256 - 1) 0 (by decide) (by decide)
  have hcut : ¬∃ parts, parse cut = .ok parts := by
    rintro ⟨parts, hparts⟩
    have hoverrun : read cut = .error (.overrun "s") := by decide +kernel
    rw [parse_eq_ok, hoverrun] at hparts
    cases hparts
  have hwide : ¬∃ parts, parse wide = .ok parts := by
    rintro ⟨parts, hparts⟩
    have htooWide : read wide = .error (.tooWide "r") := by decide +kernel
    rw [parse_eq_ok, htooWide] at hparts
    cases hparts
  exact ⟨hhigh, hzero, hparse high [0x00] 0x07 [0xEE] hhigh hzero,
    (hread cut).2.1.resolve_left hcut, (hread wide).2.1.resolve_left hwide⟩

end DerSignature

end Countersign
