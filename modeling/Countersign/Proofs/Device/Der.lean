import Countersign.Device.DerSignature
import Countersign.Proofs.Curve.Signing
import Countersign.Proofs.Ethereum.Words

/-!
# Compact signatures

What is read as two numbers, and what comes of it: of a number and its opposite the compact form has
the smaller one. The two signatures that a device may give for one are thus made the same, and what
is compact already stays as it is.
-/
namespace Countersign

namespace DerSignature

open Curve (order EcdsaPair)

/-! ### What is read -/

/-- The octets of an integer behind its mark and their count. -/
def field (contents : Bytes) : Bytes :=
  0x02 :: UInt8.ofNat contents.length :: contents

/-- An integer is no longer than thirty-two octets, or has one more of zero in front. -/
def Fits (contents : Bytes) : Prop :=
  contents.length ≤ 32 ∨ ∃ rest, contents = 0x00 :: rest ∧ rest.length = 32

/-- What is read as two numbers: the mark of a sequence and any octet, and two integers, behind
which anything may stand. -/
def Reads (der : Bytes) (r s : Nat) : Prop :=
  ∃ outer rs ss more, der = 0x30 :: outer :: (field rs ++ (field ss ++ more)) ∧
    Fits rs ∧ Fits ss ∧ Bytes.toNat rs = r ∧ Bytes.toNat ss = s

theorem Fits.length_le {c : Bytes} (h : Fits c) : c.length ≤ 33 := by
  rcases h with h | ⟨rest, rfl, h⟩
  · omega
  · rw [List.length_cons, h]

theorem Fits.lt {c : Bytes} (h : Fits c) : Bytes.toNat c < 256 ^ 32 := by
  rcases h with h | ⟨rest, rfl, h⟩
  · exact (Bytes.toNat_lt c).trans_le (Nat.pow_le_pow_right (by decide) h)
  · rw [Bytes.toNat_zero_cons, ← h]
    exact Bytes.toNat_lt rest

theorem integer_field (name : String) {c : Bytes} (h : c.length ≤ 255) (more : Bytes) :
    integer name (field c ++ more) = .ok (c, more) := by
  have hlength : (UInt8.ofNat c.length).toNat = c.length := by
    rw [UInt8.toNat_ofNat']
    omega
  simp only [field, List.cons_append, integer, hlength, List.take_left, List.drop_left]
  exact if_neg (by rw [List.length_append]; omega)

theorem field_of_integer {name : String} {b c more : Bytes} (h : integer name b = .ok (c, more)) :
    b = field c ++ more := by
  unfold integer at h
  split at h
  next length rest =>
    split at h
    next => cases h
    next hle =>
      obtain ⟨rfl, rfl⟩ := Prod.mk.inj (Except.ok.inj h)
      rw [field, List.length_take, Nat.min_eq_left (Nat.not_lt.mp hle), UInt8.ofNat_toNat,
        List.cons_append, List.cons_append, List.take_append_drop]
  next => cases h

/-- An integer without one zero in front, if there is one. -/
def unpadded : Bytes → Bytes
  | 0x00 :: rest => rest
  | b => b

theorem widened_eq (name : String) (c : Bytes) :
    widened name c = if 32 < (unpadded c).length then .error (.tooWide name)
      else .ok (Bytes.padLeft 32 (unpadded c)) := rfl

theorem toNat_unpadded (c : Bytes) : Bytes.toNat (unpadded c) = Bytes.toNat c := by
  unfold unpadded
  split
  next rest => exact (Bytes.toNat_zero_cons rest).symm
  next => rfl

theorem fits_iff {c : Bytes} : Fits c ↔ (unpadded c).length ≤ 32 := by
  unfold unpadded
  split
  next rest =>
    constructor
    · intro h
      exact Nat.le_of_succ_le_succ h.length_le
    · intro h
      rcases Nat.lt_or_eq_of_le h with hlt | heq
      · exact .inl hlt
      · exact .inr ⟨rest, rfl, heq⟩
  next hzero => exact or_iff_left fun ⟨rest, hrest, _⟩ => hzero rest hrest

theorem widened_of_fits (name : String) {c : Bytes} (h : Fits c) :
    widened name c = .ok (Bytes.ofNat 32 (Bytes.toNat c)) := by
  have hle := fits_iff.mp h
  rw [widened_eq, if_neg (Nat.not_lt.mpr hle), ← Bytes.ofNat_toNat hle, toNat_unpadded]

theorem fits_of_widened {name : String} {c w : Bytes} (h : widened name c = .ok w) : Fits c := by
  rw [widened_eq] at h
  split at h
  next => cases h
  next hle => exact fits_iff.mpr (Nat.not_lt.mp hle)

theorem read_of_reads {der : Bytes} {r s : Nat} (h : Reads der r s) :
    read der = .ok (Bytes.ofNat 32 r, Bytes.ofNat 32 s) := by
  obtain ⟨outer, rs, ss, more, rfl, hr, hs, rfl, rfl⟩ := h
  have hrs : rs.length ≤ 255 := hr.length_le.trans (by decide)
  have hss : ss.length ≤ 255 := hs.length_le.trans (by decide)
  simp only [read, integer_field _ hrs, integer_field _ hss, widened_of_fits _ hr,
    widened_of_fits _ hs, bind, Except.bind]
  rfl

theorem reads_of_read {der : Bytes} {parts : Bytes × Bytes} (h : read der = .ok parts) :
    ∃ r s, Reads der r s := by
  unfold read at h
  split at h
  next outer body =>
    obtain ⟨⟨rs, rest⟩, hrs, h⟩ := exists_of_bind_ok h
    obtain ⟨⟨ss, more⟩, hss, h⟩ := exists_of_bind_ok h
    obtain ⟨_, hr, h⟩ := exists_of_bind_ok h
    obtain ⟨_, hs, -⟩ := exists_of_bind_ok h
    refine ⟨_, _, outer, rs, ss, more, ?_, fits_of_widened hr, fits_of_widened hs, rfl, rfl⟩
    rw [field_of_integer hrs, field_of_integer hss]
  next => cases h

theorem parse_of_reads {der : Bytes} {r s : Nat} (h : Reads der r s) :
    parse der = .ok (Bytes.ofNat 32 r, Bytes.ofNat 32 s) := by
  rw [parse, read_of_reads h]

/-- What is not read as two numbers is no signature. -/
theorem parse_of_unread {der : Bytes} (h : ∀ r s, ¬Reads der r s) :
    ∃ text, parse der = .error (.invalidSignature text) := by
  unfold parse
  split
  next parts hread =>
    obtain ⟨r, s, hreads⟩ := reads_of_read hread
    exact absurd hreads (h r s)
  next => exact ⟨_, rfl⟩

theorem Reads.lt {der : Bytes} {r s : Nat} (h : Reads der r s) : r < 256 ^ 32 ∧ s < 256 ^ 32 := by
  obtain ⟨_, _, _, _, _, hr, hs, rfl, rfl⟩ := h
  exact ⟨hr.lt, hs.lt⟩

/-! ### What is written -/

/-- The contents of an integer in DER: an octet at least, of which the first one is below 128 as the
number is not negative, and no zero in front that could be left out. -/
def Contents (c : Bytes) (n : Nat) : Prop :=
  Bytes.toNat c = n ∧ ∃ o rest, c = o :: rest ∧ o.toNat < 128 ∧
    (o = 0x00 → ∀ p ∈ rest.head?, 128 ≤ p.toNat)

/-- Two numbers in DER, in a sequence whose length takes one octet. -/
def Canonical (der : Bytes) (r s : Nat) : Prop :=
  ∃ rs ss, Contents rs r ∧ Contents ss s ∧ (field rs ++ field ss).length < 128 ∧
    der = 0x30 :: UInt8.ofNat (field rs ++ field ss).length :: (field rs ++ field ss)

/-- An integer of thirty-two octets takes no more than these, or one more of zero in front, behind
which there is an octet of 128 at least. -/
theorem Contents.fits {c : Bytes} {n : Nat} (h : Contents c n) (hn : n < 256 ^ 32) : Fits c := by
  obtain ⟨rfl, o, rest, rfl, -, hzero⟩ := h
  by_cases ho : o = 0x00
  · subst ho
    rw [Bytes.toNat_zero_cons] at hn
    cases rest with
    | nil => exact .inl (by decide)
    | cons p rest =>
      have hrest : rest.length < 32 :=
        Bytes.length_le_of_toNat (hzero rfl p rfl) (hn.trans_le (by decide))
      rcases Nat.lt_or_ge (rest.length + 1) 32 with hlt | hge
      · exact .inl (by simp only [List.length_cons]; omega)
      · exact .inr ⟨_, rfl, by simp only [List.length_cons]; omega⟩
  · have hpos : 1 ≤ o.toNat := by
      rcases Nat.eq_zero_or_pos o.toNat with h | h
      · exact absurd (UInt8.toNat_inj.mp h) ho
      · exact h
    have hrest : rest.length < 32 :=
      Bytes.length_le_of_toNat hpos (hn.trans_le (by decide))
    exact .inl hrest

/-- Each number has contents: its octets without zeros in front. Nothing is left of zero, and a
first octet from 128 on would be read as a minus, so both get a zero in front. -/
theorem exists_contents {n : Nat} (hn : n < 256 ^ 32) : ∃ c, Contents c n := by
  have hvalue : Bytes.toNat (Bytes.trimmed (Bytes.ofNat 32 n)) = n := by
    rw [Bytes.toNat_trimmed, Bytes.toNat_ofNat, Nat.mod_eq_of_lt hn]
  have hhead := Bytes.head_trimmed (Bytes.ofNat 32 n)
  generalize Bytes.trimmed (Bytes.ofNat 32 n) = b at hvalue hhead
  have hpadded (hb : ∀ p ∈ b.head?, 128 ≤ p.toNat) : Contents (0x00 :: b) n :=
    ⟨by rw [Bytes.toNat_zero_cons, hvalue], _, _, rfl, by decide, fun _ => hb⟩
  cases b with
  | nil => exact ⟨_, hpadded (by simp)⟩
  | cons o rest =>
    rcases Nat.lt_or_ge o.toNat 128 with hlow | hhigh
    · refine ⟨o :: rest, hvalue, o, rest, rfl, hlow, fun ho => ?_⟩
      exact absurd (congrArg some ho) hhead
    · exact ⟨_, hpadded (by simpa using hhigh)⟩

theorem exists_canonical {r s : Nat} (hr : r < 256 ^ 32) (hs : s < 256 ^ 32) :
    ∃ der, Canonical der r s := by
  obtain ⟨rs, hrs⟩ := exists_contents hr
  obtain ⟨ss, hss⟩ := exists_contents hs
  refine ⟨_, rs, ss, hrs, hss, ?_, rfl⟩
  have hrlength := (hrs.fits hr).length_le
  have hslength := (hss.fits hs).length_le
  simp only [field, List.length_append, List.length_cons]
  omega

theorem Canonical.reads {der : Bytes} {r s : Nat} (h : Canonical der r s) (hr : r < 256 ^ 32)
    (hs : s < 256 ^ 32) : Reads der r s := by
  obtain ⟨rs, ss, hrs, hss, -, rfl⟩ := h
  exact ⟨_, rs, ss, [], by rw [List.append_nil], hrs.fits hr, hss.fits hs, hrs.1, hss.1⟩

/-! ### The compact form -/

/-- Two numbers of a signature: neither is zero, and both are below the order. -/
def InRange (r s : Nat) : Prop :=
  (1 ≤ r ∧ r < order) ∧ 1 ≤ s ∧ s < order

theorem inRange_iff {r s : Nat} : (⟨r, s⟩ : EcdsaPair).inRange = true ↔ InRange r s := by
  simp only [EcdsaPair.inRange_iff, InRange, Nat.succ_le_iff, and_assoc]

theorem order_lt : order < 256 ^ 32 := by decide

/-- The lower one of a number and its opposite. -/
def low (s : Nat) : Nat :=
  if s ≤ order / 2 then s else order - s

theorem lowered_eq (r s : Nat) : (⟨r, s⟩ : EcdsaPair).lowered = ⟨r, low s⟩ := by
  unfold low
  split
  next h => exact EcdsaPair.lowered_of_low (EcdsaPair.isLow_iff.mpr h)
  next h => exact EcdsaPair.lowered_of_high (by simpa [EcdsaPair.isLow] using h)

theorem low_range {s : Nat} (hpos : 1 ≤ s) (hlt : s < order) :
    (1 ≤ low s ∧ low s ≤ order / 2) ∧ (low s = s ∨ low s = order - s) := by
  unfold low
  split <;> omega

/-- A number and its opposite have the same lower one. -/
theorem low_opposite {s : Nat} (hpos : 1 ≤ s) (hlt : s < order) : low (order - s) = low s := by
  have hodd : order % 2 = 1 := by decide
  unfold low
  split <;> split <;> omega

theorem toCompact_of_reads {der : Bytes} {r s : Nat} (h : Reads der r s) (hrange : InRange r s) :
    toCompact der = .ok (Bytes.ofNat 32 r ++ Bytes.ofNat 32 (low s)) := by
  obtain ⟨hr, hs⟩ := h.lt
  simp only [toCompact, parse_of_reads h, bind, Except.bind, Bytes.toNat_ofNat, Nat.mod_eq_of_lt hr,
    Nat.mod_eq_of_lt hs, inRange_iff.mpr hrange, if_true, lowered_eq]
  rfl

theorem toCompact_outOfRange {der : Bytes} {r s : Nat} (h : Reads der r s) (hrange : ¬InRange r s) :
    toCompact der = .error (.invalidSignature "scalar out of range") := by
  obtain ⟨hr, hs⟩ := h.lt
  simp only [toCompact, parse_of_reads h, bind, Except.bind, Bytes.toNat_ofNat, Nat.mod_eq_of_lt hr,
    Nat.mod_eq_of_lt hs, mt inRange_iff.mp hrange]
  rfl

theorem toCompact_of_unread {der : Bytes} (h : ∀ r s, ¬Reads der r s) :
    ∃ text, toCompact der = .error (.invalidSignature text) := by
  obtain ⟨text, htext⟩ := parse_of_unread h
  refine ⟨text, ?_⟩
  rw [toCompact, htext]
  rfl

theorem InRange.low {r s : Nat} (h : InRange r s) : InRange r (low s) := by
  obtain ⟨hr, hs, hs'⟩ := h
  obtain ⟨⟨hpos, hhalf⟩, -⟩ := low_range hs hs'
  exact ⟨hr, hpos, by omega⟩

theorem InRange.opposite {r s : Nat} (h : InRange r s) : InRange r (order - s) := by
  obtain ⟨hr, hs, hs'⟩ := h
  exact ⟨hr, by omega, by omega⟩

theorem toCompact_canonical {der : Bytes} {r s : Nat} (h : Canonical der r s)
    (hrange : InRange r s) : toCompact der = .ok (Bytes.ofNat 32 r ++ Bytes.ofNat 32 (low s)) :=
  toCompact_of_reads (h.reads (hrange.1.2.trans order_lt) (hrange.2.2.trans order_lt)) hrange

theorem low_low {s : Nat} (hpos : 1 ≤ s) (hlt : s < order) : low (low s) = low s :=
  if_pos (low_range hpos hlt).1.2

/-- What octets are turned into. -/
inductive Outcome (der : Bytes) : Except Error Bytes → Prop
  | compact {r s : Nat} (h : Reads der r s) (hrange : InRange r s) :
      Outcome der (.ok (Bytes.ofNat 32 r ++ Bytes.ofNat 32 (low s)))
  | outOfRange {r s : Nat} (h : Reads der r s) (hrange : ¬InRange r s) (text : String) :
      Outcome der (.error (.invalidSignature text))
  | unread (h : ∀ r s, ¬Reads der r s) (text : String) :
      Outcome der (.error (.invalidSignature text))

theorem outcome_toCompact (der : Bytes) : Outcome der (toCompact der) := by
  by_cases hread : ∃ r s, Reads der r s
  · obtain ⟨r, s, h⟩ := hread
    by_cases hrange : InRange r s
    · exact toCompact_of_reads h hrange ▸ .compact h hrange
    · exact toCompact_outOfRange h hrange ▸ .outOfRange h hrange _
  · have hnone : ∀ r s, ¬Reads der r s := fun r s h => hread ⟨r, s, h⟩
    obtain ⟨text, htext⟩ := toCompact_of_unread hnone
    exact htext ▸ .unread hnone text

theorem not_inRange {r s : Nat} : ¬InRange r s ↔ r = 0 ∨ order ≤ r ∨ s = 0 ∨ order ≤ s := by
  unfold InRange
  omega

/-- What a compact form is made of, and that it stays as it is. -/
theorem parts_of_compact {der c : Bytes} (h : toCompact der = .ok c) :
    ∃ r s s', Reads der r s ∧ (1 ≤ r ∧ r < order) ∧ (1 ≤ s' ∧ s' ≤ order / 2) ∧
      (s' = s ∨ s' = order - s) ∧ c = Bytes.ofNat 32 r ++ Bytes.ofNat 32 s' ∧
      (∃ der', Canonical der' r s') ∧ ∀ der', Canonical der' r s' → toCompact der' = .ok c := by
  have houtcome := outcome_toCompact der
  rw [h] at houtcome
  cases houtcome with
  | @compact r s hreads hrange =>
    obtain ⟨hlow, hwhich⟩ := low_range hrange.2.1 hrange.2.2
    have hlowered := hrange.low
    refine ⟨r, s, low s, hreads, hrange.1, hlow, hwhich, rfl,
      exists_canonical hreads.lt.1 (hlowered.2.2.trans order_lt), fun der' hder' => ?_⟩
    rw [toCompact_canonical hder' hlowered, low_low hrange.2.1 hrange.2.2]

/-- Octets have no compact form if and only if they are not read, or a number is out of range. -/
theorem refused_iff (der : Bytes) :
    (∃ text, toCompact der = .error (.invalidSignature text)) ↔
      (∀ r s, ¬Reads der r s) ∨
        ∃ r s, Reads der r s ∧ (r = 0 ∨ order ≤ r ∨ s = 0 ∨ order ≤ s) := by
  constructor
  · rintro ⟨text, htext⟩
    have houtcome := outcome_toCompact der
    rw [htext] at houtcome
    cases houtcome with
    | outOfRange h hrange => exact .inr ⟨_, _, h, not_inRange.mp hrange⟩
    | unread h => exact .inl h
  · rintro (h | ⟨r, s, h, hrange⟩)
    · exact toCompact_of_unread h
    · exact ⟨_, toCompact_outOfRange h (not_inRange.mpr hrange)⟩

/-- What is read as two numbers between zero and the order has a compact form, and all else is no
signature. Of the second number and its opposite the compact form has the one that is not above half
the order. What is written canonically for the two numbers in a compact form has that same form, and
so has what is written canonically for two numbers, and for the first one and the opposite of the
second. -/
theorem compact_for_both :
    (∀ der,
      (∀ r s, Reads der r s → parse der = .ok (Bytes.ofNat 32 r, Bytes.ofNat 32 s)) ∧
      ((∀ r s, ¬Reads der r s) → ∃ text, parse der = .error (.invalidSignature text)) ∧
      (∀ c, toCompact der = .ok c → ∃ r s s', Reads der r s ∧ (1 ≤ r ∧ r < order) ∧
        (1 ≤ s' ∧ s' ≤ order / 2) ∧ (s' = s ∨ s' = order - s) ∧
        c = Bytes.ofNat 32 r ++ Bytes.ofNat 32 s' ∧ (∃ der', Canonical der' r s') ∧
        ∀ der', Canonical der' r s' → toCompact der' = .ok c) ∧
      ((∃ c, toCompact der = .ok c) ∨ ∃ text, toCompact der = .error (.invalidSignature text)) ∧
      ((∃ text, toCompact der = .error (.invalidSignature text)) ↔
        (∀ r s, ¬Reads der r s) ∨
          ∃ r s, Reads der r s ∧ (r = 0 ∨ order ≤ r ∨ s = 0 ∨ order ≤ s))) ∧
    ∀ r s, 1 ≤ r ∧ r < order → 1 ≤ s ∧ s < order →
      (∃ der, Canonical der r s) ∧ (∃ der, Canonical der r (order - s)) ∧
      ∃ c, ∀ der, Canonical der r s ∨ Canonical der r (order - s) → toCompact der = .ok c := by
  refine ⟨fun der => ⟨fun r s => parse_of_reads, parse_of_unread, fun c => parts_of_compact, ?_,
    refused_iff der⟩, fun r s hr hs => ?_⟩
  · have houtcome := outcome_toCompact der
    generalize toCompact der = result at houtcome ⊢
    cases houtcome with
    | compact => exact .inl ⟨_, rfl⟩
    | outOfRange _ _ text => exact .inr ⟨text, rfl⟩
    | unread _ text => exact .inr ⟨text, rfl⟩
  · have hrange : InRange r s := ⟨hr, hs⟩
    refine ⟨exists_canonical (hr.2.trans order_lt) (hs.2.trans order_lt),
      exists_canonical (hr.2.trans order_lt) (hrange.opposite.2.2.trans order_lt),
      Bytes.ofNat 32 r ++ Bytes.ofNat 32 (low s), fun der h => ?_⟩
    rcases h with h | h
    · exact toCompact_canonical h hrange
    · rw [toCompact_canonical h hrange.opposite, low_opposite hs.1 hs.2]

/-- Both signatures that a device may give have the form with the lower number, and so has the high
one with a wrong length of the sequence and an octet behind it. With zero for a number there is no
signature. -/
theorem high_twin_lowered :
    let high : Bytes :=
      [0x30, 0x26, 0x02, 0x01, 0x01, 0x02, 0x21, 0x00] ++ Bytes.ofNat 32 (order - 5)
    let plain : Bytes := [0x30, 0x06, 0x02, 0x01, 0x01, 0x02, 0x01, 0x05]
    let zero : Bytes := [0x30, 0x06, 0x02, 0x01, 0x00, 0x02, 0x01, 0x05]
    let c := Bytes.ofNat 32 1 ++ Bytes.ofNat 32 5
    Canonical plain 1 5 ∧ Canonical high 1 (order - 5) ∧ toCompact plain = .ok c ∧
      toCompact high = .ok c ∧ toCompact (0x30 :: 0xFF :: high.drop 2 ++ [0xEE]) = .ok c ∧
      Reads zero 0 5 ∧ ∃ text, toCompact zero = .error (.invalidSignature text) := by
  intro high plain zero c
  have hone : Contents [0x01] 1 := ⟨by decide, _, _, rfl, by decide, nofun⟩
  have hfive : Contents [0x05] 5 := ⟨by decide, _, _, rfl, by decide, nofun⟩
  have hopposite : Contents (0x00 :: Bytes.ofNat 32 (order - 5)) (order - 5) :=
    ⟨by decide +kernel, _, _, rfl, by decide, fun _ => by decide +kernel⟩
  have hplain : Canonical plain 1 5 := ⟨_, _, hone, hfive, by decide, rfl⟩
  have hhigh : Canonical high 1 (order - 5) :=
    ⟨_, _, hone, hopposite, by decide +kernel, by decide +kernel⟩
  have hzero : Reads zero 0 5 :=
    ⟨_, [0x00], [0x05], [], rfl, .inl (by decide), .inl (by decide), by decide, by decide⟩
  obtain ⟨hder, hboth⟩ := compact_for_both
  obtain ⟨-, -, c', hc'⟩ := hboth 1 5 (by decide) (by decide)
  have hcompact : toCompact plain = .ok c := by decide +kernel
  obtain rfl : c' = c := Except.ok.inj ((hc' plain (.inl hplain)).symm.trans hcompact)
  obtain ⟨-, -, -, -, hrefused⟩ := hder zero
  exact ⟨hplain, hhigh, hcompact, hc' high (.inr hhigh), by decide +kernel, hzero,
    hrefused.mpr (.inr ⟨0, 5, hzero, .inl rfl⟩)⟩

end DerSignature

end Countersign
