import Countersign.Bytes
import Mathlib.Data.List.Induction

/-!
# Numbers as octets

A number that fits a width is read back from the octets it is written in, with or without its
leading zeros. Pieces of a byte string are as long as was asked for and give it back. A mask of
exclusive or is taken off by the same mask.
-/
namespace Countersign.Bytes

theorem length_flatMap {α : Type} {f : α → Bytes} {width : Nat} (hf : ∀ x, (f x).length = width)
    (xs : List α) : (xs.flatMap f).length = width * xs.length := by
  induction xs with
  | nil => rfl
  | cons x xs ih => simp [hf, ih, Nat.mul_succ, Nat.add_comm]

theorem length_chunks_le (size : Nat) (b : Bytes) :
    ∀ piece ∈ chunks size b, piece.length ≤ size := by
  have h (fuel : Nat) (b : Bytes) : ∀ piece ∈ chunks.pieces size fuel b, piece.length ≤ size := by
    induction fuel generalizing b with
    | zero => simp [chunks.pieces]
    | succ fuel ih =>
      cases b with
      | nil => simp [chunks.pieces]
      | cons o b =>
        intro piece hp
        rcases List.mem_cons.mp hp with rfl | hp
        · exact List.length_take_le _ _
        · exact ih _ piece hp
  exact h b.length b

/-- Pieces of a byte string: they are full up to the last one, which is not empty. -/
structure CutInto (size : Nat) (b : Bytes) (full : List Bytes) (last : Bytes) : Prop where
  whole : full.flatten ++ last = b
  full_length : ∀ piece ∈ full, piece.length = size
  last_ne_nil : last ≠ []
  last_length : last.length ≤ size

theorem CutInto.length {size : Nat} {b last : Bytes} {full : List Bytes}
    (h : CutInto size b full last) :
    b.length = size * full.length + last.length ∧ 0 < last.length ∧ last.length ≤ size := by
  refine ⟨?_, List.length_pos_iff.mpr h.last_ne_nil, h.last_length⟩
  have hfull : full.map List.length = List.replicate full.length size :=
    List.eq_replicate_iff.mpr ⟨List.length_map _, by simpa using h.full_length⟩
  rw [← h.whole, List.length_append, List.length_flatten, hfull, List.sum_replicate_nat,
    Nat.mul_comm]

/-- A byte string that is not empty is cut into pieces of the size. -/
theorem chunks_eq {size : Nat} (hsize : 0 < size) {b : Bytes} (hb : b ≠ []) :
    ∃ full last, chunks size b = full ++ [last] ∧ CutInto size b full last := by
  have h (fuel : Nat) (b : Bytes) (hb : b ≠ []) (hfuel : b.length ≤ fuel) :
      ∃ full last, chunks.pieces size fuel b = full ++ [last] ∧ CutInto size b full last := by
    induction fuel generalizing b with
    | zero => exact absurd (List.eq_nil_of_length_eq_zero (by omega)) hb
    | succ fuel ih =>
      have hpieces : chunks.pieces size (fuel + 1) b =
          b.take size :: chunks.pieces size fuel (b.drop size) := by
        rw [chunks.pieces]
        exact hb
      rw [hpieces]
      by_cases hshort : b.length ≤ size
      · refine ⟨[], b, ?_, ⟨rfl, by simp, hb, hshort⟩⟩
        rw [List.take_of_length_le hshort, List.drop_of_length_le hshort]
        cases fuel <;> rfl
      · have hmore : b.drop size ≠ [] := by rwa [Ne, List.drop_eq_nil_iff]
        have hlength : (b.drop size).length ≤ fuel := by
          rw [List.length_drop]
          omega
        obtain ⟨full, last, hrest, hcut⟩ := ih _ hmore hlength
        refine ⟨b.take size :: full, last, by rw [hrest]; rfl, ?_, ?_, hcut.last_ne_nil,
          hcut.last_length⟩
        · rw [List.flatten_cons, List.append_assoc, hcut.whole, List.take_append_drop]
        · refine List.forall_mem_cons.mpr ⟨?_, hcut.full_length⟩
          rw [List.length_take]
          omega
  exact h b.length b hb (Nat.le_refl _)

theorem flatten_chunks {size : Nat} (hsize : 0 < size) (b : Bytes) :
    (chunks size b).flatten = b := by
  by_cases hb : b = []
  · subst hb
    rfl
  · obtain ⟨full, last, hchunks, hcut⟩ := chunks_eq hsize hb
    rw [hchunks, List.flatten_append, List.flatten_singleton, hcut.whole]

/-- All pieces are full if the size divides the length. -/
theorem length_of_mem_chunks {size : Nat} {b : Bytes} (h : size ∣ b.length) :
    ∀ piece ∈ chunks size b, piece.length = size := by
  by_cases hb : b = []
  · subst hb
    exact nofun
  · have hlength : 0 < b.length := List.length_pos_iff.mpr hb
    obtain ⟨full, last, hchunks, hcut⟩ := chunks_eq (Nat.pos_of_dvd_of_pos h hlength) hb
    obtain ⟨hsum, hpos, hle⟩ := hcut.length
    have hlast : size ∣ last.length := (Nat.dvd_add_right (Nat.dvd_mul_right size _)).mp (hsum ▸ h)
    have heq : last.length = size := Nat.le_antisymm hle (Nat.le_of_dvd hpos hlast)
    simpa [hchunks, or_imp, forall_and, heq] using hcut.full_length

theorem length_xor (a b : Bytes) : (xor a b).length = min a.length b.length := by
  simp [xor]

theorem xor_xor_cancel {a b : Bytes} (h : a.length ≤ b.length) : xor (xor a b) b = a := by
  induction a generalizing b with
  | nil => rfl
  | cons o a ih =>
    cases b with
    | nil => simp at h
    | cons p b =>
      have hrest : xor (xor a b) b = a := ih (by simpa using h)
      simp only [xor, List.zipWith_cons_cons] at hrest ⊢
      rw [hrest, UInt8.xor_assoc, UInt8.xor_self, UInt8.xor_zero]

@[simp] theorem toNat_nil : toNat [] = 0 := rfl

theorem toNat_concat (b : Bytes) (o : UInt8) : toNat (b ++ [o]) = 256 * toNat b + o.toNat := by
  simp [toNat]

theorem ofNat_succ (width n : Nat) :
    ofNat (width + 1) n = ofNat width (n / 256) ++ [UInt8.ofNat (n % 256)] := by
  simp [ofNat, ofNatLE]

theorem toNat_ofNat (width n : Nat) : toNat (ofNat width n) = n % 256 ^ width := by
  induction width generalizing n with
  | zero => simp [ofNat, ofNatLE, Nat.mod_one]
  | succ width ih =>
    have ho : (UInt8.ofNat (n % 256)).toNat = n % 256 := by
      simp
    rw [ofNat_succ, toNat_concat, ih, ho, Nat.pow_succ', Nat.mod_mul]
    omega

/-- Numbers that fit a width are told apart by their octets. -/
theorem ofNat_inj {width m n : Nat} (hm : m < 256 ^ width) (hn : n < 256 ^ width)
    (h : ofNat width m = ofNat width n) : m = n := by
  have hvalue := congrArg toNat h
  rwa [toNat_ofNat, toNat_ofNat, Nat.mod_eq_of_lt hm, Nat.mod_eq_of_lt hn] at hvalue

theorem padLeft_inj {width : Nat} {a b : Bytes} (hlength : a.length = b.length)
    (h : padLeft width a = padLeft width b) : a = b := by
  unfold padLeft at h
  rw [hlength] at h
  exact List.append_cancel_left h

theorem padRight_inj {width : Nat} {a b : Bytes} (hlength : a.length = b.length)
    (h : padRight width a = padRight width b) : a = b :=
  (List.append_inj h hlength).1

@[simp] theorem toNat_zero_cons (b : Bytes) : toNat (0 :: b) = toNat b := by
  simp [toNat]

/-- In a string the octets in front count for more by a power for each octet behind them. -/
theorem toNat_append (a b : Bytes) : toNat (a ++ b) = 256 ^ b.length * toNat a + toNat b := by
  induction b using List.reverseRecOn with
  | nil => simp
  | append_singleton b o ih =>
    rw [← List.append_assoc, toNat_concat, toNat_concat, ih, List.length_append,
      List.length_singleton, Nat.pow_succ', Nat.mul_add, Nat.mul_assoc, Nat.add_assoc]

theorem toNat_cons (o : UInt8) (b : Bytes) :
    toNat (o :: b) = 256 ^ b.length * o.toNat + toNat b := by
  have ho : toNat [o] = o.toNat := by simp [toNat]
  rw [← ho, ← toNat_append, List.singleton_append]

theorem toNat_trimmed (b : Bytes) : toNat (trimmed b) = toNat b := by
  induction b with
  | nil => rfl
  | cons o b ih =>
    by_cases ho : o = 0
    · subst ho
      simpa [trimmed] using ih
    · simp [trimmed, ho]

/-- Two numbers that fit a width are the same if they are written in the same octets. -/
theorem trimmed_ofNat_inj (width : Nat) {m n : Nat} (hm : m < 256 ^ width) (hn : n < 256 ^ width)
    (h : trimmed (ofNat width m) = trimmed (ofNat width n)) : m = n := by
  have h' := congrArg toNat h
  rwa [toNat_trimmed, toNat_trimmed, toNat_ofNat, toNat_ofNat, Nat.mod_eq_of_lt hm,
    Nat.mod_eq_of_lt hn] at h'

theorem padLeft_concat (width : Nat) (b : Bytes) (o : UInt8) :
    padLeft (width + 1) (b ++ [o]) = padLeft width b ++ [o] := by
  simp [padLeft]

/-- The number that a string writes is written as that string, with zeros in front. -/
theorem ofNat_toNat {b : Bytes} {width : Nat} (h : b.length ≤ width) :
    ofNat width (toNat b) = padLeft width b := by
  induction b using List.reverseRecOn generalizing width with
  | nil =>
    induction width with
    | zero => rfl
    | succ width ih =>
      have hzero : toNat [] / 256 = toNat [] := rfl
      rw [ofNat_succ, hzero, ih (Nat.zero_le _)]
      simp [padLeft, List.replicate_succ']
  | append_singleton b o ih =>
    cases width with
    | zero => simp at h
    | succ width =>
      have ho : o.toNat < 256 := o.toNat_lt
      have hdiv : (256 * toNat b + o.toNat) / 256 = toNat b := by omega
      have hmod : (256 * toNat b + o.toNat) % 256 = o.toNat := by omega
      rw [toNat_concat, ofNat_succ, hdiv, hmod, ih (by simpa using h), padLeft_concat,
        UInt8.ofNat_toNat]

theorem ofNat_toNat_self {b : Bytes} {width : Nat} (h : b.length = width) :
    ofNat width (toNat b) = b := by
  rw [ofNat_toNat (Nat.le_of_eq h)]
  simp [padLeft, h]

theorem toNat_lt (b : Bytes) : toNat b < 256 ^ b.length := by
  have h := toNat_ofNat b.length (toNat b)
  rw [ofNat_toNat_self rfl] at h
  rw [h]
  exact Nat.mod_lt _ (Nat.pow_pos (by decide))

/-- The first octet tells how many octets a number takes, if it is not zero. -/
theorem length_le_of_toNat {o : UInt8} {b : Bytes} {least width : Nat} (ho : least ≤ o.toNat)
    (h : toNat (o :: b) < least * 256 ^ width) : b.length < width := by
  rcases Nat.lt_or_ge b.length width with hlt | hwide
  · exact hlt
  · have hpow : 256 ^ width ≤ 256 ^ b.length := Nat.pow_le_pow_right (by decide) hwide
    have hmore : least * 256 ^ width ≤ 256 ^ b.length * o.toNat := by
      rw [Nat.mul_comm]
      exact Nat.mul_le_mul hpow ho
    rw [toNat_cons] at h
    omega

theorem trimmed_padLeft (width : Nat) (b : Bytes) : trimmed (padLeft width b) = trimmed b := by
  unfold padLeft
  induction width - b.length with
  | zero => rfl
  | succ n ih => exact ih

theorem head_trimmed (b : Bytes) : (trimmed b).head? ≠ some 0 := by
  induction b with
  | nil => simp [trimmed]
  | cons o b ih =>
    by_cases ho : o = 0
    · simpa [trimmed, ho] using ih
    · simp [trimmed, ho]

theorem trimmed_eq_self {b : Bytes} (h : b.head? ≠ some 0) : trimmed b = b := by
  cases b with
  | nil => rfl
  | cons o b =>
    have ho : o ≠ 0 := by simpa using h
    simp [trimmed, ho]

/-- A string without a zero in front is all that is left of its number in a width that holds it. -/
theorem trimmed_ofNat_toNat {b : Bytes} {width : Nat} (h : b.length ≤ width)
    (hb : b.head? ≠ some 0) : trimmed (ofNat width (toNat b)) = b := by
  rw [ofNat_toNat h, trimmed_padLeft, trimmed_eq_self hb]

/-- Strings write the same number if and only if they are the same without zeros in front. -/
theorem trimmed_eq_iff {a b : Bytes} : trimmed a = trimmed b ↔ toNat a = toNat b := by
  constructor
  · intro h
    rw [← toNat_trimmed a, h, toNat_trimmed]
  · intro h
    have hwidth {c : Bytes} (hc : c.length ≤ a.length + b.length) :
        trimmed c = trimmed (ofNat (a.length + b.length) (toNat c)) := by
      rw [ofNat_toNat hc, trimmed_padLeft]
    rw [hwidth (Nat.le_add_right _ _), hwidth (Nat.le_add_left _ _), h]

/-- A field stands behind its length. -/
theorem field_some {b x rest : Bytes} (h : field? b = some (x, rest)) :
    b = UInt8.ofNat x.length :: (x ++ rest) := by
  cases b with
  | nil => cases h
  | cons length b =>
    simp only [field?] at h
    split at h
    next hle =>
      obtain ⟨rfl, rfl⟩ := Prod.mk.inj (Option.some.inj h)
      rw [List.length_take, Nat.min_eq_left hle, UInt8.ofNat_toNat, List.take_append_drop]
    next => cases h

end Countersign.Bytes
