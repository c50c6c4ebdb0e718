import Countersign.Text.Utf8

/-!
# Reading UTF-8

The machine that reads octets finds in the octets of a text the text itself. It is between two
characters behind each of them, and owes within a character what is left of its octets. Texts are in
the order of their octets, since characters are and none has the octets of another one in front.
-/
namespace Countersign.Utf8

/-! ### One octet -/

theorem toNat_octet {n : Nat} (h : n < 256) : (UInt8.ofNat n).toNat = n :=
  UInt8.toNat_ofNat_of_lt h

theorem octet_lt {n m : Nat} (hn : n < 256) (hm : m < 256) :
    UInt8.ofNat n < UInt8.ofNat m ↔ n < m := by
  rw [UInt8.lt_iff_toNat_lt, toNat_octet hn, toNat_octet hm]

theorem octet_eq {n m : Nat} (hn : n < 256) (hm : m < 256) :
    UInt8.ofNat n = UInt8.ofNat m ↔ n = m := by
  rw [← UInt8.toNat_inj, toNat_octet hn, toNat_octet hm]

/-- The first octet by its number. -/
theorem first_ofNat {n : Nat} (hn : n < 256) :
    first (.ofNat n) =
      if n < 0x80 then .finished (Char.ofNat n)
      else if n < 0xC2 then .fault
      else if n < 0xE0 then .begun ⟨n - 0xC0, 1, 0x80, 0xBF⟩
      else if n < 0xF0 then
        .begun ⟨n - 0xE0, 2, if n = 0xE0 then 0xA0 else 0x80, if n = 0xED then 0x9F else 0xBF⟩
      else if n < 0xF5 then
        .begun ⟨n - 0xF0, 3, if n = 0xF0 then 0x90 else 0x80, if n = 0xF4 then 0x8F else 0xBF⟩
      else .fault := by
  have hlt (m : Nat) (hm : m < 256) : (UInt8.ofNat n < UInt8.ofNat m) = (n < m) :=
    propext (octet_lt hn hm)
  have heq (m : Nat) (hm : m < 256) : (UInt8.ofNat n = UInt8.ofNat m) = (n = m) :=
    propext (octet_eq hn hm)
  unfold first
  rw [toNat_octet hn]
  simp only [← hlt 0x80 (by decide), ← hlt 0xC2 (by decide), ← hlt 0xE0 (by decide),
    ← hlt 0xF0 (by decide), ← hlt 0xF5 (by decide), ← heq 0xE0 (by decide), ← heq 0xED (by decide),
    ← heq 0xF0 (by decide), ← heq 0xF4 (by decide)]
  rfl

/-- A later octet gives six bits, if it is within the bounds. -/
theorem next_ofNat (value owed : Nat) {low high n : Nat} (hb : 0x80 ≤ low ∧ low < 256 ∧ high < 256)
    (hn : low ≤ n + 0x80 ∧ n + 0x80 ≤ high) :
    next ⟨value, owed, .ofNat low, .ofNat high⟩ (.ofNat (n + 0x80)) =
      if owed ≤ 1 then .finished (Char.ofNat (value * 64 + n))
      else .begun ⟨value * 64 + n, owed - 1, 0x80, 0xBF⟩ := by
  have hwithin : ¬(UInt8.ofNat (n + 0x80) < .ofNat low ∨ .ofNat high < UInt8.ofNat (n + 0x80)) := by
    rw [octet_lt (by omega) (by omega), octet_lt (by omega) (by omega)]
    omega
  rw [next, if_neg hwithin, toNat_octet (by omega), Nat.add_sub_cancel]

theorem take_last (value : Nat) {low high n : Nat} (hb : 0x80 ≤ low ∧ low < 256 ∧ high < 256)
    (hn : low ≤ n + 0x80 ∧ n + 0x80 ≤ high) (read : List (Option Char)) :
    State.take ⟨some ⟨value, 1, .ofNat low, .ofNat high⟩, read⟩ (.ofNat (n + 0x80)) =
      ⟨none, some (Char.ofNat (value * 64 + n)) :: read⟩ := by
  simp only [State.take, next_ofNat value 1 hb hn, Nat.le_refl, if_true, State.record]

theorem take_more (value owed : Nat) {low high n : Nat} (hb : 0x80 ≤ low ∧ low < 256 ∧ high < 256)
    (hn : low ≤ n + 0x80 ∧ n + 0x80 ≤ high) (read : List (Option Char)) :
    State.take ⟨some ⟨value, owed + 2, .ofNat low, .ofNat high⟩, read⟩ (.ofNat (n + 0x80)) =
      ⟨some ⟨value * 64 + n, owed + 1, .ofNat 0x80, .ofNat 0xBF⟩, read⟩ := by
  have howed : ¬owed + 2 ≤ 1 := by omega
  simp only [State.take, next_ofNat value (owed + 2) hb hn, howed, if_false, State.record]
  rfl

/-! ### One character -/

section Octets

variable {a b c d : Nat} (read : List (Option Char))

theorem read_one (ha : a < 0x80) :
    [UInt8.ofNat a].foldl State.take ⟨none, read⟩ = ⟨none, some (Char.ofNat a) :: read⟩ := by
  simp only [List.foldl_cons, List.foldl_nil, State.take, first_ofNat (Nat.lt_trans ha (by decide)),
    if_pos ha, State.record]

theorem read_two (ha : 2 ≤ a ∧ a < 32) (hb : b < 64) :
    [UInt8.ofNat (a + 0xC0), UInt8.ofNat (b + 0x80)].foldl State.take ⟨none, read⟩ =
      ⟨none, some (Char.ofNat (a * 64 + b)) :: read⟩ := by
  have hfirst : State.take ⟨none, read⟩ (.ofNat (a + 0xC0)) =
      ⟨some ⟨a, 1, .ofNat 0x80, .ofNat 0xBF⟩, read⟩ := by
    simp only [State.take]
    rw [first_ofNat (by omega), if_neg (by omega), if_neg (by omega), if_pos (by omega),
      Nat.add_sub_cancel]
    rfl
  rw [List.foldl_cons, hfirst, List.foldl_cons, take_last a (by decide) (by omega), List.foldl_nil]

theorem read_three (ha : a < 16) (hb : b < 64) (hc : c < 64) (hlong : a = 0 → 0x20 ≤ b)
    (hsurrogate : a = 13 → b < 0x20) :
    [UInt8.ofNat (a + 0xE0), UInt8.ofNat (b + 0x80), UInt8.ofNat (c + 0x80)].foldl State.take
        ⟨none, read⟩ =
      ⟨none, some (Char.ofNat ((a * 64 + b) * 64 + c)) :: read⟩ := by
  have hfirst : State.take ⟨none, read⟩ (.ofNat (a + 0xE0)) =
      ⟨some ⟨a, 2, .ofNat (if a = 0 then 0xA0 else 0x80), .ofNat (if a = 13 then 0x9F else 0xBF)⟩,
        read⟩ := by
    simp only [State.take]
    rw [first_ofNat (by omega), if_neg (by omega), if_neg (by omega), if_neg (by omega),
      if_pos (by omega), Nat.add_sub_cancel]
    have hzero : a + 0xE0 = 0xE0 ↔ a = 0 := by omega
    have hlast : a + 0xE0 = 0xED ↔ a = 13 := by omega
    simp only [hzero, hlast, State.record, apply_ite UInt8.ofNat]
    rfl
  rw [List.foldl_cons, hfirst, List.foldl_cons, take_more a 0 (by grind) (by grind),
    List.foldl_cons, take_last _ (by decide) (by omega), List.foldl_nil]

theorem read_four (ha : a ≤ 4) (hb : b < 64) (hc : c < 64) (hd : d < 64) (hlong : a = 0 → 0x10 ≤ b)
    (hlast : a = 4 → b < 0x10) :
    [UInt8.ofNat (a + 0xF0), UInt8.ofNat (b + 0x80), UInt8.ofNat (c + 0x80),
        UInt8.ofNat (d + 0x80)].foldl State.take ⟨none, read⟩ =
      ⟨none, some (Char.ofNat (((a * 64 + b) * 64 + c) * 64 + d)) :: read⟩ := by
  have hfirst : State.take ⟨none, read⟩ (.ofNat (a + 0xF0)) =
      ⟨some ⟨a, 3, .ofNat (if a = 0 then 0x90 else 0x80), .ofNat (if a = 4 then 0x8F else 0xBF)⟩,
        read⟩ := by
    simp only [State.take]
    rw [first_ofNat (by omega), if_neg (by omega), if_neg (by omega), if_neg (by omega),
      if_neg (by omega), if_pos (by omega), Nat.add_sub_cancel]
    have hzero : a + 0xF0 = 0xF0 ↔ a = 0 := by omega
    have hlast : a + 0xF0 = 0xF4 ↔ a = 4 := by omega
    simp only [hzero, hlast, State.record, apply_ite UInt8.ofNat]
    rfl
  rw [List.foldl_cons, hfirst, List.foldl_cons, take_more a 1 (by grind) (by grind),
    List.foldl_cons,
    take_more _ 0 (by decide) (by omega), List.foldl_cons, take_last _ (by decide) (by omega),
    List.foldl_nil]

end Octets

/-- The octets of a character are read as that character. -/
theorem foldl_take_encodeChar (c : Char) (read : List (Option Char)) :
    (String.utf8EncodeChar c).foldl State.take ⟨none, read⟩ = ⟨none, some c :: read⟩ := by
  have hvalid : c.toNat < 0xD800 ∨ 0xDFFF < c.toNat ∧ c.toNat < 0x110000 := c.valid
  have hc : Char.ofNat c.toNat = c := Char.ofNat_toNat c
  have hval : c.val.toNat = c.toNat := rfl
  unfold String.utf8EncodeChar
  rw [hval]
  generalize c.toNat = v at *
  dsimp only
  split
  next h => rw [read_one read (by omega), hc]
  next =>
    split
    next =>
      rw [read_two read (by omega) (by omega), ← hc]
      congr 5
      omega
    next =>
      split
      next =>
        rw [read_three read (by omega) (by omega) (by omega) (by omega) (by omega), ← hc]
        congr 5
        omega
      next =>
        rw [read_four read (by omega) (by omega) (by omega) (by omega) (by omega) (by omega), ← hc]
        congr 5
        omega

/-! ### A whole text -/

/-- The octets of characters. -/
def octets (cs : List Char) : Bytes := cs.flatMap String.utf8EncodeChar

@[simp] theorem octets_nil : octets [] = [] := rfl

@[simp] theorem octets_cons (c : Char) (cs : List Char) :
    octets (c :: cs) = String.utf8EncodeChar c ++ octets cs := rfl

@[simp] theorem octets_append (cs more : List Char) :
    octets (cs ++ more) = octets cs ++ octets more :=
  List.flatMap_append

theorem encode_ofList (cs : List Char) : encode (String.ofList cs) = octets cs := by
  rw [encode, String.toList_ofList, octets]

theorem foldl_take_octets (cs : List Char) (read : List (Option Char)) :
    (octets cs).foldl State.take ⟨none, read⟩ = ⟨none, (cs.map some).reverse ++ read⟩ := by
  induction cs generalizing read with
  | nil => rfl
  | cons c cs ih =>
    rw [octets_cons, List.foldl_append, foldl_take_encodeChar, ih]
    simp

theorem scan_octets (cs : List Char) : scan (octets cs) = cs.map some := by
  rw [scan, foldl_take_octets]
  simp [State.done]

/-- The octets of a text are read as that text. -/
theorem decode_octets (cs : List Char) : decode? (octets cs) = some (String.ofList cs) := by
  rw [decode?, scan_octets]
  simp [List.all_map, List.filterMap_map]

theorem decodeLossy_octets (cs : List Char) : decodeLossy (octets cs) = String.ofList cs := by
  rw [decodeLossy, scan_octets]
  simp [List.map_map, Function.comp_def]

theorem decodeLossy_encode (t : String) : decodeLossy (encode t) = t := by
  have h := decodeLossy_octets t.toList
  rwa [← encode_ofList, String.ofList_toList] at h

/-! ### Order -/

theorem toNat_lt (c : Char) : c.toNat < 0x110000 := by
  have hvalid : c.toNat < 0xD800 ∨ 0xDFFF < c.toNat ∧ c.toNat < 0x110000 := c.valid
  omega

/-- Octets by their numbers: the first difference decides. -/
theorem cons_lt_cons {n m : Nat} (hn : n < 256) (hm : m < 256) {b b' : Bytes} :
    UInt8.ofNat n :: b < UInt8.ofNat m :: b' ↔ n < m ∨ n = m ∧ b < b' := by
  rw [List.cons_lt_cons_iff, octet_lt hn hm, octet_eq hn hm]

theorem append_lt_append {b b' : Bytes} (front : Bytes) : front ++ b < front ++ b' ↔ b < b' := by
  induction front with
  | nil => rfl
  | cons o front ih =>
    rw [List.cons_append, List.cons_append, List.cons_lt_cons_iff, ih]
    simp only [UInt8.lt_irrefl, false_or, true_and]

/-- The greater one of two numbers is greater in front of the last six bits, or it is so in those.
-/
theorem six_bits_lt {n m : Nat} (h : n < m) :
    n / 64 < m / 64 ∨ n / 64 = m / 64 ∧ n % 64 < m % 64 := by
  omega

section Octets

variable {v w : Nat} (h : v < w) (more more' : Bytes)

include h

theorem two_lt (hw : w < 0x800) :
    [UInt8.ofNat (v / 64 % 32 + 0xC0), UInt8.ofNat (v % 64 + 0x80)] ++ more <
      [UInt8.ofNat (w / 64 % 32 + 0xC0), UInt8.ofNat (w % 64 + 0x80)] ++ more' := by
  simp (disch := omega) only [List.cons_append, List.nil_append, cons_lt_cons]
  rcases six_bits_lt h with h | ⟨h, h'⟩
  · exact .inl (by omega)
  · exact .inr ⟨by omega, .inl (by omega)⟩

theorem three_lt (hw : w < 0x10000) :
    [UInt8.ofNat (v / 4096 % 16 + 0xE0), UInt8.ofNat (v / 64 % 64 + 0x80),
        UInt8.ofNat (v % 64 + 0x80)] ++ more <
      [UInt8.ofNat (w / 4096 % 16 + 0xE0), UInt8.ofNat (w / 64 % 64 + 0x80),
        UInt8.ofNat (w % 64 + 0x80)] ++ more' := by
  simp (disch := omega) only [List.cons_append, List.nil_append, cons_lt_cons]
  rcases six_bits_lt h with h | ⟨h, h'⟩
  · rcases six_bits_lt h with h | ⟨h, h'⟩
    · exact .inl (by omega)
    · exact .inr ⟨by omega, .inl (by omega)⟩
  · exact .inr ⟨by omega, .inr ⟨by omega, .inl (by omega)⟩⟩

theorem four_lt (hw : w < 0x110000) :
    [UInt8.ofNat (v / 262144 % 8 + 0xF0), UInt8.ofNat (v / 4096 % 64 + 0x80),
        UInt8.ofNat (v / 64 % 64 + 0x80), UInt8.ofNat (v % 64 + 0x80)] ++ more <
      [UInt8.ofNat (w / 262144 % 8 + 0xF0), UInt8.ofNat (w / 4096 % 64 + 0x80),
        UInt8.ofNat (w / 64 % 64 + 0x80), UInt8.ofNat (w % 64 + 0x80)] ++ more' := by
  simp (disch := omega) only [List.cons_append, List.nil_append, cons_lt_cons]
  rcases six_bits_lt h with h | ⟨h, h'⟩
  · rcases six_bits_lt h with h | ⟨h, h'⟩
    · rcases six_bits_lt h with h | ⟨h, h'⟩
      · exact .inl (by omega)
      · exact .inr ⟨by omega, .inl (by omega)⟩
    · exact .inr ⟨by omega, .inr ⟨by omega, .inl (by omega)⟩⟩
  · exact .inr ⟨by omega, .inr ⟨by omega, .inr ⟨by omega, .inl (by omega)⟩⟩⟩

end Octets

/-- The octets of a character are in front of those of a greater one, whatever follows them: if they
are fewer, they begin with a lower octet. -/
theorem encodeChar_lt {c d : Char} (h : c < d) (more more' : Bytes) :
    String.utf8EncodeChar c ++ more < String.utf8EncodeChar d ++ more' := by
  have hlt : c.toNat < d.toNat := h
  have hd := toNat_lt d
  have hcval : c.val.toNat = c.toNat := rfl
  have hdval : d.val.toNat = d.toNat := rfl
  unfold String.utf8EncodeChar
  rw [hcval, hdval]
  generalize c.toNat = v at *
  generalize d.toNat = w at *
  have hfirst {n m : Nat} (hm : m < 256) (hnm : n < m) (b b' : Bytes) :
      UInt8.ofNat n :: b < UInt8.ofNat m :: b' :=
    (cons_lt_cons (by omega) hm).mpr (.inl hnm)
  dsimp only
  split
  next =>
    repeat' split
    all_goals exact hfirst (by omega) (by omega) _ _
  next =>
    rw [if_neg (by omega : ¬w ≤ 127)]
    split
    next =>
      split
      next => exact two_lt hlt more more' (by omega)
      next =>
        split
        all_goals exact hfirst (by omega) (by omega) _ _
    next =>
      rw [if_neg (by omega : ¬w ≤ 2047)]
      split
      next =>
        split
        next => exact three_lt hlt more more' (by omega)
        next => exact hfirst (by omega) (by omega) _ _
      next =>
        rw [if_neg (by omega : ¬w ≤ 65535)]
        exact four_lt hlt more more' hd

theorem nil_lt_octets (d : Char) (ds : List Char) : [] < octets (d :: ds) := by
  cases hd : octets (d :: ds) with
  | nil =>
    have hlength := congrArg List.length hd
    rw [octets_cons, List.length_append, String.length_utf8EncodeChar, List.length_nil] at hlength
    exact absurd d.utf8Size_pos (by omega)
  | cons o b => exact List.nil_lt_cons o b

/-- The order of texts is that of their octets. -/
theorem octets_lt_iff {cs ds : List Char} : octets cs < octets ds ↔ cs < ds := by
  induction cs generalizing ds with
  | nil =>
    cases ds with
    | nil => exact iff_of_false (List.not_lt_nil _) (List.not_lt_nil _)
    | cons d ds => exact iff_of_true (nil_lt_octets d ds) (List.nil_lt_cons d ds)
  | cons c cs ih =>
    cases ds with
    | nil => exact iff_of_false (List.not_lt_nil _) (List.not_lt_nil _)
    | cons d ds =>
      rw [octets_cons, octets_cons, List.cons_lt_cons_iff]
      rcases Nat.lt_trichotomy c.toNat d.toNat with hlt | heq | hgt
      · exact iff_of_true (encodeChar_lt hlt _ _) (.inl hlt)
      · obtain rfl := Char.toNat_inj.mp heq
        rw [append_lt_append, ih]
        simp only [Char.lt_irrefl, false_or, true_and]
      · refine iff_of_false (List.lt_asymm (encodeChar_lt hgt _ _)) ?_
        rintro (hlt | ⟨rfl, -⟩)
        · exact Nat.lt_asymm hlt hgt
        · exact Nat.lt_irrefl _ hgt

theorem encode_lt_iff {s t : String} : encode s < encode t ↔ s < t :=
  octets_lt_iff

end Countersign.Utf8
