import Countersign.Text.Base64

/-!
# Reading back Base64

What is written for a byte string is read as that byte string, and nothing else is read.
-/
namespace Countersign.Base64

theorem letter_table : ∀ n : Fin 64, value? (letter n) = some n.val ∧ letter n ≠ '=' := by
  decide

theorem value_letter {n : Nat} (h : n < 64) : value? (letter n) = some n :=
  (letter_table ⟨n, h⟩).1

theorem letter_ne_pad {n : Nat} (h : n < 64) : letter n ≠ '=' :=
  (letter_table ⟨n, h⟩).2

theorem octets_group {k l m n : Nat} (hk : k < 64) (hl : l < 64) (hm : m < 64) (hn : n < 64)
    {rest : List Char} {b : Bytes} (hrest : octets? rest = some b) :
    let number := ((k * 64 + l) * 64 + m) * 64 + n
    octets? (letter k :: letter l :: letter m :: letter n :: rest) =
      some (UInt8.ofNat (number / 65536) :: UInt8.ofNat (number / 256 % 256)
        :: UInt8.ofNat (number % 256) :: b) := by
  have hpad := letter_ne_pad hn
  rw [octets?]
  · simp [value_letter hk, value_letter hl, value_letter hm, value_letter hn, hrest]
  · intro _ h _
    exact hpad h
  · intro h _
    exact hpad h

theorem octets_letters (b : Bytes) : octets? (letters b) = some b := by
  fun_induction letters b with
  | case1 a b c rest number ih =>
    have ha := a.toNat_lt
    have hb := b.toNat_lt
    have hc := c.toNat_lt
    have hnumber : (((number / 262144) * 64 + number / 4096 % 64) * 64 + number / 64 % 64) * 64
        + number % 64 = number := by omega
    rw [octets_group (by omega) (by omega) (by omega) (by omega) ih, hnumber]
    have h₁ : number / 65536 = a.toNat := by omega
    have h₂ : number / 256 % 256 = b.toNat := by omega
    have h₃ : number % 256 = c.toNat := by omega
    simp only [h₁, h₂, h₃, UInt8.ofNat_toNat]
  | case2 a b number =>
    have ha := a.toNat_lt
    have hb := b.toNat_lt
    have hpad := letter_ne_pad (n := number % 64) (by omega)
    have hnumber : (number / 4096 * 64 + number / 64 % 64) * 64 + number % 64 = number := by omega
    have h₁ : number / 1024 = a.toNat := by omega
    have h₂ : number / 4 % 256 = b.toNat := by omega
    have h₃ : number % 4 = 0 := by omega
    rw [octets?]
    · simp [value_letter (n := number / 4096) (by omega),
        value_letter (n := number / 64 % 64) (by omega), value_letter (n := number % 64) (by omega),
        hnumber, h₁, h₂, h₃]
    · exact hpad
  | case3 a number =>
    have ha := a.toNat_lt
    have hnumber : number / 64 * 64 + number % 64 = number := by omega
    have h₁ : number / 16 = a.toNat := by omega
    have h₂ : number % 16 = 0 := by omega
    simp [octets?, value_letter (n := number / 64) (by omega),
      value_letter (n := number % 64) (by omega), hnumber, h₁, h₂]
  | case4 => rfl

/-- What is written is read back. -/
theorem decode_encode (b : Bytes) : decode? (encode b) = some b := by
  rw [decode?, encode, String.toList_ofList, octets_letters]

theorem letter_value {c : Char} {n : Nat} (h : value? c = some n) : n < 64 ∧ letter n = c := by
  have hle (a b : Char) : a ≤ b ↔ a.toNat ≤ b.toNat := Char.le_def
  unfold value? at h
  simp only [hle, Char.reduceToNat] at h
  split at h
  next hc =>
    obtain rfl := Option.some.inj h
    have hsum : 65 + (c.toNat - 65) = c.toNat := by omega
    exact ⟨by omega, by rw [letter, if_pos (by omega), hsum, Char.ofNat_toNat]⟩
  split at h
  next hc =>
    obtain rfl := Option.some.inj h
    have hsum : 71 + (c.toNat - 71) = c.toNat := by omega
    exact ⟨by omega, by
      rw [letter, if_neg (by omega), if_pos (by omega), hsum, Char.ofNat_toNat]⟩
  split at h
  next hc =>
    obtain rfl := Option.some.inj h
    have hsum : c.toNat + 4 - 4 = c.toNat := by omega
    exact ⟨by omega, by
      rw [letter, if_neg (by omega), if_neg (by omega), if_pos (by omega), hsum, Char.ofNat_toNat]⟩
  split at h
  next hc =>
    obtain rfl := Option.some.inj h
    exact ⟨by decide, hc ▸ rfl⟩
  split at h
  next hc =>
    obtain rfl := Option.some.inj h
    exact ⟨by decide, hc ▸ rfl⟩
  next => cases h

/-- Only what is written is read. -/
theorem letters_of_octets {cs : List Char} {b : Bytes} (h : octets? cs = some b) :
    letters b = cs := by
  fun_induction octets? cs generalizing b with
  | case1 =>
    obtain rfl := Option.some.inj h
    rfl
  | case2 x y =>
    obtain ⟨k, hk, h₁⟩ := Option.bind_eq_some_iff.mp h
    obtain ⟨l, hl, h₂⟩ := Option.bind_eq_some_iff.mp h₁
    obtain ⟨hk64, rfl⟩ := letter_value hk
    obtain ⟨hl64, rfl⟩ := letter_value hl
    obtain ⟨hzero, hb⟩ := Option.ite_none_right_eq_some.mp h₂
    obtain rfl := Option.some.inj hb
    have hoctet : (UInt8.ofNat ((k * 64 + l) / 16)).toNat * 16 = k * 64 + l := by
      simp only [UInt8.toNat_ofNat']
      omega
    have hfirst : (k * 64 + l) / 64 = k := by omega
    have hsecond : (k * 64 + l) % 64 = l := by omega
    simp only [letters, hoctet, hfirst, hsecond]
  | case3 x y z hz =>
    obtain ⟨k, hk, h₁⟩ := Option.bind_eq_some_iff.mp h
    obtain ⟨l, hl, h₂⟩ := Option.bind_eq_some_iff.mp h₁
    obtain ⟨m, hm, h₃⟩ := Option.bind_eq_some_iff.mp h₂
    obtain ⟨hk64, rfl⟩ := letter_value hk
    obtain ⟨hl64, rfl⟩ := letter_value hl
    obtain ⟨hm64, rfl⟩ := letter_value hm
    obtain ⟨hzero, hb⟩ := Option.ite_none_right_eq_some.mp h₃
    obtain rfl := Option.some.inj hb
    generalize hnumber : (k * 64 + l) * 64 + m = number at hzero
    have hoctets : ((UInt8.ofNat (number / 1024)).toNat * 256
        + (UInt8.ofNat (number / 4 % 256)).toNat) * 4 = number := by
      simp only [UInt8.toNat_ofNat']
      omega
    have hfirst : number / 4096 = k := by omega
    have hsecond : number / 64 % 64 = l := by omega
    have hthird : number % 64 = m := by omega
    simp only [letters, hoctets, hfirst, hsecond, hthird]
  | case4 x y z w rest hpads hpad ih =>
    obtain ⟨k, hk, h₁⟩ := Option.bind_eq_some_iff.mp h
    obtain ⟨l, hl, h₂⟩ := Option.bind_eq_some_iff.mp h₁
    obtain ⟨m, hm, h₃⟩ := Option.bind_eq_some_iff.mp h₂
    obtain ⟨n, hn, h₄⟩ := Option.bind_eq_some_iff.mp h₃
    obtain ⟨more, hmore, h₅⟩ := Option.bind_eq_some_iff.mp h₄
    obtain ⟨hk64, rfl⟩ := letter_value hk
    obtain ⟨hl64, rfl⟩ := letter_value hl
    obtain ⟨hm64, rfl⟩ := letter_value hm
    obtain ⟨hn64, rfl⟩ := letter_value hn
    obtain rfl := Option.some.inj h₅
    generalize hnumber : ((k * 64 + l) * 64 + m) * 64 + n = number
    have hoctets : ((UInt8.ofNat (number / 65536)).toNat * 256
        + (UInt8.ofNat (number / 256 % 256)).toNat) * 256 + (UInt8.ofNat (number % 256)).toNat
          = number := by
      simp only [UInt8.toNat_ofNat']
      omega
    have hfirst : number / 262144 = k := by omega
    have hsecond : number / 4096 % 64 = l := by omega
    have hthird : number / 64 % 64 = m := by omega
    have hfourth : number % 64 = n := by omega
    simp only [letters, hoctets, hfirst, hsecond, hthird, hfourth, ih hmore]
  | case5 => cases h

/-- A text is read as a byte string if it is what is written for it, and only then. -/
theorem decode_eq_some {text : String} {b : Bytes} : decode? text = some b ↔ text = encode b := by
  constructor
  · intro h
    rw [encode, letters_of_octets h, String.ofList_toList]
  · rintro rfl
    exact decode_encode b

end Countersign.Base64
