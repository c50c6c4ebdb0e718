import Countersign.Cipher.Gcm
import Countersign.Proofs.Bytes

/-!
# Opening what was sealed

A block cipher whose blocks have sixteen octets masks a text in such a way that masking it again
gives it back. The tag is that of the masked text, so a text that was sealed is opened by the same
key.
-/
namespace Countersign

namespace Aes256

/-! ### Blocks -/

/-- Words of four octets, as many as given. -/
def IsWords (count : Nat) (w : List Bytes) : Prop :=
  w.length = count ∧ ∀ word ∈ w, word.length = 4

theorem IsWords.cons {count : Nat} {w : List Bytes} {word : Bytes} (h : IsWords count w)
    (hword : word.length = 4) : IsWords (count + 1) (word :: w) :=
  ⟨by rw [List.length_cons, h.1], List.forall_mem_cons.mpr ⟨hword, h.2⟩⟩

theorem isWords_extend (n : Nat) {round : UInt8} {phase count : Nat} {w : List Bytes}
    (h : IsWords count w) (hcount : 8 ≤ count) :
    IsWords (count + n) (extend round phase n w) := by
  induction n generalizing round phase count w with
  | zero => exact h
  | succ n ih =>
    have hback : (w.getD 7 []).length = 4 := by
      rw [List.getD_eq_getElem?_getD, List.getElem?_eq_getElem (by rw [h.1]; omega)]
      exact h.2 _ (List.getElem_mem _)
    have hlast : (w.headD []).length = 4 := by
      obtain ⟨word, rest, rfl⟩ := List.exists_cons_of_length_pos (by rw [h.1]; omega : 0 < w.length)
      exact h.2 word List.mem_cons_self
    have hnext {round' : UInt8} {word : Bytes} (hword : word.length = 4) :
        IsWords (count + (n + 1)) (extend round' ((phase + 1) % 8) n
          (Bytes.xor (w.getD 7 []) word :: w)) := by
      rw [Nat.add_comm n 1, ← Nat.add_assoc]
      refine ih (h.cons ?_) (by omega)
      rw [Bytes.length_xor, hback, hword]
      rfl
    simp only [extend]
    split
    · refine hnext ?_
      rw [Bytes.length_xor, List.length_map, List.length_append, List.length_drop,
        List.length_take, hlast]
      rfl
    · split
      · exact hnext (by rw [List.length_map, hlast])
      · exact hnext hlast

theorem IsWords.length_flatten {count : Nat} {w : List Bytes} (h : IsWords count w) :
    w.flatten.length = 4 * count := by
  obtain ⟨rfl, hwords⟩ := h
  induction w with
  | nil => rfl
  | cons word w ih =>
    obtain ⟨hword, hrest⟩ := List.forall_mem_cons.mp hwords
    rw [List.flatten_cons, List.length_append, hword, ih hrest, List.length_cons]
    omega

theorem IsWords.reverse {count : Nat} {w : List Bytes} (h : IsWords count w) :
    IsWords count w.reverse :=
  ⟨by rw [List.length_reverse, h.1], fun word hword => h.2 word (List.mem_reverse.mp hword)⟩

theorem isWords_chunks {count : Nat} {key : Bytes} (hkey : key.length = 4 * count) :
    IsWords count (key.chunks 4) := by
  have hwords := Bytes.length_of_mem_chunks (hkey ▸ Nat.dvd_mul_right 4 count)
  have hlen := IsWords.length_flatten ⟨rfl, hwords⟩
  rw [Bytes.flatten_chunks (by decide), hkey] at hlen
  exact ⟨by omega, hwords⟩

/-- All round keys are as long as a block. -/
theorem length_roundKeys {key : Bytes} (hkey : key.length = 32) :
    ∀ k ∈ roundKeys key, k.length = 16 := by
  have hwords : IsWords 8 (key.chunks 4).reverse := (isWords_chunks hkey).reverse
  have hextended : IsWords 60 (extend 1 0 52 (key.chunks 4).reverse).reverse :=
    (isWords_extend 52 hwords (by decide)).reverse
  refine Bytes.length_of_mem_chunks ?_
  rw [hextended.length_flatten]
  decide

theorem length_mixColumns (b : Bytes) : (mixColumns b).length = b.length / 4 * 4 := by
  fun_induction mixColumns b with
  | case1 a b c d rest all ih =>
    simp only [List.length_cons, ih]
    omega
  | case2 b h =>
    match b, h with
    | [], _ | [_], _ | [_, _], _ | [_, _, _], _ => simp
    | a :: b :: c :: d :: rest, h => exact absurd rfl (h a b c d rest)

theorem length_shiftRows (b : Bytes) : (shiftRows b).length = 16 := by
  simp [shiftRows]

theorem length_rounds {keys : List Bytes} (hkeys : ∀ k ∈ keys, k.length = 16) {b : Bytes}
    (hb : b.length = 16) : (rounds keys b).length = 16 := by
  induction keys generalizing b with
  | nil => exact hb
  | cons k keys ih =>
    obtain ⟨hk, hrest⟩ := List.forall_mem_cons.mp hkeys
    cases keys with
    | nil =>
      rw [rounds, Bytes.length_xor, length_shiftRows, hk]
      rfl
    | cons k' keys =>
      refine ih hrest ?_
      rw [Bytes.length_xor, length_mixColumns, length_shiftRows, hk]
      rfl

theorem length_encipher {keys : List Bytes} (hkeys : ∀ k ∈ keys, k.length = 16) {b : Bytes}
    (hb : b.length = 16) : (encipher keys b).length = 16 := by
  cases keys with
  | nil => exact hb
  | cons k keys =>
    obtain ⟨hk, hrest⟩ := List.forall_mem_cons.mp hkeys
    refine length_rounds hrest ?_
    rw [Bytes.length_xor, hb, hk]
    rfl

end Aes256

namespace Gcm

/-- Masks the pieces of a text from a place of the counter sequence on. -/
def maskFrom (keys : List Bytes) (nonce : Bytes) (place : Nat) (pieces : List Bytes) : Bytes :=
  (pieces.zipIdx place).flatMap fun (piece, place) =>
    Bytes.xor piece (Aes256.encipher keys (counter nonce place))

theorem maskFrom_cons (keys : List Bytes) (nonce : Bytes) (place : Nat) (piece : Bytes)
    (pieces : List Bytes) : maskFrom keys nonce place (piece :: pieces) =
      Bytes.xor piece (Aes256.encipher keys (counter nonce place))
        ++ maskFrom keys nonce (place + 1) pieces := rfl

theorem length_counter {nonce : Bytes} (hnonce : nonce.length = 12) (place : Nat) :
    (counter nonce place).length = 16 := by
  simp [counter, hnonce]

section Mask

variable {keys : List Bytes} {nonce : Bytes}

/-- Enciphered counters have sixteen octets. -/
theorem length_enciphered (hkeys : ∀ k ∈ keys, k.length = 16) (hnonce : nonce.length = 12)
    (place : Nat) : (Aes256.encipher keys (counter nonce place)).length = 16 :=
  Aes256.length_encipher hkeys (length_counter hnonce place)

theorem pieces_append (fuel : Nat) {x y : Bytes} (hx : x.length = 16 ∨ y = [] ∧ x.length ≤ 16)
    (hpos : 0 < x.length) :
    Bytes.chunks.pieces 16 (fuel + 1) (x ++ y) = x :: Bytes.chunks.pieces 16 fuel y := by
  obtain ⟨o, rest, rfl⟩ := List.exists_cons_of_length_pos hpos
  rw [List.cons_append, Bytes.chunks.pieces, ← List.cons_append]
  · rcases hx with hx | ⟨rfl, hx⟩
    · rw [List.take_left' hx, List.drop_left' hx]
    · rw [List.append_nil, List.take_of_length_le hx, List.drop_of_length_le hx]
  · simp

/-- Masking keeps the length, and masking the masked text gives the text: only the last piece is
short, so both are cut at the same places. -/
theorem maskFrom_maskFrom (hkeys : ∀ k ∈ keys, k.length = 16) (hnonce : nonce.length = 12)
    (fuel : Nat) (text : Bytes) (htext : text.length ≤ fuel) (place : Nat) :
    let masked := maskFrom keys nonce place (Bytes.chunks.pieces 16 fuel text)
    masked.length = text.length ∧
      maskFrom keys nonce place (Bytes.chunks.pieces 16 fuel masked) = text := by
  induction fuel generalizing text place with
  | zero =>
    obtain rfl : text = [] := List.eq_nil_of_length_eq_zero (by omega)
    exact ⟨rfl, rfl⟩
  | succ fuel ih =>
    cases text with
    | nil => exact ⟨rfl, rfl⟩
    | cons o text =>
      have hpos : 0 < (o :: text).length := by simp
      generalize o :: text = text at htext hpos
      have hsplit := List.take_append_drop 16 text
      have hlen := congrArg List.length hsplit
      have htake : (text.take 16).length = min 16 text.length := List.length_take
      have hdrop : (text.drop 16).length = text.length - 16 := List.length_drop
      have hcases : (text.take 16).length = 16 ∨
          text.drop 16 = [] ∧ (text.take 16).length ≤ 16 := by
        by_cases hlong : 16 ≤ text.length
        · exact .inl (by omega)
        · exact .inr ⟨List.drop_eq_nil_of_le (by omega), by omega⟩
      have hpieces := pieces_append fuel hcases (by omega)
      rw [hsplit] at hpieces
      obtain ⟨hrestLength, hrest⟩ := ih (text.drop 16) (by omega) (place + 1)
      have hE := length_enciphered hkeys hnonce place
      have hX : (Bytes.xor (text.take 16) (Aes256.encipher keys (counter nonce place))).length =
          (text.take 16).length := by
        rw [Bytes.length_xor, hE]
        omega
      rw [hpieces]
      simp only [maskFrom_cons]
      refine ⟨by rw [List.length_append, hX, hrestLength, ← List.length_append, hsplit], ?_⟩
      rw [pieces_append fuel _ (by omega), maskFrom_cons, hrest, Bytes.xor_xor_cancel (by omega),
        hsplit]
      rw [hX]
      exact hcases.imp_right fun h =>
        ⟨List.eq_nil_of_length_eq_zero (by rw [hrestLength, h.1]; rfl), h.2⟩

theorem mask_eq (keys : List Bytes) (nonce text : Bytes) :
    mask keys nonce text = maskFrom keys nonce 1 (Bytes.chunks.pieces 16 text.length text) := rfl

theorem length_mask (hkeys : ∀ k ∈ keys, k.length = 16) (hnonce : nonce.length = 12)
    (text : Bytes) : (mask keys nonce text).length = text.length :=
  (maskFrom_maskFrom hkeys hnonce text.length text (Nat.le_refl _) 1).1

/-- Masking twice gives the text back. -/
theorem mask_mask (hkeys : ∀ k ∈ keys, k.length = 16) (hnonce : nonce.length = 12) (text : Bytes) :
    mask keys nonce (mask keys nonce text) = text := by
  rw [mask_eq, length_mask hkeys hnonce]
  exact (maskFrom_maskFrom hkeys hnonce text.length text (Nat.le_refl _) 1).2

theorem length_tag (hkeys : ∀ k ∈ keys, k.length = 16) (hnonce : nonce.length = 12)
    (masked : Bytes) : (tag keys nonce masked).length = 16 := by
  simp only [tag, Bytes.length_xor, Bytes.length_ofNat, length_enciphered hkeys hnonce]
  rfl

end Mask

/-- The last sixteen octets are compared with the tag of those in front. -/
theorem decrypt_append {mark : Bytes} (hmark : mark.length = 16) (key nonce masked : Bytes) :
    decrypt? key nonce (masked ++ mark) =
      if mark = tag (Aes256.roundKeys key) nonce masked then
        some (mask (Aes256.roundKeys key) nonce masked) else none := by
  have hlen : (masked ++ mark).length - 16 = masked.length := by
    rw [List.length_append, hmark]
    omega
  simp only [decrypt?, hlen, List.take_left, List.drop_left]

/-- What was sealed is opened by the same key and nonce. -/
theorem decrypt_encrypt {key nonce : Bytes} (hkey : key.length = 32) (hnonce : nonce.length = 12)
    (text : Bytes) : decrypt? key nonce (encrypt key nonce text) = some text := by
  have hkeys := Aes256.length_roundKeys hkey
  rw [encrypt, decrypt_append (length_tag hkeys hnonce _), if_pos rfl, mask_mask hkeys hnonce]

/-- The tag makes a text sixteen octets longer. -/
theorem length_encrypt {key nonce : Bytes} (hkey : key.length = 32) (hnonce : nonce.length = 12)
    (text : Bytes) : (encrypt key nonce text).length = text.length + 16 := by
  have hkeys := Aes256.length_roundKeys hkey
  rw [encrypt, List.length_append, length_mask hkeys hnonce, length_tag hkeys hnonce]

end Gcm

end Countersign
