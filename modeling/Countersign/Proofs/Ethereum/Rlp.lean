import Countersign.Ethereum.Rlp
import Countersign.Proofs.Bytes
import Mathlib.Algebra.Group.Nat.Defs

/-!
# Reading back encoded parts

The first octet of a head tells how many octets the head has, so equal encodings have equal
contents: a byte string, a number of 256 bits, or one item among others that are the same.
-/
namespace Countersign.Rlp

theorem length_trimmed_le (b : Bytes) : (Bytes.trimmed b).length ≤ b.length :=
  (List.dropWhile_sublist _).length_le

/-- A head begins with an octet from its base on, from which the number of the others follows. -/
theorem head_shape (base : UInt8) (hb : base.toNat ≤ 192) (length : Nat) :
    ∃ first rest, head base length = first :: rest ∧ base.toNat ≤ first.toNat ∧
      rest.length = first.toNat - (base.toNat + 55) := by
  by_cases hl : length < 56
  · have hfirst : (base + UInt8.ofNat length).toNat = base.toNat + length := by
      rw [UInt8.toNat_add, UInt8.toNat_ofNat']
      omega
    exact ⟨base + UInt8.ofNat length, [], by simp [head, hl], by omega, by
      rw [hfirst, List.length_nil]; omega⟩
  · have hlen : (Bytes.trimmed (Bytes.ofNat 8 length)).length ≤ 8 := by
      simpa using length_trimmed_le (Bytes.ofNat 8 length)
    generalize hoctets : Bytes.trimmed (Bytes.ofNat 8 length) = octets at hlen
    have hfirst : (base + 55 + UInt8.ofNat octets.length).toNat =
        base.toNat + 55 + octets.length := by
      rw [UInt8.toNat_add, UInt8.toNat_add, UInt8.toNat_ofNat',
        show (55 : UInt8).toNat = 55 from rfl]
      omega
    refine ⟨base + 55 + UInt8.ofNat octets.length, octets, ?_, by omega, by omega⟩
    simp only [head, hl, if_false, hoctets]

/-- What stands behind two heads of one base is the same if the whole is. -/
theorem head_append_cancel {base : UInt8} (hb : base.toNat ≤ 192) {m n : Nat} {x y : Bytes}
    (h : head base m ++ x = head base n ++ y) : x = y := by
  obtain ⟨f, xs, hf, _, hxs⟩ := head_shape base hb m
  obtain ⟨g, ys, hg, _, hys⟩ := head_shape base hb n
  rw [hf, hg] at h
  obtain ⟨rfl, hrest⟩ := List.cons.inj h
  exact (List.append_inj hrest (hxs.trans hys.symm)).2

/-- A byte string is written with a head in front or is one octet below `0x80`. -/
theorem encodeBytes_cases (b : Bytes) :
    (∃ o, b = [o] ∧ o < 0x80 ∧ encodeBytes b = [o]) ∨ encodeBytes b = head 0x80 b.length ++ b := by
  match b with
  | [] => exact .inr rfl
  | [o] =>
    by_cases ho : o < 0x80
    · exact .inl ⟨o, rfl, ho, by simp [encodeBytes, ho]⟩
    · exact .inr (by simp [encodeBytes, ho])
  | _ :: _ :: _ => exact .inr rfl

theorem head_ne_small (o : UInt8) (ho : o < 0x80) (length : Nat) (b : Bytes) :
    [o] ≠ head 0x80 length ++ b := by
  intro h
  obtain ⟨f, xs, hf, hfirst, _⟩ := head_shape 0x80 (by decide) length
  rw [hf] at h
  obtain ⟨rfl, _⟩ := List.cons.inj h
  have hlt : o.toNat < 128 := UInt8.lt_iff_toNat_lt.mp ho
  have hge : 128 ≤ o.toNat := hfirst
  omega

theorem encodeBytes_inj {b c : Bytes} (h : encodeBytes b = encodeBytes c) : b = c := by
  rcases encodeBytes_cases b with ⟨o, rfl, ho, hb⟩ | hb <;>
    rcases encodeBytes_cases c with ⟨o', rfl, ho', hc⟩ | hc <;> rw [hb, hc] at h
  · exact h
  · exact absurd h (head_ne_small o ho _ _)
  · exact absurd h.symm (head_ne_small o' ho' _ _)
  · exact head_append_cancel (by decide) h

/-- Numbers of 256 bits are told apart by their encodings. -/
theorem encode_nat_inj {m n : Nat} (hm : m < 2 ^ 256) (hn : n < 2 ^ 256)
    (h : encode (.nat m) = encode (.nat n)) : m = n := by
  simp only [nat, encode] at h
  exact Bytes.trimmed_ofNat_inj 32 (by simpa using hm) (by simpa using hn)
    (encodeBytes_inj h)

theorem encodeAll_append (xs ys : List Rlp) :
    encodeAll (xs ++ ys) = encodeAll xs ++ encodeAll ys := by
  induction xs with
  | nil => rfl
  | cons x xs ih => simp [encodeAll, ih]

/-- Lists that differ in one item have different encodings if the item has. -/
theorem encode_item_cancel {before after : List Rlp} {x y : Rlp}
    (h : encode (.list (before ++ x :: after)) = encode (.list (before ++ y :: after))) :
    encode x = encode y := by
  simp only [encode] at h
  have hall := head_append_cancel (by decide) h
  rw [encodeAll_append, encodeAll_append] at hall
  have hrest := List.append_cancel_left hall
  simp only [encodeAll] at hrest
  exact List.append_cancel_right hrest

end Countersign.Rlp
