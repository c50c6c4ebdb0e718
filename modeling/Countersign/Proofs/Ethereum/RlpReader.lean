import Countersign.Proofs.Ethereum.Rlp

/-!
# Reading recursive length encoding

A strict reader. It refuses a length that could be written shorter, a head in front of an octet that
needs none, and octets that are missing or left over. It reads back every encoding that is shorter
than `2 ^ 64` octets, as far as heads can say, and what it reads is the encoding of what it gives.
-/
namespace Countersign.Rlp

/-! ### Heads -/

/-- The octets in front, and those behind them. -/
def split? (n : Nat) (b : Bytes) : Option (Bytes × Bytes) :=
  if n ≤ b.length then some (b.take n, b.drop n) else none

/-- The length that a head gives, and what stands behind the head. The code of its first octet is
the length itself, or the count of the octets that write the length. -/
def length? (code : Nat) (b : Bytes) : Option (Nat × Bytes) :=
  if code < 56 then some (code, b)
  else
    match split? (code - 55) b with
    | some (octets, rest) =>
      if octets.head? = some 0 ∨ Bytes.toNat octets < 56 then none
      else some (Bytes.toNat octets, rest)
    | none => none

theorem split_append (b rest : Bytes) : split? b.length (b ++ rest) = some (b, rest) := by
  simp [split?]

theorem split_some {n : Nat} {b x rest : Bytes} (h : split? n b = some (x, rest)) :
    b = x ++ rest ∧ x.length = n := by
  unfold split? at h
  split at h
  next hle =>
    obtain ⟨rfl, rfl⟩ := Prod.mk.inj (Option.some.inj h)
    exact ⟨(List.take_append_drop n b).symm, List.length_take_of_le hle⟩
  next => cases h

/-- The octets that write a long length: eight at most, no zero in front, and the length again. -/
theorem trimmed_length {n : Nat} (hn : n < 2 ^ 64) :
    let octets := Bytes.trimmed (Bytes.ofNat 8 n)
    octets.length ≤ 8 ∧ octets.head? ≠ some 0 ∧ Bytes.toNat octets = n := by
  refine ⟨?_, Bytes.head_trimmed _, ?_⟩
  · simpa using length_trimmed_le (Bytes.ofNat 8 n)
  · rw [Bytes.toNat_trimmed, Bytes.toNat_ofNat]
    exact Nat.mod_eq_of_lt hn

/-- The length in a head is read back. -/
theorem length_head {base : UInt8} (hb : base.toNat ≤ 192) {n : Nat} (hn : n < 2 ^ 64) :
    ∃ o octets, head base n = o :: octets ∧ base.toNat ≤ o.toNat ∧ o.toNat < base.toNat + 64 ∧
      ∀ rest, length? (o.toNat - base.toNat) (octets ++ rest) = some (n, rest) := by
  by_cases hshort : n < 56
  · have ho : (base + UInt8.ofNat n).toNat = base.toNat + n := by
      rw [UInt8.toNat_add, UInt8.toNat_ofNat']
      omega
    refine ⟨base + UInt8.ofNat n, [], by simp [head, hshort], by omega, by omega, fun rest => ?_⟩
    have hcode : (base + UInt8.ofNat n).toNat - base.toNat = n := by omega
    rw [hcode, length?, if_pos hshort, List.nil_append]
  · obtain ⟨hlen, hzero, hvalue⟩ := trimmed_length hn
    have hpos : 0 < (Bytes.trimmed (Bytes.ofNat 8 n)).length := by
      rw [List.length_pos_iff]
      intro hnil
      rw [hnil] at hvalue
      simp at hvalue
      omega
    have hhead : head base n = (base + 55 + UInt8.ofNat (Bytes.trimmed (Bytes.ofNat 8 n)).length) ::
        Bytes.trimmed (Bytes.ofNat 8 n) := by simp [head, hshort]
    generalize Bytes.trimmed (Bytes.ofNat 8 n) = octets at *
    have ho : (base + 55 + UInt8.ofNat octets.length).toNat = base.toNat + 55 + octets.length := by
      rw [UInt8.toNat_add, UInt8.toNat_add, UInt8.toNat_ofNat',
        show (55 : UInt8).toNat = 55 from rfl]
      omega
    refine ⟨_, octets, hhead, by omega, by omega, fun rest => ?_⟩
    have hcode :
        (base + 55 + UInt8.ofNat octets.length).toNat - base.toNat - 55 = octets.length := by
      omega
    rw [length?, if_neg (by omega), hcode, split_append]
    dsimp only
    rw [hvalue, if_neg (by simp [hzero, hshort])]

/-- A length is only read from the head that is written for it. -/
theorem head_of_length (base : UInt8) {code n : Nat} {b rest : Bytes} (hcode : code < 64)
    (h : length? code b = some (n, rest)) :
    ∃ octets, head base n = (base + UInt8.ofNat code) :: octets ∧ b = octets ++ rest := by
  unfold length? at h
  split at h
  next hshort =>
    obtain ⟨rfl, rfl⟩ := Prod.mk.inj (Option.some.inj h)
    exact ⟨[], by simp [head, hshort], rfl⟩
  next hlong =>
    split at h
    next octets tail hsplit =>
      obtain ⟨rfl, hlen⟩ := split_some hsplit
      split at h
      next => cases h
      next hcanonical =>
        obtain ⟨rfl, rfl⟩ := Prod.mk.inj (Option.some.inj h)
        obtain ⟨hzero, hvalue⟩ := not_or.mp hcanonical
        have hoctets : Bytes.trimmed (Bytes.ofNat 8 (Bytes.toNat octets)) = octets :=
          Bytes.trimmed_ofNat_toNat (by omega) hzero
        have hsum : base + 55 + UInt8.ofNat octets.length = base + UInt8.ofNat code := by
          rw [UInt8.add_assoc]
          congr 1
          apply UInt8.toNat_inj.mp
          rw [UInt8.toNat_add, UInt8.toNat_ofNat', UInt8.toNat_ofNat',
            show (55 : UInt8).toNat = 55 from rfl]
          omega
        exact ⟨octets, by simp only [head, hvalue, if_false, hoctets, hsum], rfl⟩
    next => cases h

/-- The contents behind a head, and what stands behind them. -/
def contents? (code : Nat) (b : Bytes) : Option (Bytes × Bytes) :=
  match length? code b with
  | some (n, rest) => split? n rest
  | none => none

theorem contents_head {base : UInt8} (hb : base.toNat ≤ 192) {x : Bytes} (hx : x.length < 2 ^ 64) :
    ∃ o octets, head base x.length = o :: octets ∧ base.toNat ≤ o.toNat ∧
      o.toNat < base.toNat + 64 ∧
      ∀ rest, contents? (o.toNat - base.toNat) (octets ++ (x ++ rest)) = some (x, rest) := by
  obtain ⟨o, octets, hhead, hge, hlt, hread⟩ := length_head hb hx
  refine ⟨o, octets, hhead, hge, hlt, fun rest => ?_⟩
  simp only [contents?, hread, split_append]

theorem head_of_contents {base o : UInt8} (hge : base.toNat ≤ o.toNat)
    (hlt : o.toNat < base.toNat + 64) {b x rest : Bytes}
    (h : contents? (o.toNat - base.toNat) b = some (x, rest)) :
    o :: b = head base x.length ++ x ++ rest := by
  unfold contents? at h
  split at h
  next n tail hlength =>
    obtain ⟨rfl, rfl⟩ := split_some h
    obtain ⟨octets, hhead, rfl⟩ := head_of_length base (by omega) hlength
    have ho : base + UInt8.ofNat (o.toNat - base.toNat) = o := by
      apply UInt8.toNat_inj.mp
      have := o.toNat_lt
      rw [UInt8.toNat_add, UInt8.toNat_ofNat']
      omega
    rw [hhead, ho]
    simp
  next => cases h

/-! ### Parts -/

/-- What stands behind one head: a byte string, or the encodings of the items of a list. -/
inductive Part where
  | bytes (b : Bytes)
  | list (payload : Bytes)

/-- A part with its head. -/
def Part.encode : Part → Bytes
  | .bytes b => encodeBytes b
  | .list payload => head 0xC0 payload.length ++ payload

/-- One octet below `0x80` is written as itself. -/
def standsAlone : Bytes → Bool
  | [o] => o < 0x80
  | _ => false

/-- Reads the part in front. -/
def part? : Bytes → Option (Part × Bytes)
  | [] => none
  | o :: rest =>
    if o.toNat < 0x80 then some (.bytes [o], rest)
    else if o.toNat < 0xC0 then
      match contents? (o.toNat - 0x80) rest with
      | some (b, rest) => if standsAlone b then none else some (.bytes b, rest)
      | none => none
    else
      match contents? (o.toNat - 0xC0) rest with
      | some (payload, rest) => some (.list payload, rest)
      | none => none

theorem encodeBytes_alone {b : Bytes} (h : standsAlone b = true) :
    ∃ o, b = [o] ∧ o.toNat < 0x80 ∧ encodeBytes b = [o] := by
  match b with
  | [o] =>
    have ho : o < 0x80 := by simpa [standsAlone] using h
    exact ⟨o, rfl, UInt8.lt_iff_toNat_lt.mp ho, by simp [encodeBytes, ho]⟩
  | [] => cases h
  | _ :: _ :: _ => cases h

theorem encodeBytes_headed {b : Bytes} (h : standsAlone b = false) :
    encodeBytes b = head 0x80 b.length ++ b := by
  match b with
  | [o] =>
    have ho : ¬o < 0x80 := by simpa [standsAlone] using h
    simp [encodeBytes, ho]
  | [] => rfl
  | _ :: _ :: _ => rfl

theorem encode_ne_nil (p : Part) : p.encode ≠ [] := by
  have hhead (base : UInt8) (n : Nat) (x : Bytes) : head base n ++ x ≠ [] := by
    unfold head
    split <;> simp
  cases p with
  | list payload => exact hhead _ _ _
  | bytes b =>
    rw [Part.encode]
    cases h : standsAlone b with
    | false =>
      rw [encodeBytes_headed h]
      exact hhead _ _ _
    | true =>
      obtain ⟨o, -, -, ho⟩ := encodeBytes_alone h
      simp [ho]

theorem part_encode {p : Part} (hp : p.encode.length < 2 ^ 64) (rest : Bytes) :
    part? (p.encode ++ rest) = some (p, rest) := by
  cases p with
  | list payload =>
    simp only [Part.encode, List.length_append] at hp ⊢
    obtain ⟨o, octets, hhead, hge, -, hread⟩ :=
      contents_head (by decide : (0xC0 : UInt8).toNat ≤ 192) (by omega : payload.length < 2 ^ 64)
    have hge : 0xC0 ≤ o.toNat := hge
    have hread : contents? (o.toNat - 0xC0) (octets ++ (payload ++ rest)) = some (payload, rest) :=
      hread rest
    simp only [hhead, List.cons_append, List.append_assoc, part?, hread]
    rw [if_neg (by omega), if_neg (by omega)]
  | bytes b =>
    cases halone : standsAlone b with
    | true =>
      obtain ⟨o, rfl, ho, hencode⟩ := encodeBytes_alone halone
      simp only [Part.encode, hencode, List.cons_append, List.nil_append, part?, if_pos ho]
    | false =>
      simp only [Part.encode, encodeBytes_headed halone, List.length_append] at hp ⊢
      obtain ⟨o, octets, hhead, hge, hlt, hread⟩ :=
        contents_head (by decide : (0x80 : UInt8).toNat ≤ 192) (by omega : b.length < 2 ^ 64)
      have hge : 0x80 ≤ o.toNat := hge
      have hlt : o.toNat < 0xC0 := hlt
      have hread : contents? (o.toNat - 0x80) (octets ++ (b ++ rest)) = some (b, rest) := hread rest
      simp only [hhead, List.cons_append, List.append_assoc, part?, hread, halone]
      rw [if_neg (by omega), if_pos hlt]
      rfl

theorem encode_of_part {b rest : Bytes} {p : Part} (h : part? b = some (p, rest)) :
    b = p.encode ++ rest := by
  have hbytes : (0x80 : UInt8).toNat = 0x80 := rfl
  have hlist : (0xC0 : UInt8).toNat = 0xC0 := rfl
  cases b with
  | nil => cases h
  | cons o b =>
    have hmax := o.toNat_lt
    simp only [part?] at h
    split at h
    next hsmall =>
      obtain ⟨rfl, rfl⟩ := Prod.mk.inj (Option.some.inj h)
      have ho : o < 0x80 := UInt8.lt_iff_toNat_lt.mpr hsmall
      simp [Part.encode, encodeBytes, ho]
    next hlarge =>
      split at h
      next hlow =>
        split at h
        next x tail hread =>
          split at h
          next => cases h
          next halone =>
            obtain ⟨rfl, rfl⟩ := Prod.mk.inj (Option.some.inj h)
            rw [Part.encode, encodeBytes_headed (by simpa using halone)]
            rw [← hbytes] at hread
            exact head_of_contents (by omega) (by omega) hread
        next => cases h
      next hhigh =>
        split at h
        next payload tail hread =>
          obtain ⟨rfl, rfl⟩ := Prod.mk.inj (Option.some.inj h)
          rw [← hlist] at hread
          exact head_of_contents (by omega) (by omega) hread
        next => cases h

/-! ### Trees -/

/-- The tree of a part, once there is a way to read the items of a list. -/
def Part.tree? (readAll : Bytes → Option (List Rlp)) : Part → Option Rlp
  | .bytes b => some (.bytes b)
  | .list payload => (readAll payload).map .list

/-- Reads trees that stand one behind the other. A tree takes an octet at least, also from the list
that it is in, so the length is fuel enough. -/
def readAll? : Nat → Bytes → Option (List Rlp)
  | _, [] => some []
  | 0, _ :: _ => none
  | fuel + 1, o :: b =>
    match part? (o :: b) with
    | some (part, rest) => do
      let item ← part.tree? (readAll? fuel)
      let items ← readAll? fuel rest
      return item :: items
    | none => none

/-- Reads a tree with nothing behind it. -/
def decode? (b : Bytes) : Option Rlp :=
  match readAll? b.length b with
  | some [t] => some t
  | _ => none

/-- The first layer of a tree. -/
def part : Rlp → Part
  | .bytes b => .bytes b
  | .list items => .list (encodeAll items)

theorem encode_part (t : Rlp) : t.part.encode = t.encode := by
  cases t <;> simp [part, Part.encode, encode]

theorem readAll_cons {fuel : Nat} {b rest : Bytes} {p : Part} (h : part? b = some (p, rest)) :
    readAll? (fuel + 1) b =
      (p.tree? (readAll? fuel)).bind fun t => (readAll? fuel rest).map (t :: ·) := by
  cases b with
  | nil => cases h
  | cons o b =>
    simp only [readAll?, h]
    cases p.tree? (readAll? fuel) with
    | none => rfl
    | some t => cases readAll? fuel rest <;> rfl

theorem readAll_encodeAll {fuel : Nat} {items : List Rlp} (hfuel : (encodeAll items).length ≤ fuel)
    (hlen : (encodeAll items).length < 2 ^ 64) : readAll? fuel (encodeAll items) = some items := by
  induction fuel generalizing items with
  | zero =>
    cases items with
    | nil => rfl
    | cons t items =>
      have hpos := List.length_pos_iff.mpr (encode_ne_nil t.part)
      rw [encode_part] at hpos
      simp only [encodeAll, List.length_append] at hfuel
      omega
  | succ fuel ih =>
    cases items with
    | nil => rfl
    | cons t items =>
      have hpos := List.length_pos_iff.mpr (encode_ne_nil t.part)
      simp only [encodeAll, List.length_append, ← encode_part] at hfuel hlen ⊢
      have htree : t.part.tree? (readAll? fuel) = some t := by
        cases t with
        | bytes b => rfl
        | list inner =>
          have hhead : 0 < (head 0xC0 (encodeAll inner).length).length := by
            unfold head
            split <;> simp
          simp only [part, Part.encode, List.length_append] at hfuel hlen
          have hinner : readAll? fuel (encodeAll inner) = some inner := ih (by omega) (by omega)
          simp only [part, Part.tree?, hinner, Option.map_some]
      rw [readAll_cons (part_encode (by omega) _), htree, ih (by omega) (by omega)]
      rfl

theorem encodeAll_of_readAll {fuel : Nat} {b : Bytes} {items : List Rlp}
    (h : readAll? fuel b = some items) : encodeAll items = b := by
  induction fuel generalizing b items with
  | zero =>
    cases b with
    | nil => exact (Option.some.inj h) ▸ rfl
    | cons o b => cases h
  | succ fuel ih =>
    cases b with
    | nil => exact (Option.some.inj h) ▸ rfl
    | cons o b =>
      cases hpart : part? (o :: b) with
      | none => simp [readAll?, hpart] at h
      | some result =>
        obtain ⟨p, rest⟩ := result
        rw [readAll_cons hpart] at h
        obtain ⟨t, htree, h⟩ := Option.bind_eq_some_iff.mp h
        obtain ⟨more, hmore, rfl⟩ := Option.map_eq_some_iff.mp h
        have hencode : t.encode = p.encode := by
          cases p with
          | bytes b =>
            obtain rfl := Option.some.inj htree
            rw [← encode_part, part]
          | list payload =>
            obtain ⟨inner, hinner, rfl⟩ := Option.map_eq_some_iff.mp htree
            rw [← encode_part, part, ih hinner]
        rw [encodeAll, hencode, ih hmore, ← encode_of_part hpart]

theorem decode_encode {t : Rlp} (h : t.encode.length < 2 ^ 64) : decode? t.encode = some t := by
  have hall : encodeAll [t] = t.encode := by simp [encodeAll]
  have hread : readAll? t.encode.length (encodeAll [t]) = some [t] :=
    readAll_encodeAll (Nat.le_of_eq (congrArg List.length hall)) (by rwa [hall])
  rw [hall] at hread
  simp only [decode?, hread]

/-- The reader accepts encodings only. -/
theorem encode_of_decode {b : Bytes} {t : Rlp} (h : decode? b = some t) : t.encode = b := by
  unfold decode? at h
  split at h
  next u hread =>
    obtain rfl := Option.some.inj h
    simpa [encodeAll] using encodeAll_of_readAll hread
  next => cases h

end Countersign.Rlp
