import Countersign.Proofs.Json.RoundTrip

/-!
# Canonical text

The text of a canonical value has no blank outside of its strings, and the names in each of its
objects ascend. Reading gives the value back, so no two such values have the same text: whatever a
string holds, it ends at its own quote.
-/
namespace Countersign.Json

open Utf8 (octets)

/-! ### Blanks -/

mutual

/-- The octets of a text outside of its strings. -/
def bare : Bytes → Bytes
  | [] => []
  | 0x22 :: rest => bareInside rest
  | o :: rest => o :: bare rest

/-- The octets outside of strings, from the inside of one on. -/
def bareInside : Bytes → Bytes
  | [] => []
  | 0x22 :: rest => bare rest
  | 0x5C :: _ :: rest => bareInside rest
  | _ :: rest => bareInside rest

end

/-- No blank stands outside of a string. -/
def IsCompact (input : Bytes) : Prop := ∀ o ∈ bare input, isBlank o = false

/-- The octets end no string and leave none open, and no blank is among them outside of strings. -/
def IsSolid (os : Bytes) : Prop :=
  ∀ rest, ∃ marks, bare (os ++ rest) = marks ++ bare rest ∧ ∀ o ∈ marks, isBlank o = false

namespace IsSolid

variable {os more : Bytes}

theorem isCompact (h : IsSolid os) : IsCompact os := by
  obtain ⟨marks, hbare, hmarks⟩ := h []
  rw [List.append_nil, bare, List.append_nil] at hbare
  rw [IsCompact, hbare]
  exact hmarks

theorem append (h : IsSolid os) (hmore : IsSolid more) : IsSolid (os ++ more) := by
  intro rest
  obtain ⟨marks, hbare, hmarks⟩ := h (more ++ rest)
  obtain ⟨marks', hbare', hmarks'⟩ := hmore rest
  refine ⟨marks ++ marks', ?_, List.forall_mem_append.mpr ⟨hmarks, hmarks'⟩⟩
  rw [List.append_assoc, hbare, hbare', List.append_assoc]

theorem of_marks (h : ∀ o ∈ os, o ≠ 0x22 ∧ isBlank o = false) : IsSolid os := by
  intro rest
  refine ⟨os, ?_, fun o ho => (h o ho).2⟩
  induction os with
  | nil => rfl
  | cons o os ih =>
    obtain ⟨ho, hos⟩ := List.forall_mem_cons.mp h
    rw [List.cons_append, bare, ih hos, List.cons_append]
    exact ho.1

end IsSolid

/-! ### Strings -/

theorem bareInside_plain {os : Bytes} (h : ∀ o ∈ os, IsPlain o) (rest : Bytes) :
    bareInside (os ++ rest) = bareInside rest := by
  induction os with
  | nil => rfl
  | cons o os ih =>
    obtain ⟨⟨hquote, hslash, -⟩, hos⟩ := List.forall_mem_cons.mp h
    rw [List.cons_append, bareInside, ih hos]
    · exact hquote
    · intro _ _ ho
      exact absurd ho hslash

theorem bareInside_escape {o : UInt8} {os : Bytes} (h : ∀ o ∈ os, IsPlain o) (rest : Bytes) :
    bareInside (0x5C :: o :: os ++ rest) = bareInside rest := by
  rw [List.cons_append, List.cons_append, bareInside, bareInside_plain h]

/-- No character ends the string that it stands in. -/
theorem bareInside_escaped (c : Char) (rest : Bytes) :
    bareInside (octets (escaped c) ++ rest) = bareInside rest := by
  have hshort (d : Char) (o : UInt8) (hd : octets ['\\', d] = [0x5C, o]) :
      bareInside (octets ['\\', d] ++ rest) = bareInside rest := by
    rw [hd]
    exact bareInside_escape (List.forall_mem_nil IsPlain) rest
  unfold escaped
  split
  next => exact hshort '"' 0x22 (by decide)
  next hquote =>
  split
  next => exact hshort '\\' 0x5C (by decide)
  next hslash =>
  split
  next => exact hshort 'b' 0x62 (by decide)
  split
  next => exact hshort 't' 0x74 (by decide)
  split
  next => exact hshort 'n' 0x6E (by decide)
  split
  next => exact hshort 'f' 0x66 (by decide)
  split
  next => exact hshort 'r' 0x72 (by decide)
  split
  next hcontrol =>
    have hdigit : ∀ k : Fin 16, Nat.digitChar k ≠ '"' ∧ Nat.digitChar k ≠ '\\' ∧
        ¬(Nat.digitChar k).toNat < 0x20 := by
      decide
    have hplain {k : Nat} (hk : k < 16) :
        ∀ o ∈ String.utf8EncodeChar (Nat.digitChar k), IsPlain o := by
      obtain ⟨hquote, hslash, hcontrol⟩ := hdigit ⟨k, hk⟩
      exact plain_of_encodeChar hquote hslash hcontrol
    have hescape : octets ['\\', 'u'] = [0x5C, 0x75] := by decide
    change bareInside (octets (['\\', 'u'] ++ ['0', '0', _, _]) ++ rest) = _
    rw [Utf8.octets_append, hescape]
    refine bareInside_escape (fun o ho => ?_) rest
    obtain ⟨d, hd, ho⟩ := List.mem_flatMap.mp ho
    simp only [List.mem_cons, List.not_mem_nil, or_false] at hd
    rcases hd with rfl | rfl | rfl | rfl
    · exact hplain (by decide : 0 < 16) o ho
    · exact hplain (by decide : 0 < 16) o ho
    · exact hplain (by omega : c.toNat / 16 < 16) o ho
    · exact hplain (by omega : c.toNat % 16 < 16) o ho
  next hcontrol =>
    rw [Utf8.octets_cons, Utf8.octets_nil, List.append_nil]
    exact bareInside_plain (plain_of_encodeChar hquote hslash hcontrol) rest

/-- A string is closed by its last quote. -/
theorem isSolid_string (s : String) : IsSolid (octets (stringText s)) := by
  intro rest
  refine ⟨[], ?_, nofun⟩
  have hinside (cs : List Char) :
      bareInside (octets (cs.flatMap escaped ++ ['"']) ++ rest) = bare rest := by
    induction cs with
    | nil => rfl
    | cons c cs ih =>
      rw [List.flatMap_cons, List.append_assoc, Utf8.octets_append, List.append_assoc,
        bareInside_escaped, ih]
  rw [octets_stringText_append, bare, hinside, List.nil_append]

/-! ### Whole values -/

theorem isSolid_mark {o : UInt8} (h : o ≠ 0x22 ∧ isBlank o = false) : IsSolid [o] :=
  .of_marks fun _ hp => List.mem_singleton.mp hp ▸ h

theorem isSolid_number {n : Number} (h : n.IsInteger) : IsSolid (octets n.text) := by
  have hdigit : ∀ d : Fin 10, digitOctet d.val ≠ 0x22 ∧ isBlank (digitOctet d.val) = false := by
    decide
  have hnatural (n : Nat) : IsSolid (octets (Nat.toDigits 10 n)) := by
    obtain ⟨d, ds, hoctets, hdigits, -, -⟩ := exists_digits n
    rw [hoctets]
    refine .of_marks fun o ho => ?_
    obtain ⟨e, he, rfl⟩ := List.mem_map.mp ho
    exact hdigit ⟨e, hdigits e he⟩
  cases n with
  | natural n => exact hnatural n
  | negative n => exact (isSolid_mark (by decide)).append (hnatural n)
  | float x => cases h

mutual

/-- Blanks stand inside of strings alone. -/
theorem isSolid_text (v : Json) (h : v.IsCanonical) : IsSolid (octets v.text) := by
  match v with
  | .null => exact .of_marks (by decide +kernel)
  | .bool true => exact .of_marks (by decide +kernel)
  | .bool false => exact .of_marks (by decide +kernel)
  | .number n => exact isSolid_number h
  | .string s => exact isSolid_string s
  | .array vs =>
    rw [octets_array]
    exact (isSolid_mark (by decide)).append ((isSolid_items vs h).append (isSolid_mark (by decide)))
  | .object ms =>
    rw [octets_object]
    exact (isSolid_mark (by decide)).append
      ((isSolid_members ms h.2).append (isSolid_mark (by decide)))

theorem isSolid_items (vs : List Json) (h : ItemsCanonical vs) :
    IsSolid (octets (itemsText vs)) := by
  match vs with
  | [] => exact .of_marks nofun
  | [v] => exact isSolid_text v h.1
  | v :: w :: vs =>
    rw [octets_items]
    exact (isSolid_text v h.1).append
      ((isSolid_mark (by decide)).append (isSolid_items (w :: vs) h.2))

theorem isSolid_members (ms : List (String × Json)) (h : MembersCanonical ms) :
    IsSolid (octets (membersText ms)) := by
  match ms with
  | [] => exact .of_marks nofun
  | [(k, v)] =>
    rw [octets_member]
    exact (isSolid_string k).append ((isSolid_mark (by decide)).append (isSolid_text v h.1))
  | (k, v) :: m :: ms =>
    rw [octets_members]
    exact (isSolid_string k).append ((isSolid_mark (by decide)).append ((isSolid_text v h.1).append
      ((isSolid_mark (by decide)).append (isSolid_members (m :: ms) h.2))))

end

theorem isCompact_render {v : Json} (h : v.IsCanonical) : IsCompact (Utf8.encode v.render) := by
  rw [render, Utf8.encode_ofList]
  exact (isSolid_text v h).isCompact

/-! ### The order of names -/

mutual

/-- The names of each object ascend, in the order of the text. -/
def Tree.Ascends : Tree → Prop
  | .array items => ItemsAscend items
  | .object members =>
    (∃ names : List String, members.map Prod.fst = names.map some ∧ names.Pairwise (· < ·)) ∧
      MembersAscend members
  | _ => True

/-- The names ascend in each item. -/
def ItemsAscend : List Tree → Prop
  | [] => True
  | t :: rest => t.Ascends ∧ ItemsAscend rest

/-- The names ascend in each member. -/
def MembersAscend : List (Option String × Tree) → Prop
  | [] => True
  | (_, t) :: rest => t.Ascends ∧ MembersAscend rest

end

mutual

theorem ascends_tree (v : Json) (h : v.IsCanonical) : v.tree.Ascends := by
  match v with
  | .null | .bool _ | .string _ => trivial
  | .number n =>
    rw [tree, Number.IsInteger.read h]
    trivial
  | .array vs => exact ascend_items vs h
  | .object ms =>
    refine ⟨⟨ms.map Prod.fst, ?_, h.1⟩, ascend_members ms h.2⟩
    rw [memberTrees_eq, List.map_map, List.map_map]
    rfl

theorem ascend_items (vs : List Json) (h : ItemsCanonical vs) : ItemsAscend (itemTrees vs) := by
  match vs with
  | [] => trivial
  | v :: vs => exact ⟨ascends_tree v h.1, ascend_items vs h.2⟩

theorem ascend_members (ms : List (String × Json)) (h : MembersCanonical ms) :
    MembersAscend (memberTrees ms) := by
  match ms with
  | [] => trivial
  | (_, v) :: ms => exact ⟨ascends_tree v h.1, ascend_members ms h.2⟩

end

/-! ### Reading back -/

variable {v w : Json}

theorem decode_render (h : v.IsCanonical) (hdepth : v.depth ≤ depthLimit) :
    decodeDocument Decoder.free (Utf8.encode v.render) = .ok v := by
  rw [decodeDocument, decodeShaped, read_render v h.isRead hdepth, free_tree h]
  rfl

/-- Two canonical values with the same text are the same. -/
theorem encode_render_inj (hv : v.IsCanonical) (hvdepth : v.depth ≤ depthLimit) (hw : w.IsCanonical)
    (hwdepth : w.depth ≤ depthLimit) (h : Utf8.encode v.render = Utf8.encode w.render) : v = w := by
  have hread := decode_render hv hvdepth
  rw [h, decode_render hw hwdepth] at hread
  exact (Except.ok.inj hread).symm

end Countersign.Json
