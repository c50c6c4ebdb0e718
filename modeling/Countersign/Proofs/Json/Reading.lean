import Countersign.Json.Tree
import Countersign.Proofs.Json.Token

/-!
# Reading compact text

The compact text of a value is read as the tree that has the parts of the value in their order.
Whatever the value, no more than the limit of containers may lie inside one another; and each of its
numbers must be one that can be written, which all integers of sixty-four bits are.
-/
namespace Countersign.Json

open Utf8 (octets)

/-! ### Trees of values -/

mutual

/-- The tree that the compact text of a value is read as. -/
def tree : Json → Tree
  | .null => .null
  | .bool b => .bool b
  | .number n => n.read?.elim .unreadable .number
  | .string s => .string s
  | .array items => .array (itemTrees items)
  | .object members => .object (memberTrees members)

/-- The trees of items. -/
def itemTrees : List Json → List Tree
  | [] => []
  | v :: rest => tree v :: itemTrees rest

/-- The trees of members. -/
def memberTrees : List (String × Json) → List (Option String × Tree)
  | [] => []
  | (k, v) :: rest => (some k, tree v) :: memberTrees rest

end

mutual

/-- How many containers lie inside one another. -/
def depth : Json → Nat
  | .array items => itemsDepth items + 1
  | .object members => membersDepth members + 1
  | _ => 0

/-- The greatest depth of items. -/
def itemsDepth : List Json → Nat
  | [] => 0
  | v :: rest => max (depth v) (itemsDepth rest)

/-- The greatest depth of members. -/
def membersDepth : List (String × Json) → Nat
  | [] => 0
  | (_, v) :: rest => max (depth v) (membersDepth rest)

end

mutual

/-- Each number is read as a number. -/
def IsRead : Json → Prop
  | .number n => n.read?.isSome = true
  | .array items => ItemsRead items
  | .object members => MembersRead members
  | _ => True

/-- Each number in items is read as a number. -/
def ItemsRead : List Json → Prop
  | [] => True
  | v :: rest => IsRead v ∧ ItemsRead rest

/-- Each number in members is read as a number. -/
def MembersRead : List (String × Json) → Prop
  | [] => True
  | (_, v) :: rest => IsRead v ∧ MembersRead rest

end

theorem memberTrees_eq (members : List (String × Json)) :
    memberTrees members = members.map fun (k, v) => (some k, v.tree) := by
  induction members with
  | nil => rfl
  | cons m members ih =>
    obtain ⟨k, v⟩ := m
    rw [memberTrees, ih, List.map_cons]

/-! ### Single values -/

variable {rest : Bytes}

theorem skipBlank_cons {o : UInt8} (ho : isBlank o = false) (input : Bytes) :
    skipBlank (o :: input) = o :: input := by
  rw [skipBlank, List.dropWhile_cons_of_neg (by simp [ho])]

theorem value_null (fuel depth : Nat) (shape : Shape) (rest : Bytes) :
    value (fuel + 1) depth shape (octets Json.null.text ++ rest) = ⟨.null, some rest⟩ := by
  have htext : octets Json.null.text = [0x6E, 0x75, 0x6C, 0x6C] := rfl
  rw [htext, List.cons_append, value, skipBlank_cons (by decide)]
  simp [value.word, behind?]

theorem value_bool (fuel depth : Nat) (shape : Shape) (b : Bool) (rest : Bytes) :
    value (fuel + 1) depth shape (octets (Json.bool b).text ++ rest) = ⟨.bool b, some rest⟩ := by
  cases b with
  | true =>
    have htext : octets (Json.bool true).text = [0x74, 0x72, 0x75, 0x65] := rfl
    rw [htext, List.cons_append, value, skipBlank_cons (by decide)]
    simp [value.word, behind?]
  | false =>
    have htext : octets (Json.bool false).text = [0x66, 0x61, 0x6C, 0x73, 0x65] := rfl
    rw [htext, List.cons_append, value, skipBlank_cons (by decide)]
    simp [value.word, behind?]

theorem octets_stringText_append (s : String) (rest : Bytes) :
    octets (stringText s) ++ rest =
      0x22 :: (octets (s.toList.flatMap escaped ++ ['"']) ++ rest) := by
  rw [stringText, List.cons_append, Utf8.octets_cons]
  rfl

theorem value_string (fuel depth : Nat) (shape : Shape) (s : String) (rest : Bytes) :
    value (fuel + 1) depth shape (octets (stringText s) ++ rest) = ⟨.string s, some rest⟩ := by
  obtain ⟨ps, hps, hs⟩ := read_stringText s rest
  rw [octets_stringText_append, value, skipBlank_cons (by decide)]
  simp only [hps, hs, Option.elim]

/-- An octet that begins a number begins nothing else. -/
theorem ne_of_numberHead {o p : UInt8} (ho : o = 0x2D ∨ isDigit o = true)
    (hp : p ≠ 0x2D ∧ isDigit p = false) : o ≠ p := by
  rintro rfl
  rcases ho with ho | ho
  · exact hp.1 ho
  · rw [hp.2] at ho
    cases ho

theorem notBlank_of_numberHead {o : UInt8} (ho : o = 0x2D ∨ isDigit o = true) :
    isBlank o = false := by
  simp only [isBlank, Bool.or_eq_false_iff, beq_eq_false_iff_ne]
  refine ⟨⟨⟨?_, ?_⟩, ?_⟩, ?_⟩ <;> exact ne_of_numberHead ho (by decide)

/-- Nothing else than a number begins with a minus or a digit. -/
theorem value_literal (fuel depth : Nat) (shape : Shape) {o : UInt8} {input left : Bytes}
    {l : Literal} (ho : o = 0x2D ∨ isDigit o = true) (h : literal? (o :: input) = some (l, left)) :
    value (fuel + 1) depth shape (o :: input) = ⟨l.value?.elim .unreadable .number, some left⟩ := by
  rw [value, skipBlank_cons (notBlank_of_numberHead ho)]
  split
  iterate 6
    next heq => exact absurd (List.cons.inj heq).1 (ne_of_numberHead ho (by decide))
  next => rw [h]

theorem value_number (fuel depth : Nat) (shape : Shape) {n : Number} (hn : n.read?.isSome = true)
    (hrest : EndsNumber rest) :
    value (fuel + 1) depth shape (octets n.text ++ rest) = ⟨(Json.number n).tree, some rest⟩ := by
  unfold Number.read? at hn
  split at hn
  next l hl =>
    have hlater := literal_append hrest hl
    obtain ⟨o, more, hinput, ho⟩ := head_of_literal hl
    rw [hinput, List.cons_append] at hlater ⊢
    rw [value_literal fuel depth shape ho hlater, tree, Number.read?, hl]
    rfl
  next => cases hn

/-- The text of a value does not begin with a blank or a closing bracket. -/
theorem exists_head (v : Json) (h : v.IsRead) :
    ∃ o more, octets v.text = o :: more ∧ isBlank o = false ∧ o ≠ 0x5D := by
  cases v with
  | null => exact ⟨_, _, rfl, by decide, by decide⟩
  | bool b => cases b <;> exact ⟨_, _, rfl, by decide, by decide⟩
  | number n =>
    simp only [IsRead, Number.read?] at h
    split at h
    next hl =>
      obtain ⟨o, more, hinput, ho⟩ := head_of_literal hl
      refine ⟨o, more, hinput, notBlank_of_numberHead ho, ne_of_numberHead ho (by decide)⟩
    next => cases h
  | string s => exact ⟨_, _, rfl, by decide, by decide⟩
  | array items => exact ⟨_, _, rfl, by decide, by decide⟩
  | object members => exact ⟨_, _, rfl, by decide, by decide⟩

/-! ### Containers -/

section Containers

variable {fuel depth : Nat} {input behind : Bytes} {t : Tree}

theorem items_last (i : Nat) (h : value fuel depth .any input = ⟨t, some (0x5D :: rest)⟩) :
    items (fuel + 1) depth .any i input = ⟨[t], some rest⟩ := by
  have hitem : Shape.any.item i = .any := rfl
  have hfull : Shape.any.isFull i = false := rfl
  simp only [items, hitem, hfull, h, Bool.false_and, Bool.false_eq_true, if_false, Option.map_some,
    skipBlank_cons (o := 0x5D) rfl]

theorem items_more (i : Nat) {ts : List Tree}
    (h : value fuel depth .any input = ⟨t, some (0x2C :: behind)⟩)
    (hmore : items fuel depth .any (i + 1) behind = ⟨ts, some rest⟩) :
    items (fuel + 1) depth .any i input = ⟨t :: ts, some rest⟩ := by
  have hitem : Shape.any.item i = .any := rfl
  have hfull : Shape.any.isFull i = false := rfl
  simp only [items, hitem, hfull, h, hmore, Bool.false_and, Bool.false_eq_true, if_false,
    Option.map_some, skipBlank_cons (o := 0x2C) rfl]

theorem members_last (k : String) (h : value fuel depth .any input = ⟨t, some (0x7D :: rest)⟩) :
    members (fuel + 1) depth .any (octets (stringText k) ++ 0x3A :: input) =
      ⟨[(some k, t)], some rest⟩ := by
  obtain ⟨ps, hps, hk⟩ := read_stringText k (0x3A :: input)
  have hmember : Shape.any.member (some k) = .any := rfl
  rw [octets_stringText_append, members, skipBlank_cons (by decide)]
  simp only [hps, hk, skipBlank_cons (o := 0x3A) rfl, hmember, h, Option.map_some,
    skipBlank_cons (o := 0x7D) rfl]

theorem members_more (k : String) {ts : List (Option String × Tree)}
    (h : value fuel depth .any input = ⟨t, some (0x2C :: behind)⟩)
    (hmore : members fuel depth .any behind = ⟨ts, some rest⟩) :
    members (fuel + 1) depth .any (octets (stringText k) ++ 0x3A :: input) =
      ⟨(some k, t) :: ts, some rest⟩ := by
  obtain ⟨ps, hps, hk⟩ := read_stringText k (0x3A :: input)
  have hmember : Shape.any.member (some k) = .any := rfl
  rw [octets_stringText_append, members, skipBlank_cons (by decide)]
  simp only [hps, hk, skipBlank_cons (o := 0x3A) rfl, hmember, h, hmore, Option.map_some,
    skipBlank_cons (o := 0x2C) rfl]

theorem value_array {o : UInt8} {ts : List Tree} (ho : isBlank o = false) (hclose : o ≠ 0x5D)
    (hdepth : depth < depthLimit)
    (h : items fuel (depth + 1) .any 0 (o :: input) = ⟨ts, some rest⟩) :
    value (fuel + 1) depth .any (0x5B :: o :: input) = ⟨.array ts, some rest⟩ := by
  rw [value, skipBlank_cons (by decide)]
  simp only [skipBlank_cons ho]
  split
  next heq => exact absurd (List.cons.inj heq).1 hclose
  next => simp only [h, value.contained, hdepth, if_true]

theorem value_object {ts : List (Option String × Tree)} (hdepth : depth < depthLimit)
    (h : members fuel (depth + 1) .any (0x22 :: input) = ⟨ts, some rest⟩) :
    value (fuel + 1) depth .any (0x7B :: 0x22 :: input) = ⟨.object ts, some rest⟩ := by
  rw [value, skipBlank_cons (by decide)]
  simp only [skipBlank_cons (o := 0x22) rfl]
  split
  next heq => exact absurd (List.cons.inj heq).1 (by decide)
  next => simp only [h, value.contained, hdepth, if_true]

theorem value_noItems (fuel : Nat) (shape : Shape) (hdepth : depth < depthLimit) (rest : Bytes) :
    value (fuel + 1) depth shape (octets (Json.array []).text ++ rest) =
      ⟨.array [], some rest⟩ := by
  have htext : octets (Json.array []).text = [0x5B, 0x5D] := rfl
  rw [htext, List.cons_append, value, skipBlank_cons (by decide)]
  simp [skipBlank_cons (by decide : isBlank 0x5D = false), value.contained, hdepth]

theorem value_noMembers (fuel : Nat) (shape : Shape) (hdepth : depth < depthLimit) (rest : Bytes) :
    value (fuel + 1) depth shape (octets (Json.object []).text ++ rest) =
      ⟨.object [], some rest⟩ := by
  have htext : octets (Json.object []).text = [0x7B, 0x7D] := rfl
  rw [htext, List.cons_append, value, skipBlank_cons (by decide)]
  simp [skipBlank_cons (by decide : isBlank 0x7D = false), value.contained, hdepth]

end Containers

/-! ### Whole values -/

theorem endsNumber_nil : EndsNumber [] := nofun

theorem endsNumber_cons {o : UInt8} (ho : isDigit o = false ∧ o ≠ 0x2E ∧ o ≠ 0x65 ∧ o ≠ 0x45)
    (rest : Bytes) : EndsNumber (o :: rest) := by
  intro p hp
  obtain rfl := Option.some.inj hp
  exact ho

theorem octets_array (items : List Json) :
    octets (Json.array items).text = 0x5B :: (octets (itemsText items) ++ [0x5D]) := by
  rw [text, Utf8.octets_append, Utf8.octets_cons]
  rfl

theorem octets_object (members : List (String × Json)) :
    octets (Json.object members).text = 0x7B :: (octets (membersText members) ++ [0x7D]) := by
  rw [text, Utf8.octets_append, Utf8.octets_cons]
  rfl

theorem octets_items (v w : Json) (vs : List Json) :
    octets (itemsText (v :: w :: vs)) = octets v.text ++ 0x2C :: octets (itemsText (w :: vs)) := by
  rw [itemsText, Utf8.octets_append, Utf8.octets_cons]
  · rfl
  · exact nofun

/-- The text of items begins as that of the first one. -/
theorem octets_items_head (v : Json) (vs : List Json) :
    ∃ more, octets (itemsText (v :: vs)) = octets v.text ++ more := by
  cases vs with
  | nil => exact ⟨[], by rw [itemsText, List.append_nil]⟩
  | cons w vs => exact ⟨_, octets_items v w vs⟩

theorem octets_member (k : String) (v : Json) :
    octets (membersText [(k, v)]) = octets (stringText k) ++ 0x3A :: octets v.text := by
  rw [membersText, Utf8.octets_append, Utf8.octets_cons]
  rfl

theorem octets_members (k : String) (v : Json) (m : String × Json) (ms : List (String × Json)) :
    octets (membersText ((k, v) :: m :: ms)) =
      octets (stringText k) ++
        0x3A :: (octets v.text ++ 0x2C :: octets (membersText (m :: ms))) := by
  rw [membersText, Utf8.octets_append, Utf8.octets_append, Utf8.octets_cons, Utf8.octets_cons,
    List.append_assoc]
  · rfl
  · exact nofun

/-- The text of members begins with the quote of a name. -/
theorem octets_members_head (k : String) (v : Json) (ms : List (String × Json)) :
    ∃ more, octets (membersText ((k, v) :: ms)) = 0x22 :: more := by
  cases ms with
  | nil => exact ⟨_, octets_member k v⟩
  | cons m ms => exact ⟨_, octets_members k v m ms⟩

mutual

/-- The compact text of a value is read as its tree, up to what follows. Two steps for each octet
are enough. -/
theorem value_text (v : Json) {fuel depth : Nat} {rest : Bytes} (hread : v.IsRead)
    (hdepth : depth + v.depth ≤ depthLimit) (hrest : EndsNumber rest)
    (hfuel : 2 * (octets v.text).length ≤ fuel) :
    value fuel depth .any (octets v.text ++ rest) = ⟨v.tree, some rest⟩ := by
  obtain ⟨o, more, hhead, -⟩ := exists_head v hread
  have hpos : 0 < (octets v.text).length := by simp [hhead]
  obtain ⟨fuel, rfl⟩ : ∃ n, fuel = n + 1 := ⟨fuel - 1, by omega⟩
  match v with
  | .null => exact value_null fuel depth .any rest
  | .bool b => exact value_bool fuel depth .any b rest
  | .number n => exact value_number fuel depth .any hread hrest
  | .string s => exact value_string fuel depth .any s rest
  | .array [] => exact value_noItems fuel .any (by simp only [Json.depth] at hdepth; omega) rest
  | .array (v :: vs) =>
    rw [octets_array] at hfuel ⊢
    simp only [Json.depth, List.length_cons, List.length_append, List.length_nil] at hdepth hfuel
    have hitems : items fuel (depth + 1) .any 0 (octets (itemsText (v :: vs)) ++ 0x5D :: rest) =
        ⟨itemTrees (v :: vs), some rest⟩ :=
      items_text 0 v vs hread (by omega) (by omega)
    obtain ⟨o, front, hfront, hblank, hclose⟩ := exists_head v hread.1
    obtain ⟨behind, hbehind⟩ := octets_items_head v vs
    rw [hbehind, hfront, List.cons_append, List.cons_append] at hitems
    rw [hbehind, hfront, List.cons_append, List.cons_append, List.cons_append, List.cons_append,
      List.append_assoc]
    exact value_array hblank hclose (by omega) hitems
  | .object [] => exact value_noMembers fuel .any (by simp only [Json.depth] at hdepth; omega) rest
  | .object ((k, v) :: ms) =>
    rw [octets_object] at hfuel ⊢
    simp only [Json.depth, List.length_cons, List.length_append, List.length_nil] at hdepth hfuel
    have hmembers : members fuel (depth + 1) .any
        (octets (membersText ((k, v) :: ms)) ++ 0x7D :: rest) =
          ⟨memberTrees ((k, v) :: ms), some rest⟩ :=
      members_text k v ms hread (by omega) (by omega)
    obtain ⟨behind, hbehind⟩ := octets_members_head k v ms
    rw [hbehind, List.cons_append] at hmembers
    rw [hbehind, List.cons_append, List.cons_append, List.cons_append, List.append_assoc]
    exact value_object (by omega) hmembers
termination_by fuel

/-- Items are read up to the bracket behind them. -/
theorem items_text (i : Nat) (v : Json) (vs : List Json) {fuel depth : Nat} {rest : Bytes}
    (hread : ItemsRead (v :: vs)) (hdepth : depth + itemsDepth (v :: vs) ≤ depthLimit)
    (hfuel : 2 * (octets (itemsText (v :: vs))).length + 1 ≤ fuel) :
    items fuel depth .any i (octets (itemsText (v :: vs)) ++ 0x5D :: rest) =
      ⟨itemTrees (v :: vs), some rest⟩ := by
  obtain ⟨fuel, rfl⟩ : ∃ n, fuel = n + 1 := ⟨fuel - 1, by omega⟩
  simp only [itemsDepth] at hdepth
  match vs with
  | [] =>
    rw [itemsText] at hfuel ⊢
    refine items_last i (value_text v hread.1 (by omega) ?_ (by omega))
    exact endsNumber_cons (by decide) rest
  | w :: vs =>
    rw [octets_items] at hfuel ⊢
    simp only [List.length_append, List.length_cons] at hfuel
    rw [List.append_assoc, List.cons_append]
    refine items_more i (value_text v hread.1 (by omega) ?_ (by omega))
      (items_text (i + 1) w vs hread.2 (by omega) (by omega))
    exact endsNumber_cons (by decide) _
termination_by fuel

/-- Members are read up to the brace behind them. -/
theorem members_text (k : String) (v : Json) (ms : List (String × Json)) {fuel depth : Nat}
    {rest : Bytes} (hread : MembersRead ((k, v) :: ms))
    (hdepth : depth + membersDepth ((k, v) :: ms) ≤ depthLimit)
    (hfuel : 2 * (octets (membersText ((k, v) :: ms))).length + 1 ≤ fuel) :
    members fuel depth .any (octets (membersText ((k, v) :: ms)) ++ 0x7D :: rest) =
      ⟨memberTrees ((k, v) :: ms), some rest⟩ := by
  obtain ⟨fuel, rfl⟩ : ∃ n, fuel = n + 1 := ⟨fuel - 1, by omega⟩
  simp only [membersDepth] at hdepth
  match ms with
  | [] =>
    rw [octets_member] at hfuel ⊢
    simp only [List.length_append, List.length_cons] at hfuel
    rw [List.append_assoc, List.cons_append]
    refine members_last k (value_text v hread.1 (by omega) ?_ (by omega))
    exact endsNumber_cons (by decide) rest
  | (l, w) :: ms =>
    rw [octets_members] at hfuel ⊢
    simp only [List.length_append, List.length_cons] at hfuel
    rw [List.append_assoc, List.cons_append, List.append_assoc, List.cons_append]
    refine members_more k (value_text v hread.1 (by omega) ?_ (by omega))
      (members_text l w ms hread.2 (by omega) (by omega))
    exact endsNumber_cons (by decide) _
termination_by fuel

end

/-- The compact text of a value with no more than the limit of containers inside one another is read
as its tree, and nothing is left of it. -/
theorem read_render (v : Json) (hread : v.IsRead) (hdepth : v.depth ≤ depthLimit) :
    read .any (Utf8.encode v.render) = ⟨v.tree, true⟩ := by
  have hvalue : value (3 * (octets v.text).length + 3) 0 .any (octets v.text ++ []) =
      ⟨v.tree, some []⟩ :=
    value_text v hread (by omega) endsNumber_nil (by omega)
  rw [List.append_nil] at hvalue
  rw [render, Utf8.encode_ofList, read, hvalue]
  rfl

/-! ### Values of trees -/

/-- A number that is an integer of sixty-four bits, with a sign if it is negative. -/
def Number.IsInteger : Number → Prop
  | .natural n => n < 2 ^ 64
  | .negative n => 0 < n ∧ n ≤ 2 ^ 63
  | .float _ => False

mutual

/-- A free-form value without doubles: the names in each object ascend, and each number is an
integer. -/
def IsCanonical : Json → Prop
  | .number n => n.IsInteger
  | .array items => ItemsCanonical items
  | .object members => (members.map Prod.fst).Pairwise (· < ·) ∧ MembersCanonical members
  | _ => True

/-- Each item is such a value. -/
def ItemsCanonical : List Json → Prop
  | [] => True
  | v :: rest => IsCanonical v ∧ ItemsCanonical rest

/-- Each member has such a value. -/
def MembersCanonical : List (String × Json) → Prop
  | [] => True
  | (_, v) :: rest => IsCanonical v ∧ MembersCanonical rest

end

theorem Number.IsInteger.read {n : Number} (h : n.IsInteger) : n.read? = some n := by
  cases n with
  | natural n => exact read_natural h
  | negative n => exact read_negative h.1 h.2
  | float x => cases h

mutual

theorem IsCanonical.isRead : ∀ {v : Json}, v.IsCanonical → v.IsRead
  | .null, _ => trivial
  | .bool _, _ => trivial
  | .number _, h => by rw [IsRead, Number.IsInteger.read h]; rfl
  | .string _, _ => trivial
  | .array _, h => ItemsCanonical.isRead h
  | .object _, h => MembersCanonical.isRead h.2

theorem ItemsCanonical.isRead : ∀ {vs : List Json}, ItemsCanonical vs → ItemsRead vs
  | [], _ => trivial
  | _ :: _, h => ⟨IsCanonical.isRead h.1, ItemsCanonical.isRead h.2⟩

theorem MembersCanonical.isRead :
    ∀ {ms : List (String × Json)}, MembersCanonical ms → MembersRead ms
  | [], _ => trivial
  | _ :: _, h => ⟨IsCanonical.isRead h.1, MembersCanonical.isRead h.2⟩

end

/-- A name behind all others is added at the end. -/
theorem insertMember_append {name : String} {before : List (String × Json)}
    (h : ∀ k ∈ before.map Prod.fst, k < name) (v : Json) :
    insertMember name v before = before ++ [(name, v)] := by
  induction before with
  | nil => rfl
  | cons m before ih =>
    obtain ⟨k, w⟩ := m
    obtain ⟨hk, hbefore⟩ := List.forall_mem_cons.mp h
    have hnot : ¬name < k := String.lt_asymm hk
    have hne : name ≠ k := by
      rintro rfl
      exact hnot hk
    rw [insertMember, if_neg hnot, if_neg hne, ih hbefore, List.cons_append]

mutual

/-- The tree of a free-form value without doubles has that value. -/
theorem value_tree (v : Json) (h : v.IsCanonical) : v.tree.value? = some v := by
  match v with
  | .null => rfl
  | .bool b => rfl
  | .number n => rw [tree, Number.IsInteger.read h]; rfl
  | .string s => rfl
  | .array vs => rw [tree, Tree.value?, itemValues_trees vs h]; rfl
  | .object ms => rw [tree, Tree.value?, memberValues_trees [] ms h.1 h.2]; rfl

theorem itemValues_trees (vs : List Json) (h : ItemsCanonical vs) :
    Tree.itemValues? (itemTrees vs) = some vs := by
  match vs with
  | [] => rfl
  | v :: vs =>
    rw [itemTrees, Tree.itemValues?, value_tree v h.1, itemValues_trees vs h.2]
    rfl

theorem memberValues_trees (before ms : List (String × Json))
    (hnames : ((before ++ ms).map Prod.fst).Pairwise (· < ·)) (h : MembersCanonical ms) :
    Tree.memberValues? before (memberTrees ms) = some (before ++ ms) := by
  match ms with
  | [] => rw [List.append_nil]; rfl
  | (k, v) :: ms =>
    have hk : ∀ l ∈ before.map Prod.fst, l < k := by
      rw [List.map_append, List.pairwise_append] at hnames
      exact fun l hl => hnames.2.2 l hl k List.mem_cons_self
    have hsplit : before ++ (k, v) :: ms = (before ++ [(k, v)]) ++ ms := by simp
    rw [hsplit] at hnames ⊢
    rw [memberTrees, Tree.memberValues?, value_tree v h.1, ← memberValues_trees _ ms hnames h.2,
      ← insertMember_append hk]
    rfl

end

mutual

/-- The tree of a value whose numbers are read has a value. -/
theorem sound_tree (v : Json) (h : v.IsRead) : v.tree.value?.isSome = true := by
  match v with
  | .null => rfl
  | .bool b => rfl
  | .number n =>
    obtain ⟨m, hm⟩ := Option.isSome_iff_exists.mp h
    rw [tree, hm]
    rfl
  | .string s => rfl
  | .array vs => rw [tree, Tree.value?, Option.isSome_map, soundItems_trees vs h]
  | .object ms => rw [tree, Tree.value?, Option.isSome_map, soundMembers_trees [] ms h]

theorem soundItems_trees (vs : List Json) (h : ItemsRead vs) :
    (Tree.itemValues? (itemTrees vs)).isSome = true := by
  match vs with
  | [] => rfl
  | v :: vs =>
    obtain ⟨w, hw⟩ := Option.isSome_iff_exists.mp (sound_tree v h.1)
    obtain ⟨ws, hws⟩ := Option.isSome_iff_exists.mp (soundItems_trees vs h.2)
    rw [itemTrees, Tree.itemValues?, hw, hws]
    rfl

theorem soundMembers_trees (before ms : List (String × Json)) (h : MembersRead ms) :
    (Tree.memberValues? before (memberTrees ms)).isSome = true := by
  match ms with
  | [] => rfl
  | (k, v) :: ms =>
    obtain ⟨w, hw⟩ := Option.isSome_iff_exists.mp (sound_tree v h.1)
    rw [memberTrees, Tree.memberValues?, hw]
    exact soundMembers_trees (insertMember k w before) ms h.2

end

end Countersign.Json
