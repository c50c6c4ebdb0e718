import Countersign.Proofs.Json.Members

/-!
# Values that come back

A value comes back from its JSON form if its decoder takes the members of that form, in any order
and with others among them. Decoders are followed by how they are put together: a record by its
members, a tagged choice by the choice, a list by its items.
-/
namespace Countersign.Json

/-! ### Members and their trees -/

/-- The trees of members. -/
def treesOf (members : List (String × Json)) : List (String × Tree) :=
  members.map fun m => (m.1, m.2.tree)

theorem map_named_treesOf (members : List (String × Json)) :
    (treesOf members).map named = memberTrees members := by
  rw [treesOf, List.map_map, memberTrees_eq]
  rfl

theorem lookup_treesOf (members : List (String × Json)) (name : String) :
    (treesOf members).lookup name = (members.lookup name).map tree := by
  induction members with
  | nil => rfl
  | cons m members ih =>
    obtain ⟨k, v⟩ := m
    simp only [treesOf, List.map_cons, List.lookup_cons] at ih ⊢
    cases name == k with
    | true => rfl
    | false => exact ih

theorem membersRead_iff {members : List (String × Json)} :
    MembersRead members ↔ ∀ m ∈ members, m.2.IsRead := by
  induction members with
  | nil => exact ⟨nofun, fun _ => trivial⟩
  | cons m members ih => rw [MembersRead, List.forall_mem_cons, ih]

theorem itemsRead_iff {items : List Json} : ItemsRead items ↔ ∀ v ∈ items, v.IsRead := by
  induction items with
  | nil => exact ⟨nofun, fun _ => trivial⟩
  | cons v items ih => rw [ItemsRead, List.forall_mem_cons, ih]

/-! ### Parts -/

theorem tree_nat {n : Nat} (h : n < 2 ^ 64) : (Json.nat n).tree = .number (.natural n) := by
  rw [nat, tree, read_natural h]
  rfl

theorem isRead_nat {n : Nat} (h : n < 2 ^ 64) : (Json.nat n).IsRead := by
  rw [nat, IsRead, read_natural h]
  rfl

theorem word_nat {bits : Nat} (hbits : bits ≤ 64) (n : Word bits) :
    Decoder.word bits (Json.nat n).tree = .ok n := by
  have hn : (n : Nat) < 2 ^ 64 := Nat.lt_of_lt_of_le n.isLt (Nat.pow_le_pow_right (by decide) hbits)
  rw [tree_nat hn, Decoder.word, Decoder.natural, if_pos n.isLt, ok_bind, Word.ofNat?,
    dif_pos n.isLt]
  rfl

theorem free_tree {v : Json} (h : v.IsCanonical) : Decoder.free v.tree = .ok v := by
  rw [Decoder.free, value_tree v h]
  rfl

theorem list_trees {α : Type} {d : Decoder α} {toJson : α → Json} {as : List α}
    (h : ∀ a ∈ as, d (toJson a).tree = .ok a) :
    Decoder.list d (Json.array (as.map toJson)).tree = .ok as := by
  have hitems : Decoder.items d (itemTrees (as.map toJson)) = .ok as := by
    induction as with
    | nil => rfl
    | cons a as ih =>
      obtain ⟨ha, has⟩ := List.forall_mem_cons.mp h
      rw [List.map_cons, itemTrees, Decoder.items, ha, ih has]
      rfl
  exact hitems

theorem Takes.map {α β : Type} {d : Decoder α} {known : List String} {base : List (String × Tree)}
    {a : α} (h : Takes d known base a) (f : α → β) :
    Takes (fun t => (d t).map f) known base (f a) := by
  intro all hall
  exact congrArg (Except.map f) (h all hall)

/-- An object is taken as it stands. -/
theorem Takes.tree {α : Type} {d : Decoder α} {known : List String} {members : List (String × Json)}
    {a : α} (h : Takes d known (treesOf members) a) : d (Json.object members).tree = .ok a := by
  have hself := h _ (extends_self known _)
  rwa [map_named_treesOf] at hself

/-! ### Records and choices -/

/-- What is looked up among members is found among their trees. -/
theorem reads_member {α : Type} {members : List (String × Json)} {name : String} {d : Decoder α}
    {v : Json} {a : α} (hv : members.lookup name = some v) (hd : d v.tree = .ok a) :
    (Record.required name d).Reads (fun name => (treesOf members).lookup name) a :=
  Record.reads_required (by rw [lookup_treesOf, hv]; rfl) hd

/-- A member that may be missing is read as what it was. -/
theorem reads_present {α : Type} {members : List (String × Json)} {name : String}
    {d : Decoder (Option α)} {toJson : α → Json} {v : Option α}
    (hv : members.lookup name = v.map toJson) (hd : ∀ a, d (toJson a).tree = .ok (some a)) :
    (Record.optional name d none).Reads (fun name => (treesOf members).lookup name) v := by
  refine Record.reads_optional ?_
  rw [lookup_treesOf, hv]
  cases v with
  | none => exact .inr ⟨rfl, rfl⟩
  | some a => exact .inl ⟨_, rfl, hd a⟩

/-- A record takes members that are all declared, each once. -/
theorem takes_record {α : Type} {r : Record α} {known : List String} (names : List String)
    {members : List (String × Json)} {a : α}
    (h : r.Reads (fun name => (treesOf members).lookup name) a)
    (hfields : r.fields.map Field.name = names) (hknown : names ⊆ known)
    (hmembers : members.map Prod.fst ⊆ names) (hnames : (members.map Prod.fst).Nodup) :
    Takes r.decode known (treesOf members) a := by
  have hfst : (treesOf members).map Prod.fst = members.map Prod.fst := by
    rw [treesOf, List.map_map]
    rfl
  refine Record.takes h (fun f hf => hknown (hfields ▸ List.mem_map_of_mem hf)) (fun m hm => ?_)
    (hfst ▸ hnames)
  rw [hfields]
  exact hmembers (hfst ▸ List.mem_map_of_mem hm)

/-- A tagged choice takes its tag and what the choice takes. -/
theorem takes_choice {α : Type} {tag kind : String} {choices : List (String × Decoder α)}
    {d : Decoder α} {known : List String} {members : List (String × Json)} {a : α}
    (hchoice : choices.lookup kind = some d) (htag : tag ∈ known)
    (hmembers : ∀ m ∈ members, m.1 ≠ tag ∧ m.2.IsRead) (hd : Takes d known (treesOf members) a) :
    Takes (tagged tag choices) known (treesOf ((tag, .string kind) :: members)) a := by
  refine takes_tagged hchoice htag (fun m hm => ?_) hd
  obtain ⟨m, hmem, rfl⟩ := List.mem_map.mp hm
  exact ⟨(hmembers m hmem).1, sound_tree m.2 (hmembers m hmem).2⟩

/-! ### Round trips -/

/-- A value comes back from its JSON form, which is an object with these members. They may stand in
any order with others among them, whose names are not known; in the compact text of the object, or
in any text that is read as such an object. -/
structure RoundTrips {α : Type} (d : Decoder α) (known : List String)
    (members : List (String × Json)) (a : α) : Prop where
  compact : ∀ ms extras : List (String × Json), ms.Perm (members ++ extras) →
    (∀ e ∈ extras, e.1 ∉ known ∧ e.2.IsRead) → (Json.object ms).depth ≤ depthLimit →
    decodeText d (Json.object ms).render = .ok a
  spelled : ∀ (input : Bytes) (all : List (String × Tree)),
    (read .any input).root = .object (all.map named) → (read .any input).ended = true →
    Extends known (treesOf members) all → decodeDocument d input = .ok a

theorem roundTrips_of_takes {α : Type} {d : Decoder α} {known : List String}
    {members : List (String × Json)} {a : α} (h : Takes d known (treesOf members) a)
    (hread : ∀ m ∈ members, m.2.IsRead) : RoundTrips d known members a := by
  have hspelled (input : Bytes) (all : List (String × Tree))
      (hroot : (read .any input).root = .object (all.map named))
      (hended : (read .any input).ended = true)
      (hall : Extends known (treesOf members) all) : decodeDocument d input = .ok a := by
    rw [decodeDocument, decodeShaped, hroot, h all hall, ok_bind, if_pos hended]
  refine ⟨fun ms extras hperm hextras hdepth => ?_, hspelled⟩
  have hms : (Json.object ms).IsRead := membersRead_iff.mpr fun m hm =>
    (List.mem_append.mp (hperm.mem_iff.mp hm)).elim (hread m) fun he => (hextras m he).2
  have hread := read_render (.object ms) hms hdepth
  refine hspelled _ (treesOf ms) ?_ (by rw [hread]) ⟨treesOf extras, ?_, ?_⟩
  · rw [hread, map_named_treesOf]
    rfl
  · rw [treesOf, treesOf, treesOf, ← List.map_append]
    exact hperm.map _
  · intro e he
    obtain ⟨m, hm, rfl⟩ := List.mem_map.mp he
    exact ⟨(hextras m hm).1, sound_tree m.2 (hextras m hm).2⟩

end Countersign.Json
