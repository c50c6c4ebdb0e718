import Countersign.Json.Quantity
import Countersign.Proofs.Json.Reading
import Countersign.Proofs.Lookup

/-!
# Members in any order

A decoder of an object finds its members wherever they stand, and passes over those that it does not
know as long as they have values. For a record that is so because what was collected is looked up by
name; a tag is taken out of the object, and what is left of it is decoded by the choice.
-/
namespace Countersign.Json

/-! ### Objects with given members -/

/-- A member as it stands in a tree. -/
def named (m : String × Tree) : Option String × Tree := (some m.1, m.2)

/-- The members are the given ones and others, in any order. The others have values, and names that
are not among the known ones. -/
def Extends (known : List String) (base all : List (String × Tree)) : Prop :=
  ∃ extras : List (String × Tree), all.Perm (base ++ extras) ∧
    ∀ e ∈ extras, e.1 ∉ known ∧ e.2.sound = true

/-- However its object is laid out, the decoder takes the members for the value. -/
def Takes {α : Type} (d : Decoder α) (known : List String) (base : List (String × Tree))
    (a : α) : Prop :=
  ∀ all, Extends known base all → d (.object (all.map named)) = .ok a

theorem extends_self (known : List String) (base : List (String × Tree)) :
    Extends known base base :=
  ⟨[], by rw [List.append_nil], nofun⟩

mutual

/-- The grammar does not break in a tree with a value. -/
theorem complete_of_value : ∀ (t : Tree), t.value?.isSome = true → t.complete = true
  | .null, _ => rfl
  | .bool _, _ => rfl
  | .number _, _ => rfl
  | .string _, _ => rfl
  | .array ts, h => by
    rw [Tree.value?, Option.isSome_map] at h
    exact completeItems_of_values ts h
  | .object ms, h => by
    rw [Tree.value?, Option.isSome_map] at h
    exact completeMembers_of_values [] ms h
  | .unreadable, _ => rfl
  | .malformed, h => by cases h
  | .stray, h => by cases h

theorem completeItems_of_values : ∀ (ts : List Tree), (Tree.itemValues? ts).isSome = true →
    Tree.completeItems ts = true
  | [], _ => rfl
  | t :: ts, h => by
    obtain ⟨vs, hvs⟩ := Option.isSome_iff_exists.mp h
    obtain ⟨v, hv, hvs⟩ := Option.bind_eq_some_iff.mp hvs
    obtain ⟨ws, hws, -⟩ := Option.bind_eq_some_iff.mp hvs
    rw [Tree.completeItems, complete_of_value t (by rw [hv]; rfl),
      completeItems_of_values ts (by rw [hws]; rfl)]
    rfl

theorem completeMembers_of_values :
    ∀ (before : List (String × Json)) (ms : List (Option String × Tree)),
    (Tree.memberValues? before ms).isSome = true → Tree.completeMembers ms = true
  | _, [], _ => rfl
  | before, (name, t) :: ms, h => by
    obtain ⟨vs, hvs⟩ := Option.isSome_iff_exists.mp h
    obtain ⟨k, -, hvs⟩ := Option.bind_eq_some_iff.mp hvs
    obtain ⟨v, hv, hvs⟩ := Option.bind_eq_some_iff.mp hvs
    rw [Tree.completeMembers, complete_of_value t (by rw [hv]; rfl),
      completeMembers_of_values (insertMember k v before) ms (by rw [hvs]; rfl)]
    rfl

end

theorem complete_of_sound {t : Tree} (h : t.sound = true) : t.complete = true :=
  complete_of_value t h

/-! ### Records -/

namespace Record

variable {α β : Type} {present : String → Option Tree}

/-- With these members a record has the value: each of them passes its check, and nothing but them
is asked for. -/
structure Reads (r : Record α) (present : String → Option Tree) (a : α) : Prop where
  check : ∀ f ∈ r.fields, ∀ t, present f.name = some t → f.check t = .ok ()
  build : ∀ found : String → Option Tree, (∀ f ∈ r.fields, found f.name = present f.name) →
    r.build found = .ok a

theorem reads_of (a : α) : (Record.of a).Reads present a := ⟨nofun, fun _ _ => rfl⟩

theorem reads_required {name : String} {d : Decoder α} {t : Tree} {a : α}
    (ht : present name = some t) (hd : d t = .ok a) : (required name d).Reads present a where
  check := by
    intro f hf u hu
    obtain rfl := List.mem_singleton.mp hf
    rw [ht] at hu
    obtain rfl := Option.some.inj hu
    simp only [hd]
    rfl
  build := by
    intro found h
    simp only [required, h _ (List.mem_singleton_self _), ht, hd]

theorem reads_optional {name : String} {d : Decoder α} {default a : α}
    (h : (∃ t, present name = some t ∧ d t = .ok a) ∨ present name = none ∧ a = default) :
    (optional name d default).Reads present a where
  check := by
    intro f hf u hu
    obtain rfl := List.mem_singleton.mp hf
    rcases h with ⟨t, ht, hd⟩ | ⟨hnone, -⟩
    · rw [ht] at hu
      obtain rfl := Option.some.inj hu
      simp only [hd]
      rfl
    · rw [hnone] at hu
      cases hu
  build := by
    intro found hfound
    rcases h with ⟨t, ht, hd⟩ | ⟨hnone, rfl⟩
    · simp only [optional, hfound _ (List.mem_singleton_self _), ht, hd]
    · simp only [optional, hfound _ (List.mem_singleton_self _), hnone]

theorem Reads.and {r : Record (α → β)} {x : Record α} {g : α → β} {a : α} (hr : r.Reads present g)
    (hx : x.Reads present a) : (r.and x).Reads present (g a) where
  check := fun f hf => (List.mem_append.mp hf).elim (hr.check f) (hx.check f)
  build := by
    intro found h
    simp only [Record.and, hr.build found fun f hf => h f (List.mem_append_left _ hf),
      hx.build found fun f hf => h f (List.mem_append_right _ hf)]
    rfl

/-- A member is declared. -/
def declares (r : Record α) (m : String × Tree) : Bool := (r.field? m.1).isSome

theorem mem_of_field {r : Record α} {name : String} {f : Field} (h : r.field? name = some f) :
    f ∈ r.fields ∧ f.name = name :=
  ⟨List.mem_of_find?_eq_some h, by simpa using List.find?_some h⟩

theorem field_none {r : Record α} {name : String} (h : name ∉ r.fields.map Field.name) :
    r.field? name = none := by
  rw [field?, List.find?_eq_none]
  rintro f hf hname
  exact h (List.mem_map.mpr ⟨f, hf, by simpa using hname⟩)

theorem field_isSome {r : Record α} {name : String} (h : name ∈ r.fields.map Field.name) :
    (r.field? name).isSome = true := by
  obtain ⟨f, hf, rfl⟩ := List.mem_map.mp h
  rw [field?, List.find?_isSome]
  exact ⟨f, hf, by simp⟩

/-- What is collected are the declared members, the last one first. -/
theorem collect_eq (r : Record α) {all seen : List (String × Tree)}
    (hcheck : ∀ m ∈ all, ∀ f, r.field? m.1 = some f → f.check m.2 = .ok ())
    (hskip : ∀ m ∈ all, r.field? m.1 = none → m.2.complete = true)
    (hnames : ((all.filter r.declares).map Prod.fst).Nodup)
    (hseen : ∀ m ∈ all.filter r.declares, seen.lookup m.1 = none) :
    r.collect false seen (all.map named) = .ok ((all.filter r.declares).reverse ++ seen) := by
  induction all generalizing seen with
  | nil => rfl
  | cons m all ih =>
    obtain ⟨name, t⟩ := m
    obtain ⟨hcheck, hcheckAll⟩ := List.forall_mem_cons.mp hcheck
    obtain ⟨hskip, hskipAll⟩ := List.forall_mem_cons.mp hskip
    cases hfield : r.field? name with
    | none =>
      have hdeclares : r.declares (name, t) = false := by rw [declares, hfield]; rfl
      rw [List.filter_cons_of_neg (by simp [hdeclares])] at hnames hseen ⊢
      simp only [List.map_cons, named, collect, hfield, hskip hfield, if_true, Bool.false_eq_true,
        if_false]
      exact ih hcheckAll hskipAll hnames hseen
    | some f =>
      have hdeclares : r.declares (name, t) = true := by rw [declares, hfield]; rfl
      rw [List.filter_cons_of_pos hdeclares] at hnames hseen ⊢
      obtain ⟨hnew, hseen⟩ := List.forall_mem_cons.mp hseen
      obtain ⟨hname, hnames⟩ := List.nodup_cons.mp hnames
      have hmore : ∀ m ∈ all.filter r.declares, ((name, t) :: seen).lookup m.1 = none := by
        intro m hm
        have hne : (m.1 == name) = false :=
          beq_eq_false_iff_ne.mpr fun heq => hname (List.mem_map.mpr ⟨m, hm, heq⟩)
        rw [List.lookup_cons, hne]
        exact hseen m hm
      simp only [List.map_cons, named, collect, hfield, hnew, hcheck f hfield]
      rw [List.reverse_cons, List.append_assoc]
      exact ih hcheckAll hskipAll hnames hmore

/-- A record takes an object for the value that it has with these members. -/
theorem takes {r : Record α} {known : List String} {base : List (String × Tree)} {a : α}
    (h : r.Reads (fun name => base.lookup name) a) (hknown : ∀ f ∈ r.fields, f.name ∈ known)
    (hbase : ∀ m ∈ base, m.1 ∈ r.fields.map Field.name) (hnames : (base.map Prod.fst).Nodup) :
    Takes r.decode known base a := by
  rintro all ⟨extras, hperm, hextras⟩
  have hunknown : ∀ e ∈ extras, r.field? e.1 = none := fun e he =>
    field_none fun hmem => by
      obtain ⟨f, hf, hname⟩ := List.mem_map.mp hmem
      exact (hextras e he).1 (hname ▸ hknown f hf)
  have hdeclared : (all.filter r.declares).Perm base := by
    have hkept : base.filter r.declares = base :=
      List.filter_eq_self.mpr fun m hm => field_isSome (hbase m hm)
    have hdropped : extras.filter r.declares = [] :=
      List.filter_eq_nil_iff.mpr fun e he => by simp [declares, hunknown e he]
    have hfilter := hperm.filter r.declares
    rwa [List.filter_append, hkept, hdropped, List.append_nil] at hfilter
  have hfound (name : String) : (all.filter r.declares).reverse.lookup name = base.lookup name :=
    (lookup_perm (((List.reverse_perm _).trans hdeclared).symm) hnames name).symm
  have hcollect : r.collect false [] (all.map named) = .ok (all.filter r.declares).reverse := by
    rw [← List.append_nil (all.filter r.declares).reverse]
    refine r.collect_eq ?_ ?_ ((hdeclared.map Prod.fst).nodup_iff.mpr hnames) fun _ _ => rfl
    · intro m hm f hf
      rcases List.mem_append.mp (hperm.mem_iff.mp hm) with hm | hm
      · obtain ⟨hmem, hname⟩ := mem_of_field hf
        exact h.check f hmem m.2 (hname ▸ lookup_of_mem hnames hm)
      · rw [hunknown m hm] at hf
        cases hf
    · intro m hm hnone
      rcases List.mem_append.mp (hperm.mem_iff.mp hm) with hm | hm
      · have hsome := field_isSome (hbase m hm)
        rw [hnone] at hsome
        cases hsome
      · exact complete_of_sound (hextras m hm).2
  simp only [decode, decodeWith, hcollect]
  exact h.build _ fun f _ => hfound f.name

end Record

/-! ### Tagged choices -/

section Tagged

variable {α : Type} {known : List String} {base : List (String × Tree)} {tag : String}

/-- A member with a name of its own stands in one place; what is left without it are the others. -/
theorem Extends.split {t : Tree} {all : List (String × Tree)}
    (h : Extends known ((tag, t) :: base) all) (hknown : tag ∈ known)
    (hbase : ∀ m ∈ base, m.1 ≠ tag ∧ m.2.sound = true) :
    ∃ before after : List (String × Tree), all = before ++ (tag, t) :: after ∧
      (∀ m ∈ before ++ after, m.1 ≠ tag ∧ m.2.sound = true) ∧
      Extends known base (before ++ after) := by
  obtain ⟨extras, hperm, hextras⟩ := h
  obtain ⟨before, after, rfl⟩ := List.append_of_mem (hperm.mem_iff.mpr List.mem_cons_self)
  have hothers : (before ++ after).Perm (base ++ extras) :=
    (List.perm_middle.symm.trans hperm).cons_inv
  refine ⟨before, after, rfl, fun m hm => ?_, extras, hothers, hextras⟩
  rcases List.mem_append.mp (hothers.mem_iff.mp hm) with hm | hm
  · exact hbase m hm
  · exact ⟨fun heq => (hextras m hm).1 (heq ▸ hknown), (hextras m hm).2⟩

/-- Without members of their own there are none of known names. -/
theorem Extends.unknown {all : List (String × Tree)} (h : Extends known [] all) {m : String × Tree}
    (hm : m ∈ all) : m.1 ∉ known ∧ m.2.sound = true := by
  obtain ⟨extras, hperm, hextras⟩ := h
  exact hextras m (hperm.mem_iff.mp hm)

theorem choice_of_lookup {choices : List (String × α)} {kind : String} {a : α}
    (h : choices.lookup kind = some a) : Decoder.choice choices kind = .ok a := by
  rw [Decoder.choice, h]

theorem taggedMembers_behind {choices : List (String × α)} {a : α} {all : List (String × Tree)}
    (h : ∀ m ∈ all, m.1 ≠ tag ∧ m.2.sound = true) (kept : List (Option String × Tree)) :
    taggedMembers tag choices (some a) kept (all.map named) =
      .ok (a, .object (kept.reverse ++ all.map named)) := by
  induction all generalizing kept with
  | nil => rw [List.map_nil, taggedMembers, List.append_nil]
  | cons m all ih =>
    obtain ⟨⟨hname, hsound⟩, hall⟩ := List.forall_mem_cons.mp h
    rw [List.map_cons, named, taggedMembers, if_neg hname, if_pos hsound, ih hall,
      List.reverse_cons, List.append_assoc]
    rfl

theorem taggedMembers_split {choices : List (String × α)} {kind : String} {a : α}
    (hchoice : choices.lookup kind = some a) {before after : List (String × Tree)}
    (h : ∀ m ∈ before ++ after, m.1 ≠ tag ∧ m.2.sound = true) (kept : List (Option String × Tree)) :
    taggedMembers tag choices none kept ((before ++ (tag, .string kind) :: after).map named) =
      .ok (a, .object (kept.reverse ++ (before ++ after).map named)) := by
  induction before generalizing kept with
  | nil =>
    rw [List.nil_append, List.map_cons, named, taggedMembers, if_pos rfl]
    simp only [tagName, choice_of_lookup hchoice]
    exact taggedMembers_behind h kept
  | cons m before ih =>
    obtain ⟨⟨hname, hsound⟩, hall⟩ := List.forall_mem_cons.mp h
    rw [List.cons_append, List.map_cons, named, taggedMembers, if_neg hname, if_pos hsound, ih hall,
      List.reverse_cons, List.append_assoc]
    rfl

/-- A choice finds its tag anywhere among the members and judges the others. -/
theorem takes_tagged {choices : List (String × Decoder α)} {kind : String} {d : Decoder α} {a : α}
    (hchoice : choices.lookup kind = some d) (hknown : tag ∈ known)
    (hbase : ∀ m ∈ base, m.1 ≠ tag ∧ m.2.sound = true) (hd : Takes d known base a) :
    Takes (tagged tag choices) known ((tag, .string kind) :: base) a := by
  intro all h
  obtain ⟨before, after, rfl, hothers, hrest⟩ := h.split hknown hbase
  simp only [tagged, taggedMembers_split hchoice hothers]
  exact hd _ hrest

variable {part : String}

/-- Members of other names are passed over. -/
theorem relevant_skip {before : List (String × Tree)}
    (h : ∀ m ∈ before, m.1 ≠ tag ∧ m.1 ≠ part ∧ m.2.sound = true)
    (rest : List (Option String × Tree)) :
    relevant? tag part (before.map named ++ rest) = relevant? tag part rest := by
  induction before with
  | nil => rfl
  | cons m before ih =>
    obtain ⟨⟨htag, hpart, hsound⟩, hall⟩ := List.forall_mem_cons.mp h
    rw [List.map_cons, List.cons_append, named, relevant?, if_neg (not_or.mpr ⟨htag, hpart⟩),
      if_pos (complete_of_sound hsound), ih hall]

theorem relevant_none {all : List (String × Tree)}
    (h : ∀ m ∈ all, m.1 ≠ tag ∧ m.1 ≠ part ∧ m.2.sound = true) :
    relevant? tag part (all.map named) = .ok none := by
  rw [← List.append_nil (all.map named), relevant_skip h]
  rfl

theorem relevant_some {before : List (String × Tree)}
    (h : ∀ m ∈ before, m.1 ≠ tag ∧ m.1 ≠ part ∧ m.2.sound = true) {name : String}
    (hname : name = tag ∨ name = part) (t : Tree) (after : List (String × Tree)) :
    relevant? tag part ((before ++ (name, t) :: after).map named) =
      .ok (some (name, t, after.map named)) := by
  rw [List.map_append, relevant_skip h, List.map_cons, named, relevant?, if_pos hname]

theorem ok_bind {β γ : Type} (b : β) (f : β → Except DecodeError γ) : (.ok b >>= f) = f b := rfl

theorem oneOf_of_lookup {choices : List (String × α)} {kind : String} {a : α}
    (h : choices.lookup kind = some a) : Decoder.oneOf .strict choices (.string kind) = .ok a :=
  choice_of_lookup h

/-- A choice without a part needs its tag only. -/
theorem takes_tagOnly {choices : List (String × PartDecoder α)} {kind : String} {d : PartDecoder α}
    {a : α} (hchoice : choices.lookup kind = some d) (hd : d none = .ok a) (htag : tag ∈ known)
    (hpart : part ∈ known) :
    Takes (tagAndPart tag part choices) known [(tag, .string kind)] a := by
  intro all h
  obtain ⟨before, after, rfl, -, hrest⟩ := h.split htag nofun
  have hothers (m : String × Tree) (hm : m ∈ before ++ after) :
      m.1 ≠ tag ∧ m.1 ≠ part ∧ m.2.sound = true := by
    obtain ⟨hunknown, hsound⟩ := hrest.unknown hm
    exact ⟨fun heq => hunknown (heq ▸ htag), fun heq => hunknown (heq ▸ hpart), hsound⟩
  have hfirst : relevant? tag part ((before ++ (tag, .string kind) :: after).map named) =
      .ok (some (tag, .string kind, after.map named)) :=
    relevant_some (fun m hm => hothers m (List.mem_append_left _ hm)) (.inl rfl) _ _
  have hnone : relevant? tag part (after.map named) = .ok none :=
    relevant_none fun m hm => hothers m (List.mem_append_right before hm)
  simp only [tagAndPart, hfirst, ok_bind, if_true, oneOf_of_lookup hchoice, hnone, hd]

section Parts

variable {choices : List (String × PartDecoder α)} {kind : String} {d : PartDecoder α} {t : Tree}
  {a : α} {front middle behind : List (String × Tree)}

theorem tagAndPart_tagFirst (hchoice : choices.lookup kind = some d) (hd : d (some t) = .ok a)
    (hne : tag ≠ part) (hfront : ∀ m ∈ front, m.1 ≠ tag ∧ m.1 ≠ part ∧ m.2.sound = true)
    (hmiddle : ∀ m ∈ middle, m.1 ≠ tag ∧ m.1 ≠ part ∧ m.2.sound = true)
    (hbehind : ∀ m ∈ behind, m.1 ≠ tag ∧ m.1 ≠ part ∧ m.2.sound = true) :
    tagAndPart tag part choices
      (.object ((front ++ (tag, .string kind) :: (middle ++ (part, t) :: behind)).map named)) =
        .ok a := by
  have hfirst := relevant_some hfront (.inl rfl : tag = tag ∨ tag = part) (.string kind)
    (middle ++ (part, t) :: behind)
  have hsecond := relevant_some hmiddle (.inr rfl : part = tag ∨ part = part) t behind
  have hlast : noMore tag part (behind.map named) = .ok () := by
    rw [noMore, relevant_none hbehind]
    rfl
  simp only [tagAndPart, hfirst, ok_bind, if_true, oneOf_of_lookup hchoice, hsecond, hne.symm,
    if_false, hd, hlast]
  rfl

theorem tagAndPart_partFirst (hchoice : choices.lookup kind = some d) (hd : d (some t) = .ok a)
    (hsound : t.sound = true) (hne : tag ≠ part)
    (hfront : ∀ m ∈ front, m.1 ≠ tag ∧ m.1 ≠ part ∧ m.2.sound = true)
    (hmiddle : ∀ m ∈ middle, m.1 ≠ tag ∧ m.1 ≠ part ∧ m.2.sound = true)
    (hbehind : ∀ m ∈ behind, m.1 ≠ tag ∧ m.1 ≠ part ∧ m.2.sound = true) :
    tagAndPart tag part choices
      (.object ((front ++ (part, t) :: (middle ++ (tag, .string kind) :: behind)).map named)) =
        .ok a := by
  have hfirst := relevant_some hfront (.inr rfl : part = tag ∨ part = part) t
    (middle ++ (tag, .string kind) :: behind)
  have hsecond := relevant_some hmiddle (.inl rfl : tag = tag ∨ tag = part) (.string kind) behind
  have hlast : noMore tag part (behind.map named) = .ok () := by
    rw [noMore, relevant_none hbehind]
    rfl
  simp only [tagAndPart, hfirst, ok_bind, hne.symm, if_false, hsound, if_true, hsecond, hne,
    oneOf_of_lookup hchoice, hd, hlast]
  rfl

/-- A choice finds its tag and its part anywhere among the members: the part behind the tag, next to
it or not, or in front of it. -/
theorem takes_tagAndPart (hchoice : choices.lookup kind = some d) (hd : d (some t) = .ok a)
    (hsound : t.sound = true) (htag : tag ∈ known) (hpart : part ∈ known) (hne : tag ≠ part) :
    Takes (tagAndPart tag part choices) known [(tag, .string kind), (part, t)] a := by
  intro all h
  obtain ⟨before, after, rfl, -, hrest⟩ := h.split htag fun m hm => by
    obtain rfl := List.mem_singleton.mp hm
    exact ⟨hne.symm, hsound⟩
  obtain ⟨front, behind, hsplit, -, hunknown⟩ := hrest.split hpart nofun
  have hothers (m : String × Tree) (hm : m ∈ front ++ behind) :
      m.1 ≠ tag ∧ m.1 ≠ part ∧ m.2.sound = true := by
    obtain ⟨hname, hsound⟩ := hunknown.unknown hm
    exact ⟨fun heq => hname (heq ▸ htag), fun heq => hname (heq ▸ hpart), hsound⟩
  obtain ⟨hfront, hbehind⟩ := List.forall_mem_append.mp hothers
  rcases List.append_eq_append_iff.mp hsplit with ⟨middle, rfl, rfl⟩ | ⟨middle, rfl, hmiddle⟩
  · obtain ⟨hfront, hmiddle⟩ := List.forall_mem_append.mp hfront
    exact tagAndPart_tagFirst hchoice hd hne hfront hmiddle hbehind
  · cases middle with
    | nil =>
      obtain rfl : (part, t) :: behind = after := hmiddle
      have hnothing : ∀ m ∈ ([] : List (String × Tree)),
          m.1 ≠ tag ∧ m.1 ≠ part ∧ m.2.sound = true := by simp
      rw [List.append_nil]
      exact tagAndPart_tagFirst hchoice hd hne hfront hnothing hbehind
    | cons m middle =>
      obtain ⟨rfl, rfl⟩ := List.cons.inj hmiddle
      obtain ⟨hmiddle, hbehind⟩ := List.forall_mem_append.mp hbehind
      rw [List.append_assoc]
      exact tagAndPart_partFirst hchoice hd hsound hne hfront hmiddle hbehind

end Parts

end Tagged

end Countersign.Json
