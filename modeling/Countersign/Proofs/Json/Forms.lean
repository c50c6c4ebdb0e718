import Countersign.Proofs.Ethereum.Numbers
import Countersign.Proofs.Json.RoundTrip
import Mathlib.Data.List.Forall2

/-!
# Forms of JSON values

The forms in which wide numbers, byte strings, lists and objects are given in JSON, apart from how
they are read. Just these forms of numbers and byte strings are read, each as what it gives, and
what is written is one of them. The members of an object may stand in any order, with others among
them.
-/
namespace Countersign

namespace Hex

/-- A text that gives a byte string in hexadecimal, with or without a mark in either case. -/
def IsLooseText (s : String) (b : Bytes) : Prop :=
  ∃ cs, Spells cs b ∧ s.toList ∈ [cs, '0' :: 'x' :: cs, '0' :: 'X' :: cs]

theorem spelled_iff {cs : List Char} {b : Bytes} :
    (decodeOctets (cs.flatMap String.utf8EncodeChar)).toOption = some b ↔ Spells cs b := by
  rw [decodeOctets]
  constructor
  · intro h
    split at h
    next => cases h
    next =>
      cases hpairs : pairs 0 (cs.flatMap String.utf8EncodeChar) with
      | error e => rw [hpairs] at h; cases h
      | ok bytes =>
        rw [hpairs] at h
        obtain rfl := Option.some.inj h
        exact spells_of_pairs hpairs
  · intro h
    obtain ⟨hlen, hpairs⟩ := pairs_spells h 0
    rw [if_neg (by omega), hpairs]
    rfl

/-- No digits begin as a mark in the other case does. -/
theorem not_spells_mark {cs : List Char} {b : Bytes} : ¬Spells ('0' :: 'X' :: cs) b := by
  have hdigit : ∀ d : Fin 16, 'X' ≠ Nat.digitChar d ∧ 'X' ≠ (Nat.digitChar d).toUpper := by decide
  intro h
  cases h with
  | cons _ hy _ =>
    obtain ⟨hd, hchar⟩ := hy
    exact absurd hchar (not_or.mpr (hdigit ⟨_, hd⟩))

end Hex

namespace Json

open TypedData (LooseNumeral)

/-! ### Numbers -/

/-- What stands in front of the digits of each base. -/
def marks : List (List Char × Nat) :=
  [([], 10), (['0', 'x'], 16), (['0', 'X'], 16), (['0', 'o'], 8), (['0', 'O'], 8), (['0', 'b'], 2),
    (['0', 'B'], 2)]

/-- A wide number is given as an integer literal, or by a text of digits in some base, among which
underscores may stand. -/
inductive QuantityForm (n : Nat) : Tree → Prop
  | number : QuantityForm n (.number (.natural n))
  | text {s : String} {mark ds : List Char} {base : Nat} (hmark : (mark, base) ∈ marks)
      (hs : s.toList = mark ++ ds) (h : LooseNumeral base ds n) : QuantityForm n (.string s)

/-- What seems to be a mark in front of decimal digits would be one of them. -/
theorem notMark_decimal {c m : Char} {ds : List Char} {n : Nat}
    (h : LooseNumeral 10 (c :: m :: ds) n) : m ∉ ['x', 'X', 'o', 'O', 'b', 'B'] := by
  have hdigit : ∀ d : Fin 10, Nat.digitChar d ∉ ['x', 'X', 'o', 'O', 'b', 'B'] ∧
      (Nat.digitChar d).toUpper ∉ ['x', 'X', 'o', 'O', 'b', 'B'] := by
    decide
  have hscore : '_' ∉ ['x', 'X', 'o', 'O', 'b', 'B'] := by decide
  intro hm
  have hloose : m ∈ (c :: m :: ds).filter (· ≠ '_') :=
    List.mem_filter.mpr ⟨by simp, decide_eq_true (ne_of_mem_of_not_mem hm hscore)⟩
  rcases h with h | ⟨h, -⟩
  · obtain ⟨d, hd, hchar⟩ := h.isDigit m hloose
    obtain ⟨hsmall, hlarge⟩ := hdigit ⟨d, hd⟩
    exact hchar.elim (ne_of_mem_of_not_mem hm hsmall) (ne_of_mem_of_not_mem hm hlarge)
  · rw [h] at hloose
    cases hloose

theorem base_le {mark : List Char} {base : Nat} (h : (mark, base) ∈ marks) : base ≤ 16 := by
  have hbases : ∀ m ∈ marks, m.2 ≤ 16 := by decide
  exact hbases _ h

theorem baseOf_append {mark ds : List Char} {base n : Nat} (hmark : (mark, base) ∈ marks)
    (h : LooseNumeral base ds n) : baseOf (mark ++ ds) = (base, ds) := by
  simp only [marks, List.mem_cons, Prod.mk.injEq, List.not_mem_nil, or_false] at hmark
  rcases hmark with
    ⟨rfl, rfl⟩ | ⟨rfl, rfl⟩ | ⟨rfl, rfl⟩ | ⟨rfl, rfl⟩ | ⟨rfl, rfl⟩ | ⟨rfl, rfl⟩ | ⟨rfl, rfl⟩
  next =>
    rw [List.nil_append]
    unfold baseOf
    split
    iterate 6
      next => exact absurd (by simp) (notMark_decimal h)
    next => rfl
  all_goals rfl

theorem exists_mark (cs : List Char) :
    ∃ mark, (mark, (baseOf cs).1) ∈ marks ∧ cs = mark ++ (baseOf cs).2 := by
  unfold baseOf
  split
  next => exact ⟨['0', 'x'], by simp [marks], rfl⟩
  next => exact ⟨['0', 'X'], by simp [marks], rfl⟩
  next => exact ⟨['0', 'o'], by simp [marks], rfl⟩
  next => exact ⟨['0', 'O'], by simp [marks], rfl⟩
  next => exact ⟨['0', 'b'], by simp [marks], rfl⟩
  next => exact ⟨['0', 'B'], by simp [marks], rfl⟩
  next => exact ⟨[], by simp [marks], rfl⟩

theorem ofOption_eq_ok {α : Type} {o : Option α} {a : α} :
    Decoder.ofOption o = .ok a ↔ o = some a := by
  cases o with
  | none => exact ⟨nofun, nofun⟩
  | some b =>
    exact ⟨fun h => congrArg some (Except.ok.inj h),
      fun h => congrArg Except.ok (Option.some.inj h)⟩

theorem word_eq_some {bits m : Nat} {n : Word bits} : Word.ofNat? bits m = some n ↔ m = n := by
  unfold Word.ofNat?
  constructor
  · intro h
    split at h
    next => exact congrArg Fin.val (Option.some.inj h)
    next => cases h
  · rintro rfl
    rw [dif_pos n.isLt]

/-- Just these forms of a number are read, each as its number. -/
theorem quantity_iff {t : Tree} {n : Word 256} : Decoder.quantity t = .ok n ↔ QuantityForm n t := by
  constructor
  · intro h
    unfold Decoder.quantity at h
    split at h
    next m =>
      obtain rfl := word_eq_some.mp (ofOption_eq_ok.mp h)
      exact .number
    next s =>
      obtain ⟨mark, hmark, hs⟩ := exists_mark s.toList
      obtain ⟨m, hm, hn⟩ := Option.bind_eq_some_iff.mp (ofOption_eq_ok.mp h)
      obtain rfl := word_eq_some.mp hn
      exact .text hmark hs (LooseNumeral.of_readLoose (base_le hmark) (by decide) hm).1
    next => cases h
  · intro h
    cases h with
    | number => exact ofOption_eq_ok.mpr (word_eq_some.mpr rfl)
    | text hmark hs h =>
      simp only [Decoder.quantity, hs, baseOf_append hmark h, h.readLoose (base_le hmark) n.isLt,
        Option.bind_some, ofOption_eq_ok, word_eq_some]

theorem quantityForm_written (n : Word 256) : QuantityForm n (ofQuantity n).tree := by
  have hmark : (['0', 'x'], 16) ∈ marks := by simp [marks]
  refine .text hmark ?_ (.of_numeral (Nat.le_refl 16) (Digits.numeral_toDigits (by decide) n))
  rw [Digits.marked, String.toList_ofList]
  rfl

/-! ### Byte strings -/

/-- An octet as an item of an array. -/
def octetTree (o : UInt8) : Tree := .number (.natural o.toNat)

/-- A byte string is given in hexadecimal, or as an array of octets. -/
inductive BytesForm (b : Bytes) : Tree → Prop
  | text {s : String} (h : Hex.IsLooseText s b) : BytesForm b (.string s)
  | octets : BytesForm b (.array (b.map octetTree))

theorem hexOf_iff {s : String} {b : Bytes} : hexOf? s = some b ↔ Hex.IsLooseText s b := by
  constructor
  · intro h
    unfold hexOf? at h
    split at h
    next cs hs => exact ⟨cs, Hex.spelled_iff.mp h, by simp [hs]⟩
    next =>
      refine ⟨Hex.unmarked s, Hex.spelled_iff.mp h, ?_⟩
      unfold Hex.unmarked
      split
      next hs => simp [hs]
      next => simp
  · rintro ⟨cs, hcs, hs⟩
    have hspelled := Hex.spelled_iff.mpr hcs
    simp only [List.mem_cons, List.not_mem_nil, or_false] at hs
    unfold hexOf?
    rcases hs with hs | hs | hs
    next =>
      split
      next rest hmark =>
        rw [← hs, hmark] at hcs
        exact absurd hcs Hex.not_spells_mark
      next => rw [Hex.decode_text ⟨cs, hcs, .inl hs⟩]; rfl
    next =>
      split
      next rest hmark => simp [hs] at hmark
      next => rw [Hex.decode_text ⟨cs, hcs, .inr hs⟩]; rfl
    next =>
      rw [hs]
      exact hspelled

theorem natural_iff {limit : Nat} {t : Tree} {n : Nat} :
    Decoder.natural limit t = .ok n ↔ t = .number (.natural n) ∧ n < limit := by
  constructor
  · intro h
    unfold Decoder.natural at h
    split at h
    next m =>
      split at h
      next hm =>
        obtain rfl := Except.ok.inj h
        exact ⟨rfl, hm⟩
      next => cases h
    next => cases h
  · rintro ⟨rfl, hn⟩
    exact if_pos hn

/-- Items are read one by one. -/
theorem items_iff {α : Type} {d : Decoder α} {ts : List Tree} {as : List α} :
    Decoder.items d ts = .ok as ↔ List.Forall₂ (fun t a => d t = .ok a) ts as := by
  constructor
  · intro h
    induction ts generalizing as with
    | nil =>
      obtain rfl := Except.ok.inj h
      exact .nil
    | cons t ts ih =>
      obtain ⟨a, ha, h⟩ := exists_of_bind_ok h
      obtain ⟨more, hmore, h⟩ := exists_of_bind_ok h
      obtain rfl := Except.ok.inj h
      exact .cons ha (ih hmore)
  · intro h
    induction h with
    | nil => rfl
    | cons ha _ ih =>
      rw [Decoder.items, ha, ih]
      rfl

/-- The items that are read as the octets of a byte string. -/
theorem octets_iff {ts : List Tree} {b : Bytes} :
    (∃ ns : List Nat, List.Forall₂ (fun t n => Decoder.natural 256 t = .ok n) ts ns ∧
      ns.map UInt8.ofNat = b) ↔ ts = b.map octetTree := by
  constructor
  · rintro ⟨ns, h, rfl⟩
    induction h with
    | nil => rfl
    | @cons t n ts ns ht _ ih =>
      obtain ⟨rfl, hn⟩ := natural_iff.mp ht
      have htoNat : (UInt8.ofNat n).toNat = n := UInt8.toNat_ofNat_of_lt hn
      rw [List.map_cons, List.map_cons, octetTree, htoNat, ← ih]
  · rintro rfl
    refine ⟨b.map UInt8.toNat, ?_, by simp [Function.comp_def]⟩
    rw [List.forall₂_map_left_iff, List.forall₂_map_right_iff, List.forall₂_same]
    exact fun o _ => natural_iff.mpr ⟨rfl, o.toNat_lt⟩

/-- Just these forms of a byte string are read, each as its octets. -/
theorem bytes_iff {t : Tree} {b : Bytes} : Decoder.bytes t = .ok b ↔ BytesForm b t := by
  constructor
  · intro h
    unfold Decoder.bytes at h
    split at h
    next s => exact .text (hexOf_iff.mp (ofOption_eq_ok.mp h))
    next =>
      unfold Decoder.list at h
      split at h
      next ts =>
        obtain ⟨ns, hns, hb⟩ := exists_of_map_ok h
        obtain rfl := octets_iff.mp ⟨ns, items_iff.mp hns, hb⟩
        exact .octets
      next => cases h
  · intro h
    cases h with
    | text h => exact ofOption_eq_ok.mpr (hexOf_iff.mpr h)
    | octets =>
      obtain ⟨ns, hns, hb⟩ := octets_iff.mpr (rfl : b.map octetTree = b.map octetTree)
      simp only [Decoder.bytes, Decoder.list, items_iff.mpr hns, Except.map, hb]

theorem bytesForm_written (b : Bytes) : BytesForm b (ofBytes b).tree := by
  refine .text ⟨Hex.digits b, Hex.spells_digits b, ?_⟩
  rw [Hex.encodeMarked, String.toList_ofList]
  simp

/-- A byte string of the right length is read in each of its forms. -/
theorem octets_of_form {n : Nat} {o : Octets n} {t : Tree} (h : BytesForm o.bytes t) :
    Decoder.octets n t = .ok o := by
  have hplain : withoutSurplus n t = t := by
    cases h with
    | text => rfl
    | octets =>
      have hlen : (o.bytes.map octetTree).length = n := by rw [List.length_map, o.length_eq]
      rw [withoutSurplus, List.drop_eq_nil_of_le (Nat.le_of_eq hlen)]
  rw [Decoder.octets, hplain, bytes_iff.mpr h, ok_bind, Octets.ofBytes?, dif_pos o.length_eq]
  rfl

/-! ### Lists -/

/-- An array of items, each in a form of its own. -/
def ListForm {α : Type} (form : α → Tree → Prop) (as : List α) (t : Tree) : Prop :=
  ∃ ts, t = .array ts ∧ List.Forall₂ (fun t a => form a t) ts as

theorem list_of_form {α : Type} {d : Decoder α} {form : α → Tree → Prop}
    (hd : ∀ a t, form a t → d t = .ok a) {as : List α} {t : Tree} (h : ListForm form as t) :
    Decoder.list d t = .ok as := by
  obtain ⟨ts, rfl, hts⟩ := h
  exact items_iff.mpr (hts.imp fun t a => hd a t)

theorem listForm_written {α : Type} {form : α → Tree → Prop} {toJson : α → Json}
    (hwritten : ∀ a, form a (toJson a).tree) (as : List α) :
    ListForm form as (Json.array (as.map toJson)).tree := by
  refine ⟨itemTrees (as.map toJson), rfl, ?_⟩
  induction as with
  | nil => exact .nil
  | cons a as ih => exact .cons (hwritten a) ih

/-! ### Objects -/

/-- A member of an object: its name, its form, and when it may be missing. -/
structure MemberForm where
  name : String
  form : Tree → Prop
  mayMiss : Prop

/-- Members that are in these forms, none of them twice. -/
structure InForms (forms : List MemberForm) (base : List (String × Tree)) : Prop where
  nodup : (base.map Prod.fst).Nodup
  declared : base.map Prod.fst ⊆ forms.map MemberForm.name
  given : ∀ f ∈ forms, (∃ t, base.lookup f.name = some t ∧ f.form t) ∨
    base.lookup f.name = none ∧ f.mayMiss

/-- An object with members in these forms and others, in any order. -/
def ObjectForm (forms : List MemberForm) (t : Tree) : Prop :=
  ∃ base all, t = .object (all.map named) ∧ InForms forms base ∧
    Extends (forms.map MemberForm.name) base all

namespace InForms

variable {α : Type} {forms : List MemberForm} {base : List (String × Tree)} {name : String}
  {form : Tree → Prop} {d : Decoder α} {a default : α}

theorem form_of_mem (h : InForms forms base) {m : String × Tree} (hm : m ∈ base) :
    ∃ f ∈ forms, f.form m.2 := by
  obtain ⟨f, hf, hname⟩ := List.mem_map.mp (h.declared (List.mem_map_of_mem hm))
  have hlookup : base.lookup f.name = some m.2 := hname ▸ lookup_of_mem h.nodup hm
  refine ⟨f, hf, ?_⟩
  rcases h.given f hf with ⟨t, ht, hform⟩ | ⟨hnone, -⟩
  · rw [hlookup] at ht
    obtain rfl := Option.some.inj ht
    exact hform
  · rw [hlookup] at hnone
    cases hnone

theorem required (h : InForms forms base) (hf : ⟨name, form, False⟩ ∈ forms)
    (hd : ∀ t, form t → d t = .ok a) :
    (Record.required name d).Reads (fun name => base.lookup name) a := by
  obtain ⟨t, ht, hform⟩ : ∃ t, base.lookup name = some t ∧ form t :=
    (h.given _ hf).resolve_right fun hmissing => hmissing.2
  exact Record.reads_required ht (hd t hform)

theorem optional (h : InForms forms base) (hf : ⟨name, form, a = default⟩ ∈ forms)
    (hd : ∀ t, form t → d t = .ok a) :
    (Record.optional name d default).Reads (fun name => base.lookup name) a := by
  refine Record.reads_optional ((h.given _ hf).imp_left ?_)
  rintro ⟨t, ht, hform⟩
  exact ⟨t, ht, hd t hform⟩

/-- A record whose members are declared in these forms takes them. -/
theorem takes {r : Record α} {known : List String} (h : InForms forms base)
    (hreads : r.Reads (fun name => base.lookup name) a)
    (hfields : r.fields.map Field.name = forms.map MemberForm.name)
    (hknown : forms.map MemberForm.name ⊆ known) : Takes r.decode known base a := by
  refine Record.takes hreads (fun f hf => ?_) (fun m hm => ?_) h.nodup
  · exact hknown (hfields ▸ List.mem_map_of_mem hf)
  · rw [hfields]
    exact h.declared (List.mem_map_of_mem hm)

end InForms

/-- Members as values are in forms if their trees are. -/
theorem inForms_treesOf {forms : List MemberForm} {members : List (String × Json)}
    (hnodup : (members.map Prod.fst).Nodup)
    (hdeclared : members.map Prod.fst ⊆ forms.map MemberForm.name)
    (h : ∀ f ∈ forms, (∃ v, members.lookup f.name = some v ∧ f.form v.tree) ∨
      members.lookup f.name = none ∧ f.mayMiss) : InForms forms (treesOf members) := by
  have hfst : (treesOf members).map Prod.fst = members.map Prod.fst := by
    rw [treesOf, List.map_map]
    rfl
  refine ⟨hfst ▸ hnodup, hfst ▸ hdeclared, fun f hf => ?_⟩
  rw [lookup_treesOf]
  rcases h f hf with ⟨v, hv, hform⟩ | ⟨hnone, hmiss⟩
  · exact .inl ⟨v.tree, by rw [hv]; rfl, hform⟩
  · exact .inr ⟨by rw [hnone]; rfl, hmiss⟩

/-- Members that are all written are in their forms. -/
theorem inForms_written {forms : List MemberForm} {members : List (String × Json)}
    (hnodup : (members.map Prod.fst).Nodup)
    (hdeclared : members.map Prod.fst ⊆ forms.map MemberForm.name)
    (h : ∀ f ∈ forms, ∃ v, members.lookup f.name = some v ∧ f.form v.tree) :
    InForms forms (treesOf members) :=
  inForms_treesOf hnodup hdeclared fun f hf => .inl (h f hf)

/-! ### Values of forms -/

theorem sound_items {ts : List Tree} (h : ∀ t ∈ ts, t.sound = true) :
    (Tree.array ts).sound = true := by
  rw [Tree.sound, Tree.value?, Option.isSome_map]
  induction ts with
  | nil => rfl
  | cons t ts ih =>
    obtain ⟨ht, hts⟩ := List.forall_mem_cons.mp h
    obtain ⟨v, hv⟩ := Option.isSome_iff_exists.mp ht
    obtain ⟨vs, hvs⟩ := Option.isSome_iff_exists.mp (ih hts)
    rw [Tree.itemValues?, hv, hvs]
    rfl

theorem sound_named {all : List (String × Tree)} (h : ∀ m ∈ all, m.2.sound = true) :
    (Tree.object (all.map named)).sound = true := by
  have hmembers (before : List (String × Json)) :
      (Tree.memberValues? before (all.map named)).isSome = true := by
    induction all generalizing before with
    | nil => rfl
    | cons m all ih =>
      obtain ⟨hm, hall⟩ := List.forall_mem_cons.mp h
      obtain ⟨v, hv⟩ := Option.isSome_iff_exists.mp hm
      rw [List.map_cons, named, Tree.memberValues?, hv]
      exact ih hall _
  rw [Tree.sound, Tree.value?, Option.isSome_map]
  exact hmembers []

theorem QuantityForm.sound {n : Nat} {t : Tree} (h : QuantityForm n t) : t.sound = true := by
  cases h <;> rfl

theorem BytesForm.sound {b : Bytes} {t : Tree} (h : BytesForm b t) : t.sound = true := by
  cases h with
  | text => rfl
  | octets =>
    refine sound_items fun t ht => ?_
    obtain ⟨o, -, rfl⟩ := List.mem_map.mp ht
    rfl

theorem ListForm.sound {α : Type} {form : α → Tree → Prop}
    (hform : ∀ a t, form a t → t.sound = true) {as : List α} {t : Tree} (h : ListForm form as t) :
    t.sound = true := by
  obtain ⟨ts, rfl, hts⟩ := h
  refine sound_items ?_
  induction hts with
  | nil => exact nofun
  | cons ht _ ih => exact List.forall_mem_cons.mpr ⟨hform _ _ ht, ih⟩

theorem ObjectForm.sound {forms : List MemberForm}
    (hforms : ∀ f ∈ forms, ∀ t, f.form t → t.sound = true)
    {t : Tree} (h : ObjectForm forms t) : t.sound = true := by
  obtain ⟨base, all, rfl, hbase, extras, hperm, hextras⟩ := h
  refine sound_named fun m hm => ?_
  rcases List.mem_append.mp (hperm.mem_iff.mp hm) with hm | hm
  · obtain ⟨f, hf, hform⟩ := hbase.form_of_mem hm
    exact hforms f hf m.2 hform
  · exact (hextras m hm).2

/-! ### Values that are written -/

theorem itemsDepth_le {vs : List Json} {d : Nat} (h : ∀ v ∈ vs, v.depth ≤ d) :
    itemsDepth vs ≤ d := by
  induction vs with
  | nil => exact Nat.zero_le d
  | cons v vs ih =>
    obtain ⟨hv, hvs⟩ := List.forall_mem_cons.mp h
    exact Nat.max_le.mpr ⟨hv, ih hvs⟩

theorem membersDepth_le {ms : List (String × Json)} {d : Nat} (h : ∀ m ∈ ms, m.2.depth ≤ d) :
    membersDepth ms ≤ d := by
  induction ms with
  | nil => exact Nat.zero_le d
  | cons m ms ih =>
    obtain ⟨hm, hms⟩ := List.forall_mem_cons.mp h
    exact Nat.max_le.mpr ⟨hm, ih hms⟩

/-- A value whose numbers are read, with no more than so many containers inside one another. -/
def ReadWithin (d : Nat) (v : Json) : Prop := v.IsRead ∧ v.depth ≤ d

theorem ReadWithin.array {d : Nat} {vs : List Json} (h : ∀ v ∈ vs, v.ReadWithin d) :
    (Json.array vs).ReadWithin (d + 1) :=
  ⟨itemsRead_iff.mpr fun v hv => (h v hv).1,
    Nat.succ_le_succ (itemsDepth_le fun v hv => (h v hv).2)⟩

theorem ReadWithin.object {d : Nat} {ms : List (String × Json)} (h : ∀ m ∈ ms, m.2.ReadWithin d) :
    (Json.object ms).ReadWithin (d + 1) :=
  ⟨membersRead_iff.mpr fun m hm => (h m hm).1,
    Nat.succ_le_succ (membersDepth_le fun m hm => (h m hm).2)⟩

theorem ReadWithin.string (d : Nat) (s : String) : (Json.string s).ReadWithin d :=
  ⟨trivial, Nat.zero_le d⟩

theorem ReadWithin.nat (d : Nat) (n : Word 64) : (Json.nat n).ReadWithin d :=
  ⟨isRead_nat n.isLt, Nat.zero_le d⟩

end Json

end Countersign
