import Countersign.Proofs.Ethereum.Closure
import Countersign.Proofs.Ethereum.StructHash
import Countersign.Proofs.Ethereum.Words

/-!
# Leaves of typed data

Encoding takes items out of arrays and members out of structs until it comes to values of types that
are neither. What it makes of them decides whether there is a hash, and what is refused otherwise: a
value of another shape than its type, or a type that nothing is known of. Validation looks at the
front of a type only. The type at its leaf is the name in front if all brackets behind the name are
closed, and else may be one that validation has never seen.
-/
namespace Countersign.TypedData

/-! ### Refusals -/

/-- Refusals that say what is wrong with a value, or that there is none. -/
inductive ValueRefusal : Error → Prop
  | shape (expected : String) (v : Json) :
      ValueRefusal (.invalidTypedData ("expected " ++ expected ++ ", got " ++ v.render))
  | digits (text : String) (fault : Hex.Fault) :
      ValueRefusal (.invalidTypedData (text ++ ": " ++ fault.message))
  | address (text : String) : ValueRefusal (.invalidTypedData (text ++ " is not an address"))
  | salt (text : String) : ValueRefusal (.invalidTypedData (text ++ " is not 32 bytes"))
  | wide (length : Nat) (type : String) :
      ValueRefusal (.invalidTypedData (Digits.decimal length ++ " bytes do not fit " ++ type))
  | array (type : String) : ValueRefusal (.invalidTypedData ("expected array for " ++ type))
  | object (name : String) : ValueRefusal (.invalidTypedData ("expected object for " ++ name))
  | missing (name : String) : ValueRefusal (.invalidTypedData ("missing field: " ++ name))

/-- There is a result, or a refusal with the property. -/
def RefusesWith (P : Error → Prop) {α : Type} (r : Except Fault α) : Prop :=
  ∀ fault, r = .error fault → ∃ e, fault = .refused e ∧ P e

namespace RefusesWith

variable {α β : Type} {P Q : Error → Prop}

theorem ok (a : α) : RefusesWith P (.ok a : Except Fault α) := nofun

theorem refused {e : Error} (he : P e) : RefusesWith P (.error (.refused e) : Except Fault α) :=
  fun _ h => ⟨e, (Except.error.inj h).symm, he⟩

theorem mono {r : Except Fault α} (hr : RefusesWith P r) (hPQ : ∀ e, P e → Q e) :
    RefusesWith Q r := by
  intro fault h
  obtain ⟨e, he, hP⟩ := hr fault h
  exact ⟨e, he, hPQ e hP⟩

theorem bind {x : Except Fault α} {f : α → Except Fault β} (hx : RefusesWith P x)
    (hf : ∀ a, x = .ok a → RefusesWith P (f a)) : RefusesWith P (x >>= f) := by
  cases x with
  | error fault => exact fun _ h => hx _ (congrArg _ (Except.error.inj h))
  | ok a => exact hf a rfl

theorem map {x : Except Fault α} (hx : RefusesWith P x) (f : α → β) : RefusesWith P (x.map f) := by
  cases x with
  | error fault => exact fun _ h => hx _ (congrArg _ (Except.error.inj h))
  | ok a => exact ok (f a)

end RefusesWith

/-! ### Atoms -/

theorem textOf_refuses (expected : String) (v : Json) :
    RefusesWith ValueRefusal (textOf expected v) := by
  unfold textOf
  split
  · exact .ok _
  · exact .refused (.shape _ _)

theorem octetsOf_refuses (text : String) : RefusesWith ValueRefusal (octetsOf text) := by
  unfold octetsOf
  split
  · exact .ok _
  · exact .refused (.digits _ _)

theorem unsignedOf_refuses (v : Json) : RefusesWith ValueRefusal (unsignedOf v) := by
  rcases unsignedOf_cases v with ⟨n, h⟩ | h <;> rw [h]
  · exact .ok n
  · exact .refused (.shape _ _)

theorem signedOf_refuses (v : Json) : RefusesWith ValueRefusal (signedOf v) := by
  rcases signedOf_cases v with ⟨n, h⟩ | ⟨w, h⟩ <;> rw [h]
  · exact .ok n
  · exact .refused (.shape _ _)

/-- Octets that are no longer than a word do not overrun it. -/
theorem fixedOf_refuses {width : Nat} (hwidth : width ≤ 32) (type : String) (v : Json) :
    RefusesWith ValueRefusal (fixedOf type width v) := by
  refine (textOf_refuses type v).bind fun text _ => (octetsOf_refuses text).bind fun b _ => ?_
  split
  · exact .refused (.wide _ _)
  · rw [if_neg (by omega)]
    exact .ok _

/-- All that can be refused about an atom is its value. -/
theorem Atom.Names.refuses {a : Atom} {name : String} (h : a.Names name) (v : Json) :
    RefusesWith ValueRefusal (encodePrimitive name v) := by
  cases h with
  | text => exact (textOf_refuses _ v).bind fun _ _ => .ok _
  | octets =>
    exact (textOf_refuses _ v).bind fun text _ => (octetsOf_refuses text).bind fun _ _ => .ok _
  | bool =>
    cases v with
    | bool b => exact .ok _
    | null | number | string | array | object => exact .refused (.shape _ _)
  | address =>
    refine (textOf_refuses _ v).bind fun text _ => (octetsOf_refuses text).bind fun b _ => ?_
    split
    · exact .ok _
    · exact .refused (.address _)
  | unsigned =>
    have hname : "uint".toList = "uint".toList ++ [] := rfl
    rw [encodePrimitive_uint hname]
    exact (unsignedOf_refuses v).map _
  | signed =>
    have hname : "int".toList = "int".toList ++ [] := rfl
    rw [encodePrimitive_int hname]
    exact (signedOf_refuses v).map _
  | fixed hname hpos hle =>
    rw [encodePrimitive_bytes hname]
    exact fixedOf_refuses hle name v
  | unsignedOf hname hpos hle hoctets =>
    obtain ⟨cs, hcs, -⟩ := hname
    rw [encodePrimitive_uint hcs]
    exact (unsignedOf_refuses v).map _
  | signedOf hname hpos hle hoctets =>
    obtain ⟨cs, hcs, -⟩ := hname
    rw [encodePrimitive_int hcs]
    exact (signedOf_refuses v).map _

/-! ### Leaves of types -/

namespace FieldType

/-- There is no bracket in the name, and between brackets there is none that opens. -/
def Closed : FieldType → Prop
  | base name => '[' ∉ name.toList
  | array item size => item.Closed ∧ '[' ∉ size

end FieldType

/-- All brackets behind the name of a type are closed, one behind the other. -/
def ClosedType (type : String) : Prop :=
  ∃ t : FieldType, t.Closed ∧ type.toList = t.text

/-- What a type comes to when items are taken out of arrays for as long as there are arrays. -/
inductive LeafType : String → String → Prop
  | here {type : String} (h : itemType? type = none) : LeafType type type
  | item {type item leaf : String} (h : itemType? type = some item) (hleaf : LeafType item leaf) :
      LeafType type leaf

/-- The items of an array type have the same name in front. -/
theorem baseType_item {type item : String} (h : itemType? type = some item) :
    baseType item = baseType type := by
  obtain ⟨size, htext, -⟩ := itemType_eq_some.mp h
  rw [baseType, baseType, htext, FieldType.takeWhile_append_bracket]

theorem baseType_eq_self {type : String} (h : '[' ∉ type.toList) : baseType type = type := by
  rw [baseType, FieldType.takeWhile_of_notMem h, String.ofList_toList]

/-- The name in front of a type has no brackets. -/
theorem bracket_notMem_baseType (type : String) : '[' ∉ (baseType type).toList :=
  (baseType_eq_iff.mp rfl).1

namespace LeafType

variable {type leaf : String}

/-- Every type has a leaf, as an item type is shorter than its array type. -/
theorem exists_leaf (type : String) : ∃ leaf, LeafType type leaf := by
  generalize hn : type.toList.length = n
  induction n using Nat.strong_induction_on generalizing type with
  | _ n ih =>
    cases hitem : itemType? type with
    | none => exact ⟨type, .here hitem⟩
    | some item =>
      obtain ⟨size, htext, -⟩ := itemType_eq_some.mp hitem
      have hshorter : item.toList.length < n := by
        rw [← hn, htext]
        simp
      obtain ⟨leaf, hleaf⟩ := ih _ hshorter item rfl
      exact ⟨leaf, .item hitem hleaf⟩

theorem unique {leaf' : String} (h : LeafType type leaf) (h' : LeafType type leaf') :
    leaf = leaf' := by
  induction h with
  | here hnone =>
    cases h' with
    | here => rfl
    | item hitem => rw [hnone] at hitem; cases hitem
  | item hitem _ ih =>
    cases h' with
    | here hnone => rw [hitem] at hnone; cases hnone
    | item hitem' hleaf' =>
      rw [hitem] at hitem'
      exact ih (Option.some.inj hitem' ▸ hleaf')

/-- Taking items out of arrays does not change the name in front. -/
theorem baseType_eq (h : LeafType type leaf) : baseType leaf = baseType type := by
  induction h with
  | here => rfl
  | item hitem _ ih => exact ih.trans (baseType_item hitem)

/-- The leaf of a type is the name in front of it if no bracket is left. -/
theorem eq_baseType_iff (h : LeafType type leaf) : leaf = baseType type ↔ '[' ∉ leaf.toList := by
  constructor
  · rintro rfl
    exact bracket_notMem_baseType type
  · intro hnone
    rw [← h.baseType_eq, baseType_eq_self hnone]

theorem closed_iff (h : LeafType type leaf) : ClosedType type ↔ '[' ∉ leaf.toList := by
  induction h with
  | @here type hnone =>
    constructor
    · rintro ⟨t, ht, htext⟩
      cases t with
      | base name =>
        rw [htext]
        exact ht
      | array item size =>
        have hitem : itemType? type = some (String.ofList item.text) :=
          itemType_eq_some.mpr ⟨size, by rw [htext, String.toList_ofList]; rfl, ht.2⟩
        rw [hnone] at hitem
        cases hitem
    · exact fun hname => ⟨.base type, hname, rfl⟩
  | @item type item leaf hitem hleaf ih =>
    obtain ⟨size, htext, hsize⟩ := itemType_eq_some.mp hitem
    rw [← ih]
    constructor
    · rintro ⟨t, ht, htext'⟩
      cases t with
      | base name =>
        refine absurd ?_ ht
        have : name = type := (String.toList_inj.mp htext').symm
        rw [this, htext]
        simp
      | array item' size' =>
        have hitem' : itemType? type = some (String.ofList item'.text) :=
          itemType_eq_some.mpr ⟨size', by rw [htext', String.toList_ofList]; rfl, ht.2⟩
        rw [hitem] at hitem'
        obtain rfl := Option.some.inj hitem'
        exact ⟨item', ht.1, String.toList_ofList⟩
    · rintro ⟨t, ht, htext'⟩
      exact ⟨.array t size, ⟨ht, hsize⟩, by rw [htext, htext']; rfl⟩

end LeafType

/-! ### Leaves of values -/

/-- Encoding a value of a type comes to another value, of a type that is neither an array nor a
struct. -/
inductive Reaches (types : Types) : Json → String → Json → String → Prop
  | here {j : Json} {type : String} (hitem : itemType? type = none)
      (hdefined : defined types type = false) : Reaches types j type j type
  | item {items : List Json} {j v : Json} {type item leaf : String}
      (hitem : itemType? type = some item) (hj : j ∈ items) (h : Reaches types j item v leaf) :
      Reaches types (.array items) type v leaf
  | field {members : List (String × Json)} {fields : List Field} {f : Field} {j v : Json}
      {type leaf : String} (hitem : itemType? type = none) (hname : types.lookup type = some fields)
      (hf : f ∈ fields) (hmember : members.lookup f.name = some j)
      (h : Reaches types j f.type v leaf) : Reaches types (.object members) type v leaf

/-- Hashing the message comes to a value of a type. -/
def HasLeaf (d : TypedData) (v : Json) (leaf : String) : Prop :=
  ∃ members fields, d.message = .object members ∧ d.types.lookup d.primaryType = some fields ∧
    ∃ f ∈ fields, ∃ j, members.lookup f.name = some j ∧ Reaches d.types j f.type v leaf

/-- In front of the brackets of a type stands the name of a struct type or of an atom. -/
def Known (types : Types) (type : String) : Prop :=
  defined types (baseType type) = true ∨ isPrimitive (baseType type) = true

/-- The fields of all struct types are of known types. -/
def AllKnown (types : Types) : Prop :=
  ∀ entry ∈ types, ∀ f ∈ entry.2, Known types f.type

theorem Known.item {types : Types} {type item : String} (h : Known types type)
    (hitem : itemType? type = some item) : Known types item := by
  unfold Known
  rwa [baseType_item hitem]

theorem allKnown_of_validate {d : TypedData} (h : d.validate = .ok ()) : AllKnown d.types :=
  fun _ hentry _ hf => base_of_validate h hentry hf

theorem AllKnown.known {types : Types} (h : AllKnown types) {name : String} {fields : List Field}
    (hname : types.lookup name = some fields) : ∀ f ∈ fields, Known types f.type :=
  h _ (mem_of_lookup hname)

namespace Reaches

variable {types : Types} {j v : Json} {type leaf : String}

theorem known (h : Reaches types j type v leaf) (hall : AllKnown types) (htype : Known types type) :
    Known types leaf ∧ defined types leaf = false := by
  induction h with
  | here _ hdefined => exact ⟨htype, hdefined⟩
  | item hitem _ _ ih => exact ih (htype.item hitem)
  | field _ hname hf _ _ ih => exact ih (hall.known hname _ hf)

/-- The type of a leaf is that of the type itself or of a field of a struct type. -/
theorem leafType (h : Reaches types j type v leaf) :
    LeafType type leaf ∨ ∃ entry ∈ types, ∃ f ∈ entry.2, LeafType f.type leaf := by
  induction h with
  | here hitem _ => exact .inl (.here hitem)
  | item hitem _ _ ih => exact ih.imp_left (.item hitem)
  | field _ hname hf _ _ ih =>
    exact ih.elim (fun hleaf => .inr ⟨_, mem_of_lookup hname, _, hf, hleaf⟩) .inr

end Reaches

namespace HasLeaf

variable {d : TypedData} {v : Json} {leaf : String}

theorem known (h : d.HasLeaf v leaf) (hvalid : d.validate = .ok ()) :
    Known d.types leaf ∧ defined d.types leaf = false := by
  obtain ⟨_, fields, -, hprimary, f, hf, j, -, hreaches⟩ := h
  have hall := allKnown_of_validate hvalid
  exact hreaches.known hall (hall.known hprimary f hf)

theorem leafType (h : d.HasLeaf v leaf) :
    ∃ entry ∈ d.types, ∃ f ∈ entry.2, LeafType f.type leaf := by
  obtain ⟨_, fields, -, hprimary, f, hf, j, -, hreaches⟩ := h
  exact hreaches.leafType.elim (fun hleaf => ⟨_, mem_of_lookup hprimary, f, hf, hleaf⟩) id

end HasLeaf

/-! ### Unsupported types -/

/-- A type is refused whatever the value is. -/
def Unsupported (type : String) : Prop :=
  ∀ v, encodePrimitive type v = invalid ("unsupported type: " ++ type)

/-- Each atom has a value. -/
theorem Atom.Names.exists_word {a : Atom} {name : String} (h : a.Names name) :
    ∃ v word, encodePrimitive name v = .ok word := by
  cases h with
  | text => exact ⟨.string "", _, rfl⟩
  | octets => exact ⟨.string "", _, rfl⟩
  | bool => exact ⟨.bool true, _, rfl⟩
  | address => exact ⟨.string "0x0000000000000000000000000000000000000000", _, rfl⟩
  | unsigned => exact ⟨.number (.natural 0), _, rfl⟩
  | signed => exact ⟨.number (.natural 0), _, rfl⟩
  | fixed hname hpos hle =>
    exact ⟨.string "", _, by rw [encodePrimitive_bytes hname]; rfl⟩
  | unsignedOf hname hpos hle hoctets =>
    obtain ⟨cs, hcs, -⟩ := hname
    exact ⟨.number (.natural 0), _, encodePrimitive_uint hcs _⟩
  | signedOf hname hpos hle hoctets =>
    obtain ⟨cs, hcs, -⟩ := hname
    exact ⟨.number (.natural 0), _, encodePrimitive_int hcs _⟩

/-- With a bracket left the size behind a word is no number, and the words for integers are all that
is looked at. -/
theorem unsupported_of_bracket {type : String} (h : '[' ∈ type.toList)
    (huint : ¬"uint".toList <+: type.toList) (hint : ¬"int".toList <+: type.toList) :
    Unsupported type := by
  have hne {name : String} (hname : '[' ∉ name.toList) : type ≠ name := by
    rintro rfl
    exact hname h
  have hword {word : String} (hno : ¬word.toList <+: type.toList) :
      behindWord? word type = none := by
    rw [Option.eq_none_iff_forall_ne_some]
    exact fun cs hcs => hno ⟨cs, (behindWord_eq.mp hcs).symm⟩
  intro v
  unfold encodePrimitive
  rw [if_neg (hne (by decide)), if_neg (hne (by decide)), if_neg (hne (by decide)),
    if_neg (hne (by decide)), hword huint, hword hint]
  cases hbytes : behindWord? "bytes" type with
  | none => rfl
  | some size =>
    cases hread : Digits.read 10 (2 ^ 64) size with
    | error e =>
      simp only [hread]
      rfl
    | ok width =>
      refine absurd h ?_
      rw [behindWord_eq.mp hbytes, List.mem_append, not_or]
      exact ⟨by decide, Digits.notMem_of_read (by decide) (by decide) hread⟩

/-- Which types of leaves are refused, after validation. -/
theorem unsupported_iff {types : Types} {leaf : String} (hknown : Known types leaf)
    (hdefined : defined types leaf = false) :
    Unsupported leaf ↔
      '[' ∈ leaf.toList ∧ ¬"uint".toList <+: leaf.toList ∧ ¬"int".toList <+: leaf.toList := by
  constructor
  · intro hrefused
    have hnone (v : Json) (word : Bytes) : encodePrimitive leaf v ≠ .ok word := by
      rw [hrefused v]
      exact nofun
    refine ⟨?_, ?_, ?_⟩
    · by_contra hbracket
      have hbase := baseType_eq_self hbracket
      rw [Known, hbase, hdefined] at hknown
      obtain ⟨a, ha⟩ := exists_names (hknown.resolve_left Bool.false_ne_true)
      obtain ⟨v, word, hv⟩ := ha.exists_word
      exact hnone v word hv
    · rintro ⟨cs, hcs⟩
      exact hnone (.number (.natural 0)) _ (encodePrimitive_uint hcs.symm _)
    · rintro ⟨cs, hcs⟩
      exact hnone (.number (.natural 0)) _ (encodePrimitive_int hcs.symm _)
  · rintro ⟨hbracket, huint, hint⟩
    exact unsupported_of_bracket hbracket huint hint

/-- What is refused about a leaf is its value or its type. -/
theorem encodePrimitive_refuses {types : Types} {leaf : String} (hknown : Known types leaf)
    (hdefined : defined types leaf = false) (v : Json) :
    RefusesWith
      (fun e => ValueRefusal e ∨
        Unsupported leaf ∧ e = .invalidTypedData ("unsupported type: " ++ leaf))
      (encodePrimitive leaf v) := by
  by_cases hunsupported : Unsupported leaf
  · rw [hunsupported v]
    exact .refused (.inr ⟨hunsupported, rfl⟩)
  · refine RefusesWith.mono (P := ValueRefusal) ?_ fun _ => .inl
    rw [unsupported_iff hknown hdefined] at hunsupported
    by_cases hbracket : '[' ∈ leaf.toList
    · by_cases huint : "uint".toList <+: leaf.toList
      · obtain ⟨cs, hcs⟩ := huint
        rw [encodePrimitive_uint hcs.symm]
        exact (unsignedOf_refuses v).map _
      · by_cases hint : "int".toList <+: leaf.toList
        · obtain ⟨cs, hcs⟩ := hint
          rw [encodePrimitive_int hcs.symm]
          exact (signedOf_refuses v).map _
        · exact absurd ⟨hbracket, huint, hint⟩ hunsupported
    · rw [Known, baseType_eq_self hbracket, hdefined] at hknown
      obtain ⟨a, ha⟩ := exists_names (hknown.resolve_left Bool.false_ne_true)
      exact ha.refuses v

/-! ### From the leaves to the hash -/

theorem exists_encodeType {types : Types} {name : String} {fields : List Field}
    (hname : types.lookup name = some fields) : ∃ text, encodeType types name = .ok text := by
  refine ⟨_, formatTypes_eq fun n hn => ?_⟩
  rcases List.mem_cons.mp hn with rfl | hn
  · exact mem_typeNames.mpr ⟨fields, hname⟩
  · obtain ⟨hne, hleads⟩ := mem_others.mp hn
    exact mem_typeNames_of_leads hleads hne

section

variable {P : Error → Prop} {types : Types}

theorem encodeFields_refuses {encoders : Encoders} {fields : List Field}
    (hvalue : ∀ e, ValueRefusal e → P e)
    (h : ∀ f ∈ fields, ∀ encode, encoders.lookup f.name = some encode →
      RefusesWith P (encode f.type)) : RefusesWith P (encodeFields encoders fields) := by
  induction fields with
  | nil => exact .ok _
  | cons f fields ih =>
    obtain ⟨hf, hfields⟩ := List.forall_mem_cons.mp h
    unfold encodeFields
    split
    next => exact .refused (hvalue _ (.missing _))
    next encode hencode =>
      exact (hf encode hencode).bind fun _ _ => (ih hfields).bind fun _ _ => .ok _

/-- Of a struct that is defined only the members of the value can be refused. -/
theorem hashWith_refuses (hvalue : ∀ e, ValueRefusal e → P e) {name : String} {fields : List Field}
    (hname : types.lookup name = some fields) {members : List (String × Json)}
    (h : ∀ f ∈ fields, ∀ j, members.lookup f.name = some j →
      RefusesWith P (encodeField types j f.type)) :
    RefusesWith P (hashWith types name (some (memberEncoders types members))) := by
  obtain ⟨text, htext⟩ := exists_encodeType hname
  unfold hashWith
  rw [htext, hname]
  refine (RefusesWith.ok text).bind fun _ _ => RefusesWith.bind ?_ fun _ _ => .ok _
  refine encodeFields_refuses hvalue fun f hf encode hencode => ?_
  rw [lookup_memberEncoders] at hencode
  obtain ⟨j, hj, rfl⟩ := Option.map_eq_some_iff.mp hencode
  exact h f hf j hj

theorem hashWith_none_refuses (hvalue : ∀ e, ValueRefusal e → P e) {name : String}
    {fields : List Field} (hname : types.lookup name = some fields) :
    RefusesWith P (hashWith types name none) := by
  obtain ⟨text, htext⟩ := exists_encodeType hname
  unfold hashWith
  rw [htext]
  exact (RefusesWith.ok text).bind fun _ _ => .refused (hvalue _ (.object name))

mutual

/-- What is refused about a value is itself, or one of the leaves in it. -/
theorem encodeField_refuses (hvalue : ∀ e, ValueRefusal e → P e) (j : Json) {type : String}
    (hleaf : ∀ v leaf, Reaches types j type v leaf → RefusesWith P (encodePrimitive leaf v)) :
    RefusesWith P (encodeField types j type) := by
  cases hitem : itemType? type with
  | some item =>
    cases j with
    | array items =>
      simp only [encodeField, hitem]
      have hitems : RefusesWith P (encodeItems types items item) :=
        encodeItems_refuses hvalue items fun j hj v leaf h => hleaf v leaf (.item hitem hj h)
      exact hitems.bind fun _ _ => .ok _
    | null | bool | number | string | object =>
      simp only [encodeField, hitem]
      exact .refused (hvalue _ (.array type))
  | none =>
    cases hdefined : defined types type with
    | false =>
      rw [encodeField_atom hitem hdefined]
      exact hleaf j type (.here hitem hdefined)
    | true =>
      obtain ⟨fields, hname⟩ := defined_iff.mp hdefined
      cases j with
      | object members =>
        rw [encodeField_struct hitem hdefined]
        refine hashWith_refuses hvalue hname fun f hf j hj => ?_
        exact memberEncoders_refuse hvalue members (f.name, j) (mem_of_lookup hj) f.type
          fun v leaf h => hleaf v leaf (.field hitem hname hf hj h)
      | null | bool | number | string | array =>
        simp only [encodeField, hitem, hdefined, if_true]
        exact hashWith_none_refuses hvalue hname

theorem encodeItems_refuses (hvalue : ∀ e, ValueRefusal e → P e) (items : List Json) {type : String}
    (hleaf : ∀ j ∈ items, ∀ v leaf, Reaches types j type v leaf →
      RefusesWith P (encodePrimitive leaf v)) : RefusesWith P (encodeItems types items type) := by
  cases items with
  | nil => simpa only [encodeItems] using RefusesWith.ok []
  | cons j items =>
    obtain ⟨hj, hitems⟩ := List.forall_mem_cons.mp hleaf
    simp only [encodeItems]
    exact (encodeField_refuses hvalue j hj).bind fun _ _ =>
      (encodeItems_refuses hvalue items hitems).bind fun _ _ => .ok _

theorem memberEncoders_refuse (hvalue : ∀ e, ValueRefusal e → P e)
    (members : List (String × Json)) :
    ∀ m ∈ members, ∀ type : String,
      (∀ v leaf, Reaches types m.2 type v leaf → RefusesWith P (encodePrimitive leaf v)) →
      RefusesWith P (encodeField types m.2 type) := by
  cases members with
  | nil => simp
  | cons m members =>
    obtain ⟨name, j⟩ := m
    refine List.forall_mem_cons.mpr ⟨fun type h => encodeField_refuses hvalue j h, ?_⟩
    exact memberEncoders_refuse hvalue members

end

/-- What is refused about a message is a value in it, or one of its leaves. -/
theorem messageHash_refuses {d : TypedData} (hvalue : ∀ e, ValueRefusal e → P e)
    (hprimary : ∃ fields, d.types.lookup d.primaryType = some fields)
    (hleaf : ∀ v leaf, d.HasLeaf v leaf → RefusesWith P (encodePrimitive leaf v)) :
    RefusesWith P d.messageHash := by
  obtain ⟨fields, hname⟩ := hprimary
  unfold messageHash hashStruct
  split
  next members hmessage =>
    refine hashWith_refuses hvalue hname fun f hf j hj =>
      encodeField_refuses hvalue j fun v leaf h => ?_
    exact hleaf v leaf ⟨members, fields, hmessage, hname, f, hf, j, hj, h⟩
  next => exact hashWith_none_refuses hvalue hname

end

/-! ### From the hash to the leaves -/

theorem exists_word_of_items {types : Types} {items : List Json} {type : String} {words : Bytes}
    (h : encodeItems types items type = .ok words) :
    ∀ j ∈ items, ∃ word, encodeField types j type = .ok word := by
  induction items generalizing words with
  | nil => simp
  | cons j items ih =>
    obtain ⟨word, more, hj, hmore, -⟩ := contents_of_items h
    exact List.forall_mem_cons.mpr ⟨⟨word, hj⟩, ih hmore⟩

theorem exists_word_of_fields {types : Types} {members : List (String × Json)} {fields : List Field}
    {data : Bytes} (h : encodeFields (memberEncoders types members) fields = .ok data) {f : Field}
    (hf : f ∈ fields) {j : Json} (hmember : members.lookup f.name = some j) :
    ∃ word, encodeField types j f.type = .ok word := by
  induction fields generalizing data with
  | nil => cases hf
  | cons g fields ih =>
    obtain ⟨encode, word, more, hencode, hword, hmore, -⟩ := contents_of_fields h
    rcases List.mem_cons.mp hf with rfl | hf
    · rw [lookup_memberEncoders, hmember] at hencode
      obtain rfl := Option.some.inj hencode
      exact ⟨word, hword⟩
    · exact ih hmore hf

/-- Encoding a value of a type comes to another value, of another type. -/
inductive Within (types : Types) : Json → String → Json → String → Prop
  | here {j : Json} {type : String} : Within types j type j type
  | item {items : List Json} {j v : Json} {type item inner : String}
      (hitem : itemType? type = some item) (hj : j ∈ items) (h : Within types j item v inner) :
      Within types (.array items) type v inner
  | field {members : List (String × Json)} {fields : List Field} {f : Field} {j v : Json}
      {type inner : String} (hitem : itemType? type = none)
      (hname : types.lookup type = some fields) (hf : f ∈ fields)
      (hmember : members.lookup f.name = some j) (h : Within types j f.type v inner) :
      Within types (.object members) type v inner

/-- Hashing the message comes to a value of a type, be it a leaf or not. -/
def Meets (d : TypedData) (v : Json) (type : String) : Prop :=
  ∃ members fields, d.message = .object members ∧ d.types.lookup d.primaryType = some fields ∧
    ∃ f ∈ fields, ∃ j, members.lookup f.name = some j ∧ Within d.types j f.type v type

/-- A value that has a word has one for each value in it. -/
theorem Within.exists_word {types : Types} {j v : Json} {type inner : String}
    (h : Within types j type v inner) {word : Bytes} (hword : encodeField types j type = .ok word) :
    ∃ w, encodeField types v inner = .ok w := by
  induction h generalizing word with
  | here => exact ⟨word, hword⟩
  | item hitem hj _ ih =>
    obtain ⟨words, hwords, -⟩ := contents_of_array hitem hword
    obtain ⟨w, hw⟩ := exists_word_of_items hwords _ hj
    exact ih hw
  | @field members fields f j v type inner hitem hname hf hmember _ ih =>
    rw [encodeField_struct hitem (defined_iff.mpr ⟨fields, hname⟩)] at hword
    obtain ⟨_, data, -, hdata, -⟩ := contents_of_struct hname hword
    obtain ⟨w, hw⟩ := exists_word_of_fields hdata hf hmember
    exact ih hw

theorem Meets.exists_word {d : TypedData} {v : Json} {type : String} (h : d.Meets v type)
    {b : Bytes} (hb : d.messageHash = .ok b) : ∃ w, encodeField d.types v type = .ok w := by
  obtain ⟨members, fields, hmessage, hprimary, f, hf, j, hmember, hwithin⟩ := h
  rw [messageHash, hmessage] at hb
  obtain ⟨_, data, -, hdata, -⟩ := contents_of_struct hprimary hb
  obtain ⟨w, hw⟩ := exists_word_of_fields hdata hf hmember
  exact hwithin.exists_word hw

/-- A leaf is a value where nothing is left to be taken out. -/
theorem Reaches.within {types : Types} {j v : Json} {type leaf : String}
    (h : Reaches types j type v leaf) :
    Within types j type v leaf ∧ encodeField types v leaf = encodePrimitive leaf v := by
  induction h with
  | here hitem hdefined => exact ⟨.here, encodeField_atom hitem hdefined _⟩
  | item hitem hj _ ih => exact ih.imp_left (.item hitem hj)
  | field hitem hname hf hmember _ ih => exact ih.imp_left (.field hitem hname hf hmember)

/-- If there is a hash then each leaf has a word. -/
theorem HasLeaf.exists_word {d : TypedData} {v : Json} {leaf : String} (h : d.HasLeaf v leaf)
    {b : Bytes} (hb : d.messageHash = .ok b) : ∃ w, encodePrimitive leaf v = .ok w := by
  obtain ⟨members, fields, hmessage, hprimary, f, hf, j, hmember, hreaches⟩ := h
  obtain ⟨hwithin, hleaf⟩ := hreaches.within
  rw [← hleaf]
  exact Meets.exists_word ⟨members, fields, hmessage, hprimary, f, hf, j, hmember, hwithin⟩ hb

/-! ### Domains -/

theorem domainWord_refuses {f : Field} (hf : isPrimitive f.type = true) (v : Json) :
    RefusesWith ValueRefusal (domainWord f v) := by
  obtain ⟨a, ha⟩ := exists_names hf
  unfold domainWord
  split
  · refine (textOf_refuses _ v).bind fun text _ => (octetsOf_refuses text).bind fun b _ => ?_
    split
    · exact (RefusesWith.refused (.salt text)).bind fun _ _ => ha.refuses v
    · exact ha.refuses v
  · exact ha.refuses v

theorem domainWords_refuses {members : List (Field × Json)}
    (h : ∀ m ∈ members, isPrimitive m.1.type = true) :
    RefusesWith ValueRefusal (domainWords members) := by
  induction members with
  | nil => exact .ok _
  | cons m members ih =>
    obtain ⟨f, v⟩ := m
    obtain ⟨hf, hmembers⟩ := List.forall_mem_cons.mp h
    exact (domainWord_refuses hf v).bind fun _ _ => (ih hmembers).bind fun _ _ => .ok _

theorem Domain.type_of_present {d : Domain} {m : Field × Json} (hm : m ∈ d.present) :
    m.1.type ∈ ["string", "string", "uint256", "address", "bytes32"] := by
  have htypes : d.members.map (fun m => m.1.type) =
      ["string", "string", "uint256", "address", "bytes32"] := rfl
  obtain ⟨member, hmember, hpresent⟩ := List.mem_filterMap.mp hm
  obtain ⟨v, -, rfl⟩ := Option.map_eq_some_iff.mp hpresent
  exact htypes ▸ List.mem_map_of_mem hmember

theorem Domain.primitive_of_present {d : Domain} :
    ∀ m ∈ d.present, isPrimitive m.1.type = true := by
  have hprimitive : ∀ type ∈ ["string", "string", "uint256", "address", "bytes32"],
      isPrimitive type = true := by
    decide
  exact fun m hm => hprimitive _ (type_of_present hm)

/-- All that can be refused about a domain is the value of a member. -/
theorem Domain.separator_refuses (d : Domain) : RefusesWith ValueRefusal d.separator :=
  (domainWords_refuses d.primitive_of_present).bind fun _ _ => .ok _

theorem signingHash_refuses {P : Error → Prop} {d : TypedData} (hvalue : ∀ e, ValueRefusal e → P e)
    (h : RefusesWith P d.messageHash) : RefusesWith P d.signingHash :=
  (d.domain.separator_refuses.mono hvalue).bind fun _ _ => h.bind fun _ _ => .ok _

/-! ### Types of messages -/

/-- What is refused about a message that passed validation is a value, or the type of a leaf. -/
theorem messageHash_leaves {d : TypedData} (hvalid : d.validate = .ok ()) :
    RefusesWith
      (fun e => ValueRefusal e ∨ ∃ v leaf, d.HasLeaf v leaf ∧ Unsupported leaf ∧
        e = .invalidTypedData ("unsupported type: " ++ leaf)) d.messageHash := by
  refine messageHash_refuses (fun _ => .inl) (primary_of_validate hvalid) fun v leaf h => ?_
  obtain ⟨hknown, hdefined⟩ := h.known hvalid
  refine (encodePrimitive_refuses hknown hdefined v).mono fun e he => he.imp_right ?_
  exact fun ⟨hunsupported, he⟩ => ⟨v, leaf, h, hunsupported, he⟩

/-- Validation and encoding read the type of a field alike if and only if all brackets behind the
name are closed. If a message passes validation then types that are not so are the only ones that it
may be refused for: one such leaf is enough for there to be no hash, unless the size of an integer
stands open. No type is ever found to be undefined. -/
theorem refused_only_for_open_types (d : TypedData) (hvalid : d.validate = .ok ()) :
    (∀ entry ∈ d.types, ∀ f ∈ entry.2, ∃ leaf, LeafType f.type leaf ∧
      (leaf = baseType f.type ↔ ClosedType f.type)) ∧
    (∀ v leaf, d.HasLeaf v leaf → ∃ entry ∈ d.types, ∃ f ∈ entry.2, LeafType f.type leaf ∧
      (Unsupported leaf ↔
        ¬ClosedType f.type ∧ ¬"uint".toList <+: leaf.toList ∧ ¬"int".toList <+: leaf.toList)) ∧
    (∀ e, d.messageHash = .error (.refused e) ∨ d.signingHash = .error (.refused e) →
      ValueRefusal e ∨ ∃ v leaf, d.HasLeaf v leaf ∧ Unsupported leaf ∧
        e = .invalidTypedData ("unsupported type: " ++ leaf)) ∧
    ∀ v leaf, d.HasLeaf v leaf → Unsupported leaf →
      ∀ b, d.messageHash ≠ .ok b ∧ d.signingHash ≠ .ok b := by
  refine ⟨fun entry hentry f hf => ?_, fun v leaf h => ?_, fun e he => ?_,
    fun v leaf h hunsupported b => ?_⟩
  · obtain ⟨leaf, hleaf⟩ := LeafType.exists_leaf f.type
    exact ⟨leaf, hleaf, hleaf.eq_baseType_iff.trans hleaf.closed_iff.symm⟩
  · obtain ⟨entry, hentry, f, hf, hleaf⟩ := h.leafType
    obtain ⟨hknown, hdefined⟩ := h.known hvalid
    refine ⟨entry, hentry, f, hf, hleaf, ?_⟩
    rw [unsupported_iff hknown hdefined, hleaf.closed_iff, Classical.not_not]
  · have hmessage := messageHash_leaves hvalid
    have hboth : RefusesWith _ d.messageHash ∧ RefusesWith _ d.signingHash :=
      ⟨hmessage, signingHash_refuses (fun _ => .inl) hmessage⟩
    obtain ⟨e', he', hrefusal⟩ := he.elim (hboth.1 _) (hboth.2 _)
    obtain rfl := Fault.refused.inj he'
    exact hrefusal
  · have hmessage (b : Bytes) : d.messageHash ≠ .ok b := by
      intro hb
      obtain ⟨w, hw⟩ := h.exists_word hb
      rw [hunsupported v] at hw
      cases hw
    refine ⟨hmessage b, fun hb => ?_⟩
    obtain ⟨_, -, hb⟩ := exists_of_bind_ok hb
    obtain ⟨message, hm, -⟩ := exists_of_bind_ok hb
    exact hmessage message hm

/-- Pairs in arrays, and a note whose bracket stands open: the leaf of the one is the name in front,
that of the other is no name at all, and there is no hash with the note in it. -/
theorem open_note_refused :
    let types : Types := [("Letter", [⟨"pairs", "Pair[2][]"⟩, ⟨"note", "string["⟩]),
      ("Pair", [⟨"size", "uint8["⟩])]
    let d : TypedData := ⟨⟨none, none, none, none, none⟩, types, "Letter",
      .object [("note", .string "x"), ("pairs", .array [])]⟩
    d.validate = .ok () ∧ LeafType "Pair[2][]" "Pair" ∧ ClosedType "Pair[2][]" ∧
      d.HasLeaf (.string "x") "string[" ∧ ¬ClosedType "string[" ∧
      ∀ b, d.messageHash ≠ .ok b ∧ d.signingHash ≠ .ok b := by
  intro types d
  have hvalid : d.validate = .ok () := by decide
  obtain ⟨hread, hleaves, -, hrefused⟩ := refused_only_for_open_types d hvalid
  have hpairs : LeafType "Pair[2][]" "Pair" :=
    .item (show itemType? "Pair[2][]" = some "Pair[2]" from rfl)
      (.item (show itemType? "Pair[2]" = some "Pair" from rfl) (.here rfl))
  have hopen : LeafType "string[" "string[" := .here rfl
  have hnote : d.HasLeaf (.string "x") "string[" :=
    ⟨_, _, rfl, rfl, ⟨"note", "string["⟩, by simp, _, rfl, .here rfl rfl⟩
  obtain ⟨leaf, hleaf, hiff⟩ := hread _ List.mem_cons_self ⟨"pairs", "Pair[2][]"⟩ List.mem_cons_self
  have hclosed : ClosedType "Pair[2][]" := hiff.mp (hleaf.unique hpairs ▸ rfl)
  have hnot : ¬ClosedType "string[" := by
    rw [hopen.closed_iff]
    decide
  exact ⟨hvalid, hpairs, hclosed, hnote, hnot,
    hrefused _ _ hnote (unsupported_of_bracket (by decide) (by decide) (by decide))⟩

/-- Validation takes the name in front of an open bracket for the type; encoding does not know the
type. -/
theorem open_bracket_passes_validation :
    let d : TypedData := ⟨⟨none, none, none, none, none⟩, [("M", [⟨"a", "string["⟩])], "M",
      .object [("a", .string "x")]⟩
    d.validate = .ok () ∧ baseType "string[" = "string" ∧ LeafType "string[" "string[" ∧
      d.messageHash = .error (.refused (.invalidTypedData "unsupported type: string[")) ∧
      d.signingHash = .error (.refused (.invalidTypedData "unsupported type: string[")) := by
  intro d
  exact ⟨by decide, by decide, .here rfl, by decide +kernel, by decide +kernel⟩

end Countersign.TypedData
