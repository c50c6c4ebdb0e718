import Countersign.Proofs.Ethereum.Refusal

/-!
# Sizes of arrays

An array type may say between its brackets how many items there are. Encoding cuts off what stands
there and does not read it: an array of any length has a word if its items have one. The size is
part of the text of a struct type, so it goes into the hash, but it does not decide whether there is
one.
-/
namespace Countersign.TypedData

/-! ### Values with a word -/

/-- Encoding a value as one of a type gives a word. -/
def HasWord (types : Types) (j : Json) (type : String) : Prop :=
  ∃ word, encodeField types j type = .ok word

/-- All fields of a struct are members of an object, with values that have words. -/
def HasWords (types : Types) (members : List (String × Json)) (fields : List Field) : Prop :=
  ∀ f ∈ fields, ∃ j, members.lookup f.name = some j ∧ HasWord types j f.type

section

variable {types : Types} {j : Json} {type name : String} {fields : List Field}

theorem hasWord_items {items : List Json} :
    (∃ words, encodeItems types items type = .ok words) ↔ ∀ j ∈ items, HasWord types j type := by
  constructor
  · rintro ⟨words, hwords⟩
    exact exists_word_of_items hwords
  · intro h
    induction items with
    | nil => exact ⟨[], by simp only [encodeItems]⟩
    | cons j items ih =>
      obtain ⟨⟨word, hj⟩, hitems⟩ := List.forall_mem_cons.mp h
      obtain ⟨words, hwords⟩ := ih hitems
      exact ⟨word ++ words, encodeItems_cons hj hwords⟩

/-- The value of an array type has a word if and only if it is an array, of any length, and its
items have words. -/
theorem hasWord_array {item : String} (hitem : itemType? type = some item) :
    HasWord types j type ↔ ∃ items, j = .array items ∧ ∀ i ∈ items, HasWord types i item := by
  constructor
  · rintro ⟨word, hword⟩
    cases j with
    | array items =>
      obtain ⟨words, hwords, -⟩ := contents_of_array hitem hword
      exact ⟨items, rfl, hasWord_items.mp ⟨words, hwords⟩⟩
    | null | bool | number | string | object =>
      simp only [encodeField, hitem] at hword
      cases hword
  · rintro ⟨items, rfl, hitems⟩
    obtain ⟨words, hwords⟩ := hasWord_items.mpr hitems
    exact ⟨_, encodeField_array hitem hwords⟩

theorem hasWord_atom (hitem : itemType? type = none) (hdefined : defined types type = false) :
    HasWord types j type ↔ ∃ word, encodePrimitive type j = .ok word := by
  rw [HasWord, encodeField_atom hitem hdefined]

theorem hasWord_fields {members : List (String × Json)} :
    (∃ data, encodeFields (memberEncoders types members) fields = .ok data) ↔
      HasWords types members fields := by
  constructor
  · rintro ⟨data, hdata⟩
    induction fields generalizing data with
    | nil => exact nofun
    | cons f fields ih =>
      obtain ⟨encode, word, more, hencode, hword, hmore, -⟩ := contents_of_fields hdata
      rw [lookup_memberEncoders] at hencode
      obtain ⟨j, hj, rfl⟩ := Option.map_eq_some_iff.mp hencode
      exact List.forall_mem_cons.mpr ⟨⟨j, hj, word, hword⟩, ih more hmore⟩
  · intro h
    induction fields with
    | nil => exact ⟨[], rfl⟩
    | cons f fields ih =>
      obtain ⟨⟨j, hmember, word, hword⟩, hfields⟩ := List.forall_mem_cons.mp h
      obtain ⟨data, hdata⟩ := ih hfields
      exact ⟨word ++ data, encodeFields_cons hmember hword hdata⟩

theorem hashStruct_undefined (hname : types.lookup name = none) :
    hashStruct types name j = .error (.refused (.undefinedType name)) := by
  have htext := encodeType_undefined hname
  cases j <;> simp only [hashStruct, hashWith, htext] <;> rfl

/-- There is a hash for a struct if and only if its value is an object with values for all fields.
-/
theorem exists_hashStruct (hname : types.lookup name = some fields) :
    (∃ b, hashStruct types name j = .ok b) ↔
      ∃ members, j = .object members ∧ HasWords types members fields := by
  obtain ⟨text, htext⟩ := exists_encodeType hname
  constructor
  · rintro ⟨b, hb⟩
    cases j with
    | object members =>
      obtain ⟨_, data, -, hdata, -⟩ := contents_of_struct hname hb
      exact ⟨members, rfl, hasWord_fields.mp ⟨data, hdata⟩⟩
    | null | bool | number | string | array =>
      simp only [hashStruct, hashWith, htext] at hb
      cases hb
  · rintro ⟨members, rfl, hfields⟩
    obtain ⟨data, hdata⟩ := hasWord_fields.mpr hfields
    exact ⟨_, hashStruct_object hname htext hdata⟩

theorem hasWord_struct (hitem : itemType? type = none) (hname : types.lookup type = some fields) :
    HasWord types j type ↔ ∃ members, j = .object members ∧ HasWords types members fields := by
  have hdefined : defined types type = true := defined_iff.mpr ⟨fields, hname⟩
  rw [HasWord, encodeField_struct hitem hdefined, exists_hashStruct hname]

end

/-! ### Types that differ in sizes -/

/-- Taking items out of arrays leads from both types to the same one, in as many steps. -/
inductive SameShape : String → String → Prop
  | leaf {type : String} (hitem : itemType? type = none) : SameShape type type
  | array {type type' item item' : String} (hitem : itemType? type = some item)
      (hitem' : itemType? type' = some item') (h : SameShape item item') : SameShape type type'

/-- Two fields of one name, with types that differ in sizes only. -/
def ResizedField (f f' : Field) : Prop :=
  f.name = f'.name ∧ SameShape f.type f'.type

/-- The same struct types but for the sizes of arrays in them. -/
def Resized : Types → Types → Prop :=
  List.Forall₂ fun entry entry' => entry.1 = entry'.1 ∧ List.Forall₂ ResizedField entry.2 entry'.2

theorem SameShape.symm {type type' : String} (h : SameShape type type') : SameShape type' type := by
  induction h with
  | leaf hitem => exact .leaf hitem
  | array hitem hitem' _ ih => exact .array hitem' hitem ih

theorem SameShape.baseType_eq {type type' : String} (h : SameShape type type') :
    baseType type' = baseType type := by
  induction h with
  | leaf => rfl
  | array hitem hitem' _ ih => rw [← baseType_item hitem, ← baseType_item hitem', ih]

theorem ResizedField.symm {f f' : Field} (h : ResizedField f f') : ResizedField f' f :=
  ⟨h.1.symm, h.2.symm⟩

namespace Resized

variable {types types' : Types}

theorem symm (h : Resized types types') : Resized types' types := by
  refine (List.Forall₂.imp (fun entry entry' hentry => ?_) h).flip
  exact ⟨hentry.1.symm, (List.Forall₂.imp (fun _ _ => ResizedField.symm) hentry.2).flip⟩

theorem lookup (h : Resized types types') {name : String} {fields : List Field}
    (hname : types.lookup name = some fields) :
    ∃ fields', types'.lookup name = some fields' ∧ List.Forall₂ ResizedField fields fields' := by
  induction h with
  | nil => cases hname
  | @cons entry entry' _ _ hentry _ ih =>
    obtain ⟨k, fs⟩ := entry
    obtain ⟨k', fs'⟩ := entry'
    obtain ⟨rfl, hfields⟩ : k = k' ∧ List.Forall₂ ResizedField fs fs' := hentry
    rw [List.lookup_cons] at hname ⊢
    cases hk : name == k with
    | true =>
      rw [hk] at hname
      obtain rfl := Option.some.inj hname
      exact ⟨fs', rfl, hfields⟩
    | false =>
      rw [hk] at hname
      exact ih hname

theorem defined_eq (h : Resized types types') (name : String) :
    defined types' name = defined types name := by
  have himp {a b : Types} (hab : Resized a b) (ha : defined a name = true) :
      defined b name = true := by
    obtain ⟨fields, hname⟩ := defined_iff.mp ha
    obtain ⟨fields', hname', -⟩ := hab.lookup hname
    exact defined_iff.mpr ⟨fields', hname'⟩
  exact Bool.eq_iff_iff.mpr ⟨himp h.symm, himp h⟩

theorem bases_eq (h : Resized types types') :
    (types'.flatMap fun (_, fields) => fields.map fun f => baseType f.type) =
      types.flatMap fun (_, fields) => fields.map fun f => baseType f.type := by
  have hfields {fields fields' : List Field} (hf : List.Forall₂ ResizedField fields fields') :
      (fields'.map fun f => baseType f.type) = fields.map fun f => baseType f.type := by
    induction hf with
    | nil => rfl
    | cons hfield _ ih => rw [List.map_cons, List.map_cons, hfield.2.baseType_eq, ih]
  induction h with
  | nil => rfl
  | @cons entry entry' _ _ hentry _ ih =>
    obtain ⟨_, fs⟩ := entry
    obtain ⟨_, fs'⟩ := entry'
    simp only [List.flatMap_cons, hfields hentry.2, ih]

/-- Validation does not look behind the first bracket of a type. -/
theorem validate_eq {d : TypedData} (h : Resized d.types types') :
    validate { d with types := types' } = d.validate := by
  simp only [validate, undefinedBase?, h.bases_eq, h.defined_eq]

theorem exists_field {fields fields' : List Field} (h : List.Forall₂ ResizedField fields fields')
    {f' : Field} (hf' : f' ∈ fields') : ∃ f ∈ fields, ResizedField f f' := by
  induction h with
  | nil => cases hf'
  | @cons f _ _ _ hfield _ ih =>
    rcases List.mem_cons.mp hf' with rfl | hf'
    · exact ⟨f, List.mem_cons_self, hfield⟩
    · obtain ⟨g, hg, hresized⟩ := ih hf'
      exact ⟨g, List.mem_cons_of_mem _ hg, hresized⟩

end Resized

theorem sizeOf_item {items : List Json} {i : Json} (hi : i ∈ items) :
    sizeOf i < sizeOf (Json.array items) := by
  have := List.sizeOf_lt_of_mem hi
  rw [Json.array.sizeOf_spec]
  omega

theorem sizeOf_member {members : List (String × Json)} {name : String} {i : Json}
    (hi : members.lookup name = some i) : sizeOf i < sizeOf (Json.object members) := by
  have := List.sizeOf_lt_of_mem (mem_of_lookup hi)
  rw [Prod.mk.sizeOf_spec] at this
  rw [Json.object.sizeOf_spec]
  omega

/-- Fields with other sizes have words if the values of the members still have theirs. -/
theorem HasWords.resized {types types' : Types} {members : List (String × Json)}
    {fields fields' : List Field} (hresized : List.Forall₂ ResizedField fields fields')
    (hvalues : ∀ name j, members.lookup name = some j → ∀ type type', SameShape type type' →
      HasWord types j type → HasWord types' j type')
    (h : HasWords types members fields) : HasWords types' members fields' := by
  intro f' hf'
  obtain ⟨f, hf, hname, hshape⟩ := Resized.exists_field hresized hf'
  obtain ⟨j, hj, hword⟩ := h f hf
  exact ⟨j, hname ▸ hj, hvalues _ j hj _ _ hshape hword⟩

/-- With other sizes the same values have words. By the size of the value: items and members are
smaller than it, while types may lead in circles. -/
theorem HasWord.resized {types types' : Types} (h : Resized types types') {j : Json}
    {type type' : String} (hshape : SameShape type type') (hword : HasWord types j type) :
    HasWord types' j type' := by
  cases hshape with
  | array hitem hitem' hshape =>
    obtain ⟨items, hj, hitems⟩ := (hasWord_array hitem).mp hword
    refine (hasWord_array hitem').mpr ⟨items, hj, fun i hi => ?_⟩
    exact HasWord.resized h hshape (hitems i hi)
  | leaf hitem =>
    cases hname : types.lookup type with
    | none =>
      have hdefined : defined types type = false := by rw [defined, hname, Option.isSome_none]
      rw [hasWord_atom hitem hdefined] at hword
      rwa [hasWord_atom hitem ((h.defined_eq type).trans hdefined)]
    | some fields =>
      obtain ⟨members, hj, hfields⟩ := (hasWord_struct hitem hname).mp hword
      obtain ⟨fields', hname', hresized⟩ := h.lookup hname
      refine (hasWord_struct hitem hname').mpr ⟨members, hj, hfields.resized hresized ?_⟩
      exact fun _ i hi _ _ hshape => HasWord.resized h hshape
termination_by sizeOf j
decreasing_by
  · rw [hj]
    exact sizeOf_member hi
  · rw [hj]
    exact sizeOf_item hi

theorem Resized.exists_messageHash {d : TypedData} {types' : Types} (h : Resized d.types types')
    (hb : ∃ b, d.messageHash = .ok b) : ∃ b, messageHash { d with types := types' } = .ok b := by
  cases hname : d.types.lookup d.primaryType with
  | none =>
    obtain ⟨b, hb⟩ := hb
    rw [messageHash, hashStruct_undefined hname] at hb
    cases hb
  | some fields =>
    obtain ⟨members, hmessage, hfields⟩ := (exists_hashStruct hname).mp hb
    obtain ⟨fields', hname', hresized⟩ := h.lookup hname
    refine (exists_hashStruct hname').mpr ⟨members, hmessage, hfields.resized hresized ?_⟩
    exact fun _ _ _ _ _ hshape => HasWord.resized h hshape

/-! ### Messages -/

/-- What stands between the brackets of an array type is not compared with the items, and need not
be a number. The value of such a type has a word if and only if it is an array, of any length, and
its items have words of the type of items. All that is sure is that there is an array: with anything
else under an array type there is no hash, and a message that passed validation is refused as
invalid. Other sizes, however many of them are changed and wherever they stand, change neither what
validation says nor whether there is a hash. -/
theorem array_sizes_not_compared (d : TypedData) :
    (∀ j type item, itemType? type = some item → (HasWord d.types j type ↔
      ∃ items, j = .array items ∧ ∀ i ∈ items, HasWord d.types i item)) ∧
    (∀ v type item, d.Meets v type → itemType? type = some item → (∀ items, v ≠ .array items) →
      (∀ b, d.messageHash ≠ .ok b) ∧ (d.validate = .ok () →
        ∃ detail, d.messageHash = .error (.refused (.invalidTypedData detail)))) ∧
    ∀ types', Resized d.types types' → validate { d with types := types' } = d.validate ∧
      ((∃ b, messageHash { d with types := types' } = .ok b) ↔ ∃ b, d.messageHash = .ok b) := by
  refine ⟨fun j type item hitem => hasWord_array hitem, fun v type item hmeets hitem hnone => ?_,
    fun types' h => ⟨h.validate_eq, ?_, h.exists_messageHash⟩⟩
  · have hno (b : Bytes) : d.messageHash ≠ .ok b := by
      intro hb
      obtain ⟨items, hv, -⟩ := (hasWord_array hitem).mp (hmeets.exists_word hb)
      exact hnone items hv
    refine ⟨hno, fun hvalid => ?_⟩
    cases hhash : d.messageHash with
    | ok b => exact absurd hhash (hno b)
    | error fault =>
      obtain ⟨_, rfl, detail, rfl⟩ := messageHash_invalid hvalid fault hhash
      exact ⟨detail, rfl⟩
  · exact Resized.exists_messageHash (d := { d with types := types' }) h.symm

/-- Boards of two rows of three cells each: there is a hash for one with a row of one cell and an
empty row, also if it is to have any number of rows of "many" cells. A row that is no array is
refused. -/
theorem ragged_board_hashed :
    let types : Types := [("Game", [⟨"board", "Cell[3][2]"⟩]), ("Cell", [⟨"mark", "uint8"⟩])]
    let types' : Types := [("Game", [⟨"board", "Cell[many][]"⟩]), ("Cell", [⟨"mark", "uint8"⟩])]
    let game (board : Json) : TypedData :=
      ⟨⟨none, none, none, none, none⟩, types, "Game", .object [("board", board)]⟩
    let ragged : Json := .array [.array [.object [("mark", Json.nat 1)]], .array []]
    let flat : Json := .array [Json.nat 1]
    (game ragged).validate = .ok () ∧ HasWord types ragged "Cell[3][2]" ∧ Resized types types' ∧
      validate { game ragged with types := types' } = .ok () ∧
      (∃ b, messageHash { game ragged with types := types' } = .ok b) ∧
      (game flat).Meets (Json.nat 1) "Cell[3]" ∧
      ∃ detail, (game flat).messageHash = .error (.refused (.invalidTypedData detail)) := by
  intro types types' game ragged flat
  have hrows : itemType? "Cell[3][2]" = some "Cell[3]" := rfl
  have hcells : itemType? "Cell[3]" = some "Cell" := rfl
  have hmark : SameShape "uint8" "uint8" := .leaf rfl
  have hboard : SameShape "Cell[3][2]" "Cell[many][]" :=
    .array hrows (show itemType? "Cell[many][]" = some "Cell[many]" from rfl)
      (.array hcells (show itemType? "Cell[many]" = some "Cell" from rfl) (.leaf rfl))
  have hresized : Resized types types' :=
    .cons ⟨rfl, .cons ⟨rfl, hboard⟩ .nil⟩ (.cons ⟨rfl, .cons ⟨rfl, hmark⟩ .nil⟩ .nil)
  have hmeets : (game flat).Meets (Json.nat 1) "Cell[3]" :=
    ⟨_, _, rfl, rfl, _, List.mem_cons_self, _, rfl, .item hrows List.mem_cons_self .here⟩
  obtain ⟨harrays, -, hsizes⟩ := array_sizes_not_compared (game ragged)
  obtain ⟨-, hnone, -⟩ := array_sizes_not_compared (game flat)
  obtain ⟨hvalidate, hhash⟩ := hsizes types' hresized
  have hmarkName : "uint8".toList = "uint".toList ++ ['8'] := rfl
  have hone : HasWord types (Json.nat 1) "uint8" :=
    (hasWord_atom rfl rfl).mpr ⟨wordOf 1, encodePrimitive_uint hmarkName _⟩
  have hcell : HasWord types (.object [("mark", Json.nat 1)]) "Cell" :=
    (hasWord_struct rfl rfl).mpr ⟨_, rfl, List.forall_mem_singleton.mpr ⟨_, rfl, hone⟩⟩
  have hrow : HasWord types (.array [.object [("mark", Json.nat 1)]]) "Cell[3]" :=
    (harrays _ _ _ hcells).mpr ⟨_, rfl, List.forall_mem_singleton.mpr hcell⟩
  have hempty : HasWord types (.array []) "Cell[3]" := (harrays _ _ _ hcells).mpr ⟨_, rfl, nofun⟩
  have hword : HasWord types ragged "Cell[3][2]" :=
    (harrays _ _ _ hrows).mpr ⟨_, rfl, List.forall_mem_cons.mpr
      ⟨hrow, List.forall_mem_singleton.mpr hempty⟩⟩
  have hmember : HasWords types [("board", ragged)] [⟨"board", "Cell[3][2]"⟩] :=
    List.forall_mem_singleton.mpr ⟨_, rfl, hword⟩
  have hvalid : (game ragged).validate = .ok () := by decide
  refine ⟨hvalid, hword, hresized, hvalidate.trans hvalid, hhash.mpr ?_, hmeets, ?_⟩
  · exact (exists_hashStruct rfl).mpr ⟨_, rfl, hmember⟩
  · exact (hnone _ _ _ hmeets hcells nofun).2 (by decide)

/-- A message with one item where two are announced, and with none where the number of items is no
number, passes validation and has a hash. -/
theorem short_array_hashed :
    let types : Types := [("M", [⟨"a", "uint256[2]"⟩, ⟨"b", "uint256[two]"⟩])]
    let d : TypedData := ⟨⟨none, none, none, none, none⟩, types, "M",
      .object [("a", .array [Json.nat 1]), ("b", .array [])]⟩
    itemType? "uint256[2]" = some "uint256" ∧ d.Meets (.array [Json.nat 1]) "uint256[2]" ∧
      itemType? "uint256[two]" = some "uint256" ∧ d.Meets (.array []) "uint256[two]" ∧
      d.validate = .ok () ∧ ∃ b, d.messageHash = .ok b := by
  intro types d
  have htwo : itemType? "uint256[2]" = some "uint256" := rfl
  have hnumber : itemType? "uint256[two]" = some "uint256" := rfl
  have hname : "uint256".toList = "uint".toList ++ ['2', '5', '6'] := rfl
  have hitem : HasWord types (Json.nat 1) "uint256" :=
    (hasWord_atom rfl rfl).mpr ⟨wordOf 1, encodePrimitive_uint hname _⟩
  have hshort : HasWord types (.array [Json.nat 1]) "uint256[2]" :=
    (hasWord_array htwo).mpr ⟨_, rfl, List.forall_mem_singleton.mpr hitem⟩
  have hempty : HasWord types (.array []) "uint256[two]" :=
    (hasWord_array hnumber).mpr ⟨_, rfl, nofun⟩
  have hmember : HasWords types [("a", .array [Json.nat 1]), ("b", .array [])]
      [⟨"a", "uint256[2]"⟩, ⟨"b", "uint256[two]"⟩] :=
    List.forall_mem_cons.mpr ⟨⟨_, rfl, hshort⟩, List.forall_mem_singleton.mpr ⟨_, rfl, hempty⟩⟩
  refine ⟨htwo, ⟨_, _, rfl, rfl, _, List.mem_cons_self, _, rfl, .here⟩, hnumber, ?_, by decide,
    (exists_hashStruct rfl).mpr ⟨_, rfl, hmember⟩⟩
  exact ⟨_, _, rfl, rfl, _, List.mem_cons_of_mem _ List.mem_cons_self, _, rfl, .here⟩

end Countersign.TypedData
