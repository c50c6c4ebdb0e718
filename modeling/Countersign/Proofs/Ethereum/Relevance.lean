import Countersign.Proofs.Ethereum.ArraySizes
import Countersign.Proofs.Ethereum.Reading

/-!
# What a hash depends on

The hash of a message is made of the struct types that its primary type leads to and of the members
that these declare. Struct types that are not reached may come, go and change, as may members that
are not declared where they stand. The hash remains the same, and if there is none, so does the
reason.
-/
namespace Countersign.TypedData

/-! ### Struct types that are reached -/

/-- No name with another definition is reached from a name, before or after. -/
def SameFrom (types types' : Types) (name : String) : Prop :=
  ∀ n, types.lookup n ≠ types'.lookup n →
    ¬Relation.ReflTransGen (Leads types) name n ∧ ¬Relation.ReflTransGen (Leads types') name n

namespace SameFrom

variable {types types' : Types} {name n : String}

theorem symm (h : SameFrom types types' name) : SameFrom types' types name :=
  fun n hn => (h n hn.symm).symm

theorem lookup_eq (h : SameFrom types types' name)
    (hn : Relation.ReflTransGen (Leads types) name n) : types.lookup n = types'.lookup n := by
  by_contra hne
  exact (h n hne).1 hn

/-- What is reached before is reached after. -/
theorem reached (h : SameFrom types types' name) (hn : Relation.ReflTransGen (Leads types) name n) :
    Relation.ReflTransGen (Leads types') name n := by
  induction hn with
  | refl => exact .refl
  | tail ha hleads ih =>
    obtain ⟨fields, hfields, f, hf, hbase, others, hothers⟩ := hleads
    refine ih.tail ⟨fields, ?_, f, hf, hbase, others, ?_⟩
    · rw [← h.lookup_eq ha, hfields]
    · rw [← h.lookup_eq (ha.tail ⟨fields, hfields, f, hf, hbase, others, hothers⟩), hothers]

/-- From a field nothing is reached that differs. A name that is not defined reaches itself only,
and is defined differently then. -/
theorem not_reached_field (h : SameFrom types types' name) {fields : List Field}
    (hname : types.lookup name = some fields) {f : Field} (hf : f ∈ fields) {base : String}
    (hbase : IsBase f.type base) (hn : types.lookup n ≠ types'.lookup n) :
    ¬Relation.ReflTransGen (Leads types) base n := by
  intro hreached
  have hname' : types'.lookup name = some fields := (h.lookup_eq .refl).symm.trans hname
  cases hdefined : types.lookup base with
  | some others => exact (h n hn).1 (.head ⟨fields, hname, f, hf, hbase, others, hdefined⟩ hreached)
  | none =>
    rcases hreached.cases_head with rfl | ⟨_, ⟨others, hothers, _⟩, _⟩
    · obtain ⟨others, hothers⟩ :=
        Option.ne_none_iff_exists'.mp fun hnone => hn (hdefined.trans hnone.symm)
      exact (h base hn).2 (.single ⟨fields, hname', f, hf, hbase, others, hothers⟩)
    · rw [hdefined] at hothers
      cases hothers

/-- From the type of a field the same struct types are reached. -/
theorem field (h : SameFrom types types' name) {fields : List Field}
    (hname : types.lookup name = some fields) {f : Field} (hf : f ∈ fields) {base : String}
    (hbase : IsBase f.type base) :
    SameFrom types types' base := by
  have hname' : types'.lookup name = some fields := (h.lookup_eq .refl).symm.trans hname
  exact fun n hn =>
    ⟨h.not_reached_field hname hf hbase hn, h.symm.not_reached_field hname' hf hbase hn.symm⟩

theorem exists_written (h : SameFrom types types' name) (hplain : PlainTypes types)
    {fields : List Field} (hname : types.lookup name = some fields) {f : Field} (hf : f ∈ fields) :
    ∃ t : FieldType, t.WrittenAs f.type ∧ SameFrom types types' t.baseName := by
  obtain ⟨t, ht⟩ := hplain _ (mem_of_lookup hname) f hf
  exact ⟨t, ht, h.field hname hf (baseType_eq_iff.mp ht.baseType_eq)⟩

end SameFrom

/-! ### Texts of types -/

theorem formatTypes_congr {types types' : Types} {names : List String}
    (h : ∀ n ∈ names, types.lookup n = types'.lookup n) :
    formatTypes types names = formatTypes types' names := by
  induction names with
  | nil => rfl
  | cons n names ih =>
    obtain ⟨hn, hnames⟩ := List.forall_mem_cons.mp h
    rw [formatTypes, formatTypes, formatType, formatType, hn, ih hnames]

theorem SameFrom.encodeType_eq {types types' : Types} {name : String}
    (h : SameFrom types types' name) : encodeType types name = encodeType types' name := by
  have hnodup (types : Types) : ((reachable types name).filter (· ≠ name)).Nodup :=
    (nodup_reach types _ (List.nodup_singleton name)).filter _
  have hothers : sorted ((reachable types name).filter (· ≠ name)) =
      sorted ((reachable types' name).filter (· ≠ name)) := by
    apply sorted_congr (hnodup types) (hnodup types')
    intro n
    rw [List.mem_filter, List.mem_filter, mem_reachable, mem_reachable]
    exact and_congr_left fun _ => ⟨h.reached, h.symm.reached⟩
  rw [encodeType, encodeType, ← hothers]
  apply formatTypes_congr
  intro n hn
  rcases List.mem_cons.mp hn with rfl | hn
  · exact h.lookup_eq .refl
  · exact h.lookup_eq (mem_others.mp hn).2

/-! ### Words of values -/

theorem encodeItems_congr {types types' : Types} {type : String} {items items' : List Json}
    (h : List.Forall₂ (fun j j' => encodeField types j type = encodeField types' j' type)
      items items') :
    encodeItems types items type = encodeItems types' items' type := by
  induction h with
  | nil => simp only [encodeItems]
  | cons hj _ ih => rw [encodeItems, encodeItems, hj, ih]

theorem encodeFields_congr {encoders encoders' : Encoders} {fields : List Field}
    (h : ∀ f ∈ fields,
      (encoders.lookup f.name).map (· f.type) = (encoders'.lookup f.name).map (· f.type)) :
    encodeFields encoders fields = encodeFields encoders' fields := by
  induction fields with
  | nil => rfl
  | cons f fields ih =>
    obtain ⟨hf, hfields⟩ := List.forall_mem_cons.mp h
    rw [encodeFields, encodeFields, ih hfields]
    cases hfound : encoders.lookup f.name with
    | none =>
      rw [hfound, Option.map_none, eq_comm, Option.map_eq_none_iff] at hf
      rw [hf]
    | some encode =>
      rw [hfound, Option.map_some, eq_comm, Option.map_eq_some_iff] at hf
      obtain ⟨encode', hfound', hword⟩ := hf
      simp only [hfound', hword]

/-- Objects have the same hash if all that is declared has the same words. -/
theorem hashStruct_congr {types types' : Types} {name : String}
    (htext : encodeType types name = encodeType types' name)
    (hname : types.lookup name = types'.lookup name) {members members' : List (String × Json)}
    (h : ∀ fields, types.lookup name = some fields → ∀ f ∈ fields,
      (members.lookup f.name).map (encodeField types · f.type) =
        (members'.lookup f.name).map (encodeField types' · f.type)) :
    hashStruct types name (.object members) = hashStruct types' name (.object members') := by
  have hdata : encodeFields (memberEncoders types members) ((types.lookup name).getD []) =
      encodeFields (memberEncoders types' members') ((types.lookup name).getD []) := by
    cases hfields : types.lookup name with
    | none => rfl
    | some fields =>
      apply encodeFields_congr
      intro f hf
      rw [lookup_memberEncoders, lookup_memberEncoders, Option.map_map, Option.map_map]
      exact h fields hfields f hf
  simp only [hashStruct, hashWith, htext, ← hname, hdata]

theorem SameFrom.hashStruct_eq {types types' : Types} {name : String}
    (h : SameFrom types types' name) {j : Json}
    (hmembers : ∀ members, j = .object members → ∀ fields, types.lookup name = some fields →
      ∀ f ∈ fields,
      ∀ i, members.lookup f.name = some i →
        encodeField types i f.type = encodeField types' i f.type) :
    hashStruct types name j = hashStruct types' name j := by
  cases j with
  | null | bool | number | string | array => simp only [hashStruct, hashWith, h.encodeType_eq]
  | object members =>
    refine hashStruct_congr h.encodeType_eq (h.lookup_eq .refl) fun fields hname f hf => ?_
    exact Option.map_congr fun i hi => hmembers members rfl fields hname f hf i hi

/-- The same struct types give a value the same word, or the same fault. By the size of the value:
items and members are smaller than it, while types may lead in circles. -/
theorem SameFrom.encodeField_eq {types types' : Types} (hplain : PlainTypes types) {t : FieldType}
    (h : SameFrom types types' t.baseName) {type : String} (ht : t.WrittenAs type) (j : Json) :
    encodeField types j type = encodeField types' j type := by
  cases t with
  | array item size =>
    have hitem := ht.itemType_array
    cases j with
    | array items =>
      have hitems : encodeItems types items (String.ofList item.text) =
          encodeItems types' items (String.ofList item.text) := by
        apply encodeItems_congr
        exact List.forall₂_same.mpr fun i hi =>
          SameFrom.encodeField_eq hplain (t := item) h ht.item i
      simp only [encodeField, hitem, hitems]
    | null | bool | number | string | object => simp only [encodeField, hitem]
  | base name =>
    have hitem := ht.itemType_base
    obtain rfl := ht.base_eq
    have hname : types.lookup type = types'.lookup type := h.lookup_eq .refl
    have hsame : defined types type = defined types' type := by rw [defined, defined, hname]
    cases hdefined : defined types type with
    | false =>
      rw [encodeField_atom hitem hdefined, encodeField_atom hitem (hsame.symm.trans hdefined)]
    | true =>
      rw [encodeField_struct hitem hdefined, encodeField_struct hitem (hsame.symm.trans hdefined)]
      refine SameFrom.hashStruct_eq h fun members hj fields hfields f hf i hi => ?_
      obtain ⟨t, ht, hfield⟩ := h.exists_written hplain hfields hf
      exact SameFrom.encodeField_eq hplain hfield ht i
termination_by sizeOf j
decreasing_by
  · rw [hj]
    exact sizeOf_member hi
  · exact sizeOf_item hi

/-! ### Members that are declared -/

/-- Two values are the same for a type but for members that are not declared where they stand: items
are alike one by one, and a member that a struct type declares is missing in both objects, or its
values are alike. -/
inductive Alike (types : Types) : FieldType → Json → Json → Prop
  | same {t : FieldType} {j : Json} : Alike types t j j
  | array {item : FieldType} {size : List Char} {items items' : List Json}
      (hlength : items.length = items'.length)
      (hitems : ∀ pair ∈ items.zip items', Alike types item pair.1 pair.2) :
      Alike types (.array item size) (.array items) (.array items')
  | struct {name : String} {fields : List Field} {members members' : List (String × Json)}
      (hname : types.lookup name = some fields)
      (hpresent : ∀ f ∈ fields, (members.lookup f.name).isSome = (members'.lookup f.name).isSome)
      (hmembers : ∀ f ∈ fields, ∀ t : FieldType, t.WrittenAs f.type → ∀ j j',
        members.lookup f.name = some j → members'.lookup f.name = some j' → Alike types t j j') :
      Alike types (.base name) (.object members) (.object members')

theorem hashStruct_present {types : Types} {name : String} {fields : List Field}
    (hname : types.lookup name = some fields) {members members' : List (String × Json)}
    (hpresent : ∀ f ∈ fields, (members.lookup f.name).isSome = (members'.lookup f.name).isSome)
    (hwords : ∀ f ∈ fields, ∀ j j',
      members.lookup f.name = some j → members'.lookup f.name = some j' →
        encodeField types j f.type = encodeField types j' f.type) :
    hashStruct types name (.object members) = hashStruct types name (.object members') := by
  refine hashStruct_congr rfl rfl fun fields' hfields' f hf => ?_
  obtain rfl := Option.some.inj (hname.symm.trans hfields')
  have hboth := hpresent f hf
  cases hj : members.lookup f.name with
  | none =>
    rw [hj, Option.isSome_none, eq_comm, Option.isSome_eq_false_iff,
      Option.isNone_iff_eq_none] at hboth
    rw [hboth]
  | some j =>
    rw [hj, Option.isSome_some, eq_comm, Option.isSome_iff_exists] at hboth
    obtain ⟨j', hj'⟩ := hboth
    rw [hj', Option.map_some, Option.map_some, hwords f hf j j' hj hj']

namespace Alike

variable {types : Types} {j j' : Json}

/-- Alike values have the same word, or the same fault. -/
theorem encodeField_eq (hplain : PlainTypes types) {t : FieldType} (h : Alike types t j j')
    {type : String} (ht : t.WrittenAs type) :
    encodeField types j type = encodeField types j' type := by
  induction h generalizing type with
  | same => rfl
  | array hlength _ ih =>
    have hitems := encodeItems_congr
      (List.forall₂_iff_zip.mpr ⟨hlength, fun hpair => ih _ hpair ht.item⟩)
    simp only [encodeField, ht.itemType_array, hitems]
  | struct hname hpresent _ ih =>
    obtain rfl := ht.base_eq
    have hdefined : defined types type = true := defined_iff.mpr ⟨_, hname⟩
    rw [encodeField_struct ht.itemType_base hdefined, encodeField_struct ht.itemType_base hdefined]
    refine hashStruct_present hname hpresent fun f hf j j' hj hj' => ?_
    obtain ⟨t, ht⟩ := hplain _ (mem_of_lookup hname) f hf
    exact ih f hf t ht j j' hj hj' ht

theorem hashStruct_eq (hplain : PlainTypes types) {name : String}
    (h : Alike types (.base name) j j') : hashStruct types name j = hashStruct types name j' := by
  cases h with
  | same => rfl
  | struct hname hpresent hmembers =>
    refine hashStruct_present hname hpresent fun f hf j j' hj hj' => ?_
    obtain ⟨t, ht⟩ := hplain _ (mem_of_lookup hname) f hf
    exact (hmembers f hf t ht j j' hj hj').encodeField_eq hplain ht

end Alike

/-! ### Messages -/

/-- Struct types that are not reached from the primary type, before or after, may be added, removed
and changed, and so may members that are not declared where they stand, at any depth and in any
number. The hash of the message is the same, or there is none for the same reason. -/
theorem messageHash_of_relevant (d : TypedData) (hplain : PlainTypes d.types) (types' : Types)
    (htypes : SameFrom d.types types' d.primaryType) (message' : Json)
    (hmessage : Alike d.types (.base d.primaryType) d.message message') :
    messageHash { d with types := types', message := message' } = d.messageHash := by
  have hmessages :
      hashStruct d.types d.primaryType d.message = hashStruct d.types d.primaryType message' :=
    hmessage.hashStruct_eq hplain
  have hstructs :
      hashStruct d.types d.primaryType message' = hashStruct types' d.primaryType message' := by
    refine htypes.hashStruct_eq fun members _ fields hfields f hf i _ => ?_
    obtain ⟨t, ht, hfield⟩ := htypes.exists_written hplain hfields hf
    exact hfield.encodeField_eq hplain ht i
  exact (hmessages.trans hstructs).symm

/-- A mail keeps its hash without the type of groups and with one of stamps, with a copy that is not
declared, and with the age of a person in an array. Without a text neither has a hash. -/
theorem mail_hashed_alike :
    let types : Types :=
      [("Mail", [⟨"to", "Person[]"⟩, ⟨"text", "string"⟩]), ("Group", [⟨"leader", "Person"⟩]),
      ("Person", [⟨"name", "string"⟩])]
    let types' : Types := [("Stamp", [⟨"mail", "Mail"⟩]), ("Person", [⟨"name", "string"⟩]),
      ("Mail", [⟨"to", "Person[]"⟩, ⟨"text", "string"⟩])]
    let bob : Json := .object [("name", .string "Bob")]
    let aged : Json := .object [("age", Json.nat 7), ("name", .string "Bob")]
    let message : Json := .object [("to", .array [bob]), ("text", .string "Hello")]
    let message' : Json :=
      .object [("copy", .null), ("text", .string "Hello"), ("to", .array [aged])]
    let d : TypedData := ⟨⟨none, none, none, none, none⟩, types, "Mail", message⟩
    PlainTypes types ∧ SameFrom types types' "Mail" ∧ Alike types (.base "Mail") message message' ∧
      (∃ b, d.messageHash = .ok b) ∧
      messageHash { d with types := types', message := message' } = d.messageHash ∧
      messageHash { d with types := types', message := .object [("to", .array [bob])] } =
        .error (.refused (.invalidTypedData "missing field: text")) := by
  intro types types' bob aged message message' d
  have hstring : FieldType.WrittenAs (.base "string") "string" :=
    ⟨FieldType.plain_base (by decide), rfl⟩
  have hpersons : FieldType.WrittenAs (.array (.base "Person") []) "Person[]" :=
    ⟨⟨FieldType.plain_base (by decide), .inl rfl⟩, rfl⟩
  have hperson : FieldType.WrittenAs (.base "Person") "Person" :=
    ⟨FieldType.plain_base (by decide), rfl⟩
  have hplain : PlainTypes types := by
    simp only [PlainTypes, types, List.forall_mem_cons, List.not_mem_nil, false_implies,
      implies_true, and_true]
    exact ⟨⟨⟨_, hpersons⟩, ⟨_, hstring⟩⟩, ⟨_, hperson⟩, ⟨_, hstring⟩⟩
  have hsame : ∀ n ∈ ["Mail", "Person"], types.lookup n = types'.lookup n := by decide
  have hreach : reachable types "Mail" = ["Mail", "Person"] := by decide +kernel
  have hreach' : reachable types' "Mail" = ["Mail", "Person"] := by decide +kernel
  have htypes : SameFrom types types' "Mail" := by
    intro n hn
    rw [← mem_reachable, ← mem_reachable, hreach, hreach']
    exact ⟨fun hmem => hn (hsame n hmem), fun hmem => hn (hsame n hmem)⟩
  have hbob : Alike types (.base "Person") bob aged := by
    refine .struct rfl (by decide) fun f hf t _ j j' hj hj' => ?_
    obtain rfl := List.mem_singleton.mp hf
    obtain rfl : j = j' := Option.some.inj (hj.symm.trans hj')
    exact .same
  have hmessage : Alike types (.base "Mail") message message' := by
    refine .struct rfl (by decide) fun f hf t ht j j' hj hj' => ?_
    rcases List.mem_cons.mp hf with rfl | hf
    · obtain rfl := hpersons.unique ht
      obtain rfl := Option.some.inj hj
      obtain rfl := Option.some.inj hj'
      refine .array rfl fun pair hpair => ?_
      obtain rfl := List.mem_singleton.mp hpair
      exact hbob
    · obtain rfl := List.mem_singleton.mp hf
      obtain rfl : j = j' := Option.some.inj (hj.symm.trans hj')
      exact .same
  have hword (text : String) : HasWord types (.string text) "string" :=
    (hasWord_atom rfl rfl).mpr ⟨_, rfl⟩
  have hbobWord : HasWord types bob "Person" :=
    (hasWord_struct rfl rfl).mpr ⟨_, rfl, List.forall_mem_singleton.mpr ⟨_, rfl, hword "Bob"⟩⟩
  have hwords : HasWords types [("to", .array [bob]), ("text", .string "Hello")]
      [⟨"to", "Person[]"⟩, ⟨"text", "string"⟩] :=
    List.forall_mem_cons.mpr
      ⟨⟨_, rfl, (hasWord_array rfl).mpr ⟨_, rfl, List.forall_mem_singleton.mpr hbobWord⟩⟩,
      List.forall_mem_singleton.mpr ⟨_, rfl, hword "Hello"⟩⟩
  refine ⟨hplain, htypes, hmessage, (exists_hashStruct rfl).mpr ⟨_, rfl, hwords⟩,
    messageHash_of_relevant d hplain types' htypes message' hmessage, ?_⟩
  have hmissing : messageHash { d with message := .object [("to", .array [bob])] } =
      .error (.refused (.invalidTypedData "missing field: text")) := by
    decide +kernel
  rw [← hmissing]
  exact messageHash_of_relevant { d with message := .object [("to", .array [bob])] } hplain types'
    htypes _ .same

end Countersign.TypedData
