import Countersign.Proofs.Ethereum.FieldType
import Mathlib.Data.Finset.Sort
import Mathlib.Data.String.Basic
import Mathlib.Logic.Relation

/-!
# Texts of types

The text of a struct type is its definition and, in ascending order of their names, the definitions
of all other struct types that it refers to directly or through others. The search for them takes as
many steps as there are types, and each step but the last ones finds a type that is not found yet.
-/
namespace Countersign.TypedData

/-- All fields have a type that is a name with suffixes. -/
def PlainTypes (types : Types) : Prop :=
  ∀ entry ∈ types, ∀ f ∈ entry.2, ∃ t : FieldType, t.WrittenAs f.type

/-- A struct type has a field whose type has the name of another struct type in front. -/
def Refers (types : Types) (a b : String) : Prop :=
  ∃ fields, types.lookup a = some fields ∧ ∃ f ∈ fields, ∃ t : FieldType, t.WrittenAs f.type ∧
    t.baseName = b ∧ ∃ others, types.lookup b = some others

/-- The name in front of the first bracket of a type, whatever stands behind it. -/
def IsBase (type base : String) : Prop :=
  '[' ∉ base.toList ∧ (type = base ∨ ∃ suffixes, type.toList = base.toList ++ '[' :: suffixes)

/-- A struct type has a field whose type has the name of a struct type in front, in whatever form it
is written. -/
def Leads (types : Types) (a b : String) : Prop :=
  ∃ fields, types.lookup a = some fields ∧ ∃ f ∈ fields, IsBase f.type b ∧
    ∃ others, types.lookup b = some others

/-- The names of all struct types. -/
def typeNames (types : Types) : Finset String := (types.map Prod.fst).toFinset

open Classical in
/-- The other struct types that a type depends on, in ascending order. -/
noncomputable def dependencies (types : Types) (name : String) : List String :=
  ((typeNames types).filter fun n => n ≠ name ∧ Relation.ReflTransGen (Refers types) name n).sort

/-- The definition of a struct type: its name and its fields, each with its type in front. -/
def definition (types : Types) (name : String) : String :=
  name ++ "("
    ++ String.intercalate "," (((types.lookup name).getD []).map fun f => f.type ++ " " ++ f.name)
    ++ ")"

/-- The text of a struct type. -/
noncomputable def typeText (types : Types) (name : String) : String :=
  String.join ((name :: dependencies types name).map (definition types))

/-! ### References -/

theorem mem_typeNames {types : Types} {name : String} :
    name ∈ typeNames types ↔ ∃ fields, types.lookup name = some fields := by
  have h := List.lookup_isSome_iff (l := types) (k := name)
  simp only [Option.isSome_iff_exists, beq_iff_eq] at h
  rw [h, typeNames, List.mem_toFinset, List.mem_map]
  exact exists_congr fun p => and_congr_right fun _ => eq_comm

theorem defined_iff {types : Types} {name : String} :
    defined types name = true ↔ ∃ fields, types.lookup name = some fields :=
  Option.isSome_iff_exists

theorem mem_of_lookup {α : Type} {entries : List (String × α)} {name : String} {a : α}
    (h : entries.lookup name = some a) : (name, a) ∈ entries := by
  obtain ⟨before, rest, rfl, -⟩ := List.lookup_eq_some_iff.mp h
  simp

/-- The base of a type is what stands in front of its first bracket. -/
theorem baseType_eq_iff {type base : String} : baseType type = base ↔ IsBase type base := by
  constructor
  · rintro rfl
    have htext :=
      List.takeWhile_append_dropWhile (p := fun c => decide (c ≠ '[')) (l := type.toList)
    constructor
    · rw [baseType, String.toList_ofList]
      intro h
      simpa using List.mem_takeWhile_imp h
    · cases hrest : type.toList.dropWhile (· ≠ '[') with
      | nil =>
        rw [hrest, List.append_nil] at htext
        rw [baseType, htext, String.ofList_toList]
        exact .inl rfl
      | cons c rest =>
        have hc := List.head?_dropWhile_not (fun c => decide (c ≠ '[')) type.toList
        simp only [hrest, List.head?_cons, decide_eq_false_iff_not, not_not] at hc
        rw [hrest, hc] at htext
        exact .inr ⟨rest, by rw [baseType, String.toList_ofList]; exact htext.symm⟩
  · rintro ⟨hbase, rfl | ⟨suffixes, hsuffixes⟩⟩
    · rw [baseType, FieldType.takeWhile_of_notMem hbase, String.ofList_toList]
    · rw [baseType, hsuffixes, FieldType.takeWhile_append_bracket,
        FieldType.takeWhile_of_notMem hbase, String.ofList_toList]

theorem mem_referred {types : Types} {a b : String} : b ∈ referred types a ↔ Leads types a b := by
  simp only [referred, List.mem_filter, List.mem_map, defined_iff, Leads]
  cases ha : types.lookup a with
  | none => simp
  | some fields =>
    constructor
    · rintro ⟨⟨f, hf, hbase⟩, hb⟩
      exact ⟨fields, rfl, f, hf, baseType_eq_iff.mp hbase, hb⟩
    · rintro ⟨_, hfields, f, hf, hbase, hb⟩
      obtain rfl := Option.some.inj hfields
      exact ⟨⟨f, hf, baseType_eq_iff.mpr hbase⟩, hb⟩

/-- If all types of fields are names with suffixes, these are all references that there are. -/
theorem leads_eq_refers {types : Types} (hplain : PlainTypes types) :
    Leads types = Refers types := by
  funext a b
  refine propext (exists_congr fun fields => and_congr_right fun ha => exists_congr fun f => ?_)
  refine and_congr_right fun hf => ?_
  rw [← baseType_eq_iff]
  constructor
  · rintro ⟨hbase, hb⟩
    obtain ⟨t, ht⟩ := hplain _ (mem_of_lookup ha) f hf
    exact ⟨t, ht, ht.baseType_eq.symm.trans hbase, hb⟩
  · rintro ⟨t, ht, hbase, hb⟩
    exact ⟨ht.baseType_eq.trans hbase, hb⟩

/-! ### The search -/

theorem addNew_cons (names : List String) (m : String) (more : List String) :
    addNew names (m :: more) = addNew (if m ∈ names then names else names ++ [m]) more := by
  simp [addNew]

theorem mem_addNew {names more : List String} {n : String} :
    n ∈ addNew names more ↔ n ∈ names ∨ n ∈ more := by
  induction more generalizing names with
  | nil => simp [addNew]
  | cons m more ih =>
    rw [addNew_cons, ih]
    split <;> grind

theorem addNew_of_subset {names more : List String} (h : more ⊆ names) :
    addNew names more = names := by
  induction more with
  | nil => rfl
  | cons m more ih =>
    obtain ⟨hm, hmore⟩ := List.cons_subset.mp h
    rw [addNew_cons, if_pos hm, ih hmore]

theorem nodup_addNew {names : List String} (more : List String) (h : names.Nodup) :
    (addNew names more).Nodup := by
  induction more generalizing names with
  | nil => exact h
  | cons m more ih =>
    rw [addNew_cons]
    apply ih
    by_cases hm : m ∈ names
    · simpa [hm] using h
    · simpa [hm, List.nodup_append] using ⟨h, fun a ha ham => hm (ham ▸ ha)⟩

/-- Nothing more can be found from the names. -/
def Closed (types : Types) (names : List String) : Prop :=
  names.flatMap (referred types) ⊆ names

theorem reach_of_closed {types : Types} {names : List String} (h : Closed types names)
    (steps : Nat) : reach types steps names = names := by
  induction steps with
  | zero => rfl
  | succ steps ih => rw [reach, addNew_of_subset h, ih]

theorem nodup_reach (types : Types) (steps : Nat) {names : List String} (h : names.Nodup) :
    (reach types steps names).Nodup := by
  induction steps generalizing names with
  | zero => exact h
  | succ steps ih => exact ih (nodup_addNew _ h)

theorem subset_reach (types : Types) (steps : Nat) (names : List String) :
    names ⊆ reach types steps names := by
  induction steps generalizing names with
  | zero => exact List.Subset.refl names
  | succ steps ih => exact fun n hn => ih _ (mem_addNew.mpr (.inl hn))

theorem reach_sound {types : Types} {steps : Nat} {names : List String} {n : String}
    (h : n ∈ reach types steps names) : ∃ m ∈ names, Relation.ReflTransGen (Leads types) m n := by
  induction steps generalizing names with
  | zero => exact ⟨n, h, .refl⟩
  | succ steps ih =>
    obtain ⟨m, hm, hmn⟩ := ih h
    rcases mem_addNew.mp hm with hm | hm
    · exact ⟨m, hm, hmn⟩
    · obtain ⟨a, ha, ham⟩ := List.mem_flatMap.mp hm
      exact ⟨a, ha, .head (mem_referred.mp ham) hmn⟩

theorem referred_subset (types : Types) (a : String) :
    ∀ b ∈ referred types a, b ∈ typeNames types := by
  intro b hb
  exact mem_typeNames.mpr (defined_iff.mp (List.mem_filter.mp hb).2)

/-- With as many steps as there are types that are not found, the search finds all: a step that
finds a type leaves fewer of them missing. -/
theorem closed_reach {types : Types} {steps : Nat} {names : List String}
    (h : (typeNames types \ names.toFinset).card ≤ steps) :
    Closed types (reach types steps names) := by
  induction steps generalizing names with
  | zero =>
    intro b hb
    obtain ⟨a, -, hab⟩ := List.mem_flatMap.mp hb
    have hall := Finset.sdiff_eq_empty_iff_subset.mp (Finset.card_eq_zero.mp (Nat.le_zero.mp h))
    exact List.mem_toFinset.mp (hall (referred_subset types a b hab))
  | succ steps ih =>
    by_cases hc : Closed types names
    · rwa [reach_of_closed hc]
    · obtain ⟨b, hb, hnew⟩ := Set.not_subset.mp hc
      obtain ⟨a, -, hab⟩ := List.mem_flatMap.mp hb
      have hfewer :
          (typeNames types \ (addNew names (names.flatMap (referred types))).toFinset).card
          < (typeNames types \ names.toFinset).card := by
        refine Finset.card_lt_card ⟨fun n hn => ?_, fun hsub => ?_⟩
        · simp only [Finset.mem_sdiff, List.mem_toFinset, mem_addNew, not_or] at hn ⊢
          exact ⟨hn.1, hn.2.1⟩
        · have hmem : b ∈ typeNames types \ names.toFinset := by
            simpa using ⟨referred_subset types a b hab, hnew⟩
          have hgone := hsub hmem
          simp only [Finset.mem_sdiff, List.mem_toFinset, mem_addNew, not_or] at hgone
          exact hgone.2.2 hb
      exact ih (by omega)

/-- What is gathered from a type is what it leads to. -/
theorem mem_reachable {types : Types} {name n : String} :
    n ∈ reachable types name ↔ Relation.ReflTransGen (Leads types) name n := by
  have hsteps : (typeNames types \ [name].toFinset).card ≤ types.length :=
    calc (typeNames types \ [name].toFinset).card
        ≤ (typeNames types).card := Finset.card_le_card Finset.sdiff_subset
      _ ≤ (types.map Prod.fst).length := List.toFinset_card_le _
      _ = types.length := List.length_map _
  constructor
  · intro h
    obtain ⟨m, hm, hmn⟩ := reach_sound h
    rwa [List.mem_singleton.mp hm] at hmn
  · intro h
    induction h with
    | refl => exact subset_reach types _ _ (List.mem_singleton.mpr rfl)
    | tail _ hab ih =>
      exact closed_reach hsteps (List.mem_flatMap.mpr ⟨_, ih, mem_referred.mpr hab⟩)

/-! ### Order -/

theorem perm_insertSorted (name : String) (names : List String) :
    (insertSorted name names).Perm (name :: names) := by
  induction names with
  | nil => exact .refl _
  | cons n rest ih =>
    unfold insertSorted
    split
    · exact .refl _
    · exact (ih.cons n).trans (.swap name n rest)

theorem perm_sorted (names : List String) : (sorted names).Perm names := by
  induction names with
  | nil => exact .refl _
  | cons n rest ih => exact (perm_insertSorted n _).trans (ih.cons n)

theorem pairwise_insertSorted (name : String) {names : List String} (h : names.Pairwise (· ≤ ·)) :
    (insertSorted name names).Pairwise (· ≤ ·) := by
  induction names with
  | nil => exact List.pairwise_singleton _ _
  | cons n rest ih =>
    obtain ⟨hn, hrest⟩ := List.pairwise_cons.mp h
    unfold insertSorted
    by_cases hlt : name < n
    · rw [if_pos hlt]
      refine List.pairwise_cons.mpr ⟨fun m hm => ?_, h⟩
      rcases List.mem_cons.mp hm with rfl | hm
      · exact hlt.le
      · exact hlt.le.trans (hn m hm)
    · rw [if_neg hlt]
      refine List.pairwise_cons.mpr ⟨fun m hm => ?_, ih hrest⟩
      rcases List.mem_cons.mp ((perm_insertSorted name rest).mem_iff.mp hm) with rfl | hm
      · exact not_lt.mp hlt
      · exact hn m hm

theorem pairwise_sorted (names : List String) : (sorted names).Pairwise (· ≤ ·) := by
  induction names with
  | nil => exact .nil
  | cons n rest ih => exact pairwise_insertSorted n ih

/-- Names that are different from each other are put into the same order from any other. -/
theorem sorted_congr {names others : List String} (hnames : names.Nodup) (hothers : others.Nodup)
    (h : ∀ n, n ∈ names ↔ n ∈ others) : sorted names = sorted others := by
  apply List.Perm.eq_of_pairwise fun a b _ _ hab hba => le_antisymm hab hba
  · exact pairwise_sorted names
  · exact pairwise_sorted others
  · have hperm := (List.perm_ext_iff_of_nodup hnames hothers).mpr h
    exact (perm_sorted names).trans (hperm.trans (perm_sorted others).symm)

theorem mem_dependencies {types : Types} {name n : String} :
    n ∈ dependencies types name ↔
      n ∈ typeNames types ∧ n ≠ name ∧ Relation.ReflTransGen (Refers types) name n := by
  simp [dependencies]

theorem dependencies_eq {types : Types} (hplain : PlainTypes types) {name : String}
    {fields : List Field} (hname : types.lookup name = some fields) :
    sorted ((reachable types name).filter (· ≠ name)) = dependencies types name := by
  have hnodup : (sorted ((reachable types name).filter (· ≠ name))).Nodup :=
    (perm_sorted _).nodup_iff.mpr ((nodup_reach types _ (List.nodup_singleton name)).filter _)
  rw [← (List.toFinset_sort (· ≤ ·) hnodup).mpr (pairwise_sorted _), dependencies]
  congr 1
  ext n
  have hdefined : Relation.ReflTransGen (Refers types) name n → n ∈ typeNames types := by
    intro h
    cases h with
    | refl => exact mem_typeNames.mpr ⟨fields, hname⟩
    | tail _ hn =>
      obtain ⟨_, _, _, _, _, _, _, hn⟩ := hn
      exact mem_typeNames.mpr hn
  simp only [List.mem_toFinset, (perm_sorted _).mem_iff, List.mem_filter, mem_reachable,
    leads_eq_refers hplain, decide_eq_true_eq, Finset.mem_filter]
  exact ⟨fun h => ⟨hdefined h.1, h.2, h.1⟩, fun h => ⟨h.2.2, h.2.1⟩⟩

/-! ### Texts -/

theorem commaJoined_eq (texts : List String) :
    commaJoined texts = String.intercalate "," texts := by
  induction texts with
  | nil => rfl
  | cons s rest ih =>
    cases rest with
    | nil => simp [commaJoined]
    | cons t rest => simp only [commaJoined, String.intercalate_cons_cons, ← ih]

theorem formatType_eq {types : Types} {name : String} {fields : List Field}
    (h : types.lookup name = some fields) :
    formatType types name = .ok (definition types name) := by
  simp [formatType, definition, formatStruct, h, commaJoined_eq]

theorem formatTypes_eq {types : Types} {names : List String}
    (h : ∀ n ∈ names, n ∈ typeNames types) :
    formatTypes types names = .ok (String.join (names.map (definition types))) := by
  induction names with
  | nil => rfl
  | cons n rest ih =>
    obtain ⟨hn, hrest⟩ := List.forall_mem_cons.mp h
    obtain ⟨fields, hfields⟩ := mem_typeNames.mp hn
    rw [formatTypes, formatType_eq hfields, ih hrest, List.map_cons, String.join_cons]
    rfl

/-- The text of a type is the one that the standard gives it. -/
theorem encodeType_eq {types : Types} (hplain : PlainTypes types) {name : String}
    {fields : List Field} (hname : types.lookup name = some fields) :
    encodeType types name = .ok (typeText types name) := by
  rw [encodeType, dependencies_eq hplain hname, formatTypes_eq, typeText]
  intro n hn
  rcases List.mem_cons.mp hn with rfl | hn
  · exact mem_typeNames.mpr ⟨fields, hname⟩
  · exact (mem_dependencies.mp hn).1

end Countersign.TypedData
