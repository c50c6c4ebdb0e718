import Countersign.Proofs.Ethereum.TypeText
import Countersign.Proofs.Text.Utf8

/-!
# Texts of arbitrary types

The text of a struct type whatever the types of fields look like and however struct types lead to
each other: in circles, to themselves, or in several ways to one. Its own definition comes first;
behind it stands that of each other struct type that it leads to, once, in the order of the octets
of their names. They are found in rounds; a walk in depth, which turns back where it has been, finds
the same ones.
-/
namespace Countersign.TypedData

/-! ### A walk in depth -/

theorem referred_undefined {types : Types} {n : String} (h : n ∉ typeNames types) :
    referred types n = [] := by
  have hnone : types.lookup n = none := by
    rw [Option.eq_none_iff_forall_ne_some]
    exact fun fields hn => h (mem_typeNames.mpr ⟨fields, hn⟩)
  simp [referred, hnone]

/-- Visits the types of a list, each before those that its fields refer to and these before the rest
of the list, unless they are found already. A visit finds one type more, or refers to nothing. -/
def walk (types : Types) (found : List String) : List String → List String
  | [] => found
  | n :: rest =>
    if n ∈ found then walk types found rest else walk types (n :: found) (referred types n ++ rest)
termination_by names => ((typeNames types \ found.toFinset).card, names.length)
decreasing_by
  · exact Prod.Lex.right _ (by simp)
  · rename_i hnew
    by_cases hn : n ∈ typeNames types
    · apply Prod.Lex.left
      rw [List.toFinset_cons, Finset.sdiff_insert]
      exact Finset.card_erase_lt_of_mem (Finset.mem_sdiff.mpr ⟨hn, by simpa using hnew⟩)
    · have hsame : typeNames types \ (n :: found).toFinset = typeNames types \ found.toFinset := by
        rw [List.toFinset_cons, Finset.sdiff_insert_of_notMem hn]
      rw [hsame, referred_undefined hn]
      exact Prod.Lex.right _ (by simp)

section

variable {types : Types} {found names : List String}

theorem found_subset_walk : found ⊆ walk types found names := by
  fun_induction walk types found names with
  | case1 found => exact List.Subset.refl found
  | case2 found n rest hn ih => exact ih
  | case3 found n rest hn ih => exact fun m hm => ih (List.mem_cons_of_mem n hm)

theorem nodup_walk (h : found.Nodup) : (walk types found names).Nodup := by
  fun_induction walk types found names with
  | case1 found => exact h
  | case2 found n rest hn ih => exact ih h
  | case3 found n rest hn ih => exact ih (List.nodup_cons.mpr ⟨hn, h⟩)

theorem names_subset_walk : names ⊆ walk types found names := by
  fun_induction walk types found names with
  | case1 found => exact List.nil_subset found
  | case2 found n rest hn ih => exact List.cons_subset.mpr ⟨found_subset_walk hn, ih⟩
  | case3 found n rest hn ih =>
    refine List.cons_subset.mpr ⟨found_subset_walk List.mem_cons_self, ?_⟩
    exact fun m hm => ih (List.mem_append_right _ hm)

/-- All that is found was found before or can be reached from the list. -/
theorem walk_sound {n : String} (h : n ∈ walk types found names) :
    n ∈ found ∨ ∃ m ∈ names, Relation.ReflTransGen (Leads types) m n := by
  fun_induction walk types found names with
  | case1 found => exact .inl h
  | case2 found k rest hk ih =>
    exact (ih h).imp_right fun ⟨m, hm, hleads⟩ => ⟨m, List.mem_cons_of_mem k hm, hleads⟩
  | case3 found k rest hk ih =>
    rcases ih h with hfound | ⟨m, hm, hleads⟩
    · rcases List.mem_cons.mp hfound with rfl | hfound
      · exact .inr ⟨n, List.mem_cons_self, .refl⟩
      · exact .inl hfound
    · rcases List.mem_append.mp hm with hm | hm
      · exact .inr ⟨k, List.mem_cons_self, .head (mem_referred.mp hm) hleads⟩
      · exact .inr ⟨m, List.mem_cons_of_mem k hm, hleads⟩

/-- What a type that is found on the walk refers to is found as well. -/
theorem walk_closed {m : String} (h : m ∈ walk types found names) (hnew : m ∉ found) :
    referred types m ⊆ walk types found names := by
  fun_induction walk types found names with
  | case1 found => exact absurd h hnew
  | case2 found n rest hn ih => exact ih h hnew
  | case3 found n rest hn ih =>
    by_cases hm : m = n
    · subst hm
      exact fun k hk => names_subset_walk (List.mem_append_left _ hk)
    · exact ih h (List.not_mem_cons_of_ne_of_not_mem hm hnew)

end

/-- The walk in depth ends, and finds what the search in rounds finds. -/
theorem mem_walk {types : Types} {name n : String} :
    n ∈ walk types [] [name] ↔ Relation.ReflTransGen (Leads types) name n := by
  constructor
  · intro h
    rcases walk_sound h with hnone | ⟨m, hm, hleads⟩
    · cases hnone
    · rwa [List.mem_singleton.mp hm] at hleads
  · intro h
    induction h with
    | refl => exact names_subset_walk (List.mem_singleton.mpr rfl)
    | tail _ hleads ih => exact walk_closed ih List.not_mem_nil (mem_referred.mpr hleads)

/-- The order of the search makes no difference to the text. -/
theorem encodeType_walk (types : Types) (name : String) :
    encodeType types name =
      formatTypes types (name :: sorted ((walk types [] [name]).filter (· ≠ name))) := by
  have hsearch : (reachable types name).Nodup := nodup_reach types _ (List.nodup_singleton name)
  have hwalk : (walk types [] [name]).Nodup := nodup_walk List.nodup_nil
  have hothers : sorted ((reachable types name).filter (· ≠ name)) =
      sorted ((walk types [] [name]).filter (· ≠ name)) := by
    apply sorted_congr (hsearch.filter _) (hwalk.filter _)
    intro n
    rw [List.mem_filter, List.mem_filter, mem_reachable, mem_walk]
  rw [encodeType, hothers]

/-! ### Texts -/

theorem mem_typeNames_of_leads {types : Types} {name n : String}
    (h : Relation.ReflTransGen (Leads types) name n) (hne : n ≠ name) : n ∈ typeNames types := by
  cases h with
  | refl => exact absurd rfl hne
  | tail _ hn =>
    obtain ⟨_, _, _, _, _, hdefined⟩ := hn
    exact mem_typeNames.mpr hdefined

/-- The names behind that of the type itself. -/
theorem mem_others {types : Types} {name n : String} :
    n ∈ sorted ((reachable types name).filter (· ≠ name)) ↔
      n ≠ name ∧ Relation.ReflTransGen (Leads types) name n := by
  rw [(perm_sorted _).mem_iff, List.mem_filter, mem_reachable, decide_eq_true_eq, and_comm]

/-- They ascend, and none of them stands there twice. -/
theorem pairwise_others (types : Types) (name : String) :
    (sorted ((reachable types name).filter (· ≠ name))).Pairwise
      fun a b => Utf8.encode a < Utf8.encode b := by
  have hnodup : (sorted ((reachable types name).filter (· ≠ name))).Nodup :=
    (perm_sorted _).nodup_iff.mpr ((nodup_reach types _ (List.nodup_singleton name)).filter _)
  refine ((pairwise_sorted _).and hnodup).imp fun h => ?_
  exact Utf8.encode_lt_iff.mpr (lt_of_le_of_ne h.1 h.2)

theorem encodeType_undefined {types : Types} {name : String} (h : types.lookup name = none) :
    encodeType types name = .error (.refused (.undefinedType name)) := by
  simp only [encodeType, formatTypes, formatType, h]
  rfl

/-- A struct type has a text if and only if it is defined. The text is its definition with the
definitions behind it of all other struct types that it leads to and of no others, each of them once
and in the ascending order of the octets of their names. A walk in depth gives the same one. -/
theorem encodeType_closure (types : Types) (name : String) :
    (∀ fault, encodeType types name = .error fault ↔
      types.lookup name = none ∧ fault = .refused (.undefinedType name)) ∧
    (∀ fields, types.lookup name = some fields → ∃ others : List String,
      encodeType types name = .ok (String.join ((name :: others).map (definition types))) ∧
      others.Pairwise (fun a b => Utf8.encode a < Utf8.encode b) ∧
      ∀ n, n ∈ others ↔ n ≠ name ∧ Relation.ReflTransGen (Leads types) name n) ∧
    encodeType types name =
      formatTypes types (name :: sorted ((walk types [] [name]).filter (· ≠ name))) := by
  have htext (fields : List Field) (hname : types.lookup name = some fields) :
      encodeType types name = .ok (String.join
        ((name :: sorted ((reachable types name).filter (· ≠ name))).map (definition types))) := by
    apply formatTypes_eq
    intro n hn
    rcases List.mem_cons.mp hn with rfl | hn
    · exact mem_typeNames.mpr ⟨fields, hname⟩
    · obtain ⟨hne, hleads⟩ := mem_others.mp hn
      exact mem_typeNames_of_leads hleads hne
  refine ⟨?_, ?_, encodeType_walk types name⟩
  · intro fault
    constructor
    · intro h
      cases hname : types.lookup name with
      | none =>
        rw [encodeType_undefined hname] at h
        exact ⟨rfl, (Except.error.inj h).symm⟩
      | some fields =>
        rw [htext fields hname] at h
        cases h
    · rintro ⟨hname, rfl⟩
      exact encodeType_undefined hname
  · intro fields hname
    exact ⟨_, htext fields hname, pairwise_others types name, fun n => mem_others⟩

/-- Types that lead to each other and to themselves, with one between them that no other leads to.
-/
theorem cats_and_owners :
    let types : Types :=
      [("Owner", [⟨"cats", "Cat[][2]"⟩, ⟨"name", "string"⟩]), ("Dog", [⟨"owner", "Owner"⟩]),
      ("Cat", [⟨"mother", "Cat"⟩, ⟨"owner", "Owner"⟩, ⟨"toy", "Ball"⟩]),
      ("Ball", [⟨"size", "uint8"⟩])]
    encodeType types "Owner" =
      .ok "Owner(Cat[][2] cats,string name)Ball(uint8 size)Cat(Cat mother,Owner owner,Ball toy)" ∧
    encodeType types "Bird" = .error (.refused (.undefinedType "Bird")) ∧
    ∃ others : List String,
      encodeType types "Owner" = .ok (String.join (("Owner" :: others).map (definition types))) ∧
      others.Pairwise (fun a b => Utf8.encode a < Utf8.encode b) ∧
      ∀ n, n ∈ others ↔ n ≠ "Owner" ∧ Relation.ReflTransGen (Leads types) "Owner" n := by
  intro types
  obtain ⟨-, hdefined, -⟩ := encodeType_closure types "Owner"
  obtain ⟨hundefined, -⟩ := encodeType_closure types "Bird"
  exact ⟨by decide +kernel, (hundefined _).mpr ⟨rfl, rfl⟩, hdefined _ rfl⟩

end Countersign.TypedData
