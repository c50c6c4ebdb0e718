import Countersign.Ethereum.TypedHash
import Countersign.Proofs.Text.Numeral
import Mathlib.Data.List.TakeWhile

/-!
# Types of fields

The type of a field is a name with suffixes `[]` or `[n]` behind it. Its text is taken apart at the
first bracket for the name and at the last one for the type of the items.
-/
namespace Countersign.TypedData

/-- The last suffix of an array type opens with the last bracket that does. -/
theorem itemType_eq_some {type item : String} :
    itemType? type = some item ↔
      ∃ size, type.toList = item.toList ++ '[' :: (size ++ [']']) ∧ '[' ∉ size := by
  constructor
  · intro h
    unfold itemType? at h
    split at h
    next rest hrev =>
      split at h
      next front hdrop =>
        obtain rfl := Option.some.inj h
        rw [hrev, List.dropWhile_cons_of_pos (by decide)] at hdrop
        have hrest := List.takeWhile_append_dropWhile (p := fun c => decide (c ≠ '[')) (l := rest)
        rw [hdrop] at hrest
        have htext := congrArg List.reverse hrest.symm
        refine ⟨(rest.takeWhile (· ≠ '[')).reverse, ?_, fun hmem => ?_⟩
        · rw [← List.reverse_reverse type.toList, hrev, List.reverse_cons, htext]
          simp
        · simpa using List.mem_takeWhile_imp (List.mem_reverse.mp hmem)
      next => cases h
    next => cases h
  · rintro ⟨size, htext, hsize⟩
    have hnone : ∀ c ∈ size.reverse, decide (c ≠ '[') = true := by
      intro c hc
      simpa using ne_of_mem_of_not_mem (List.mem_reverse.mp hc) hsize
    have hrev : type.toList.reverse = ']' :: (size.reverse ++ '[' :: item.toList.reverse) := by
      simp [htext]
    have hdrop : (']' :: (size.reverse ++ '[' :: item.toList.reverse)).dropWhile (· ≠ '[') =
        '[' :: item.toList.reverse := by
      rw [List.dropWhile_cons_of_pos (by decide), List.dropWhile_append_of_pos hnone]
      rfl
    simp only [itemType?, hrev, hdrop, List.reverse_reverse, String.ofList_toList]

/-- A name, or an array with what stands between its brackets. -/
inductive FieldType where
  | base (name : String)
  | array (item : FieldType) (size : List Char)
  deriving DecidableEq, Repr

namespace FieldType

/-- The text of a type. -/
def text : FieldType → List Char
  | base name => name.toList
  | array item size => item.text ++ '[' :: (size ++ [']'])

/-- The name in front of all suffixes. -/
def baseName : FieldType → String
  | base name => name
  | array item _ => item.baseName

/-- There is no bracket in the name, and between brackets stands nothing or a decimal numeral. -/
def Plain : FieldType → Prop
  | base name => '[' ∉ name.toList
  | array item size => item.Plain ∧ (size = [] ∨ ∃ n, Digits.Numeral 10 size n)

/-- A text gives the type. -/
def WrittenAs (t : FieldType) (s : String) : Prop := t.Plain ∧ s.toList = t.text

theorem plain_base {name : String} (h : '[' ∉ name.toList) : (base name).Plain := h

theorem takeWhile_append_bracket (cs more : List Char) :
    (cs ++ '[' :: more).takeWhile (· ≠ '[') = cs.takeWhile (· ≠ '[') := by
  induction cs with
  | nil => rfl
  | cons c cs ih => by_cases hc : c = '[' <;> simp_all

theorem takeWhile_of_notMem {cs : List Char} (h : '[' ∉ cs) : cs.takeWhile (· ≠ '[') = cs := by
  rw [List.takeWhile_eq_self_iff]
  intro c hc
  simpa using ne_of_mem_of_not_mem hc h

theorem takeWhile_text {t : FieldType} (h : t.Plain) :
    t.text.takeWhile (· ≠ '[') = t.baseName.toList := by
  induction t with
  | base name => exact takeWhile_of_notMem h
  | array item size ih => exact (takeWhile_append_bracket _ _).trans (ih h.1)

theorem WrittenAs.baseType_eq {t : FieldType} {s : String} (h : t.WrittenAs s) :
    baseType s = t.baseName := by
  rw [baseType, h.2, takeWhile_text h.1, String.ofList_toList]

theorem WrittenAs.item {item : FieldType} {size : List Char} {s : String}
    (h : (array item size).WrittenAs s) : item.WrittenAs (String.ofList item.text) :=
  ⟨h.1.1, String.toList_ofList⟩

theorem WrittenAs.base_eq {name s : String} (h : (base name).WrittenAs s) : s = name :=
  String.toList_inj.mp h.2

theorem bracket_notMem_size {item : FieldType} {size : List Char} (h : (array item size).Plain) :
    '[' ∉ size := by
  obtain ⟨-, rfl | ⟨n, hn⟩⟩ := h
  · exact List.not_mem_nil
  · exact fun hmem => hn.ne (by decide) (by simp) _ hmem rfl

/-- Behind the last bracket that opens there is the size only. -/
theorem WrittenAs.itemType_array {item : FieldType} {size : List Char} {s : String}
    (h : (array item size).WrittenAs s) : itemType? s = some (String.ofList item.text) :=
  itemType_eq_some.mpr
    ⟨size, by rw [h.2, String.toList_ofList]; rfl, bracket_notMem_size h.1⟩

theorem WrittenAs.itemType_base {name s : String} (h : (base name).WrittenAs s) :
    itemType? s = none := by
  rw [Option.eq_none_iff_forall_ne_some]
  intro item hitem
  obtain ⟨size, htext, -⟩ := itemType_eq_some.mp hitem
  refine h.1 ?_
  rw [← h.base_eq, htext]
  simp

end FieldType

end Countersign.TypedData
