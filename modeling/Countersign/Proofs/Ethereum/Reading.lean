import Countersign.Proofs.Ethereum.StructHash
import Countersign.Proofs.Ethereum.Words

/-!
# Values that are read

What value a message gives, in whatever form it is written: numbers are taken in any form, and
arrays as long as they are. A value that is written as its type says is read as that value. The type
of a field is the only one with its text, and a name is that of one atom only.
-/
namespace Countersign

/-- The octets of a text tell it. -/
theorem Utf8.encode_inj {s t : String} (h : encode s = encode t) : s = t := by
  have hoctets : (String.ofList s.toList).toByteArray = (String.ofList t.toList).toByteArray :=
    congrArg List.toByteArray h
  rwa [String.toByteArray_inj, String.ofList_toList, String.ofList_toList] at hoctets

namespace TypedData

/-! ### Types -/

theorem FieldType.WrittenAs.unique {t t' : FieldType} {s : String} (h : t.WrittenAs s)
    (h' : t'.WrittenAs s) : t = t' := by
  induction t generalizing t' s with
  | base name =>
    cases t' with
    | base name' => rw [← h.base_eq, ← h'.base_eq]
    | array item' size' =>
      have hitem := h.itemType_base
      rw [h'.itemType_array] at hitem
      cases hitem
  | array item size ih =>
    cases t' with
    | base name' =>
      have hitem := h.itemType_array
      rw [h'.itemType_base] at hitem
      cases hitem
    | array item' size' =>
      have hitem := h.itemType_array
      rw [h'.itemType_array] at hitem
      have htext := Option.some.inj hitem
      obtain rfl : item = item' := ih h.item (htext ▸ h'.item)
      have hsize : (array item size).text = (array item size').text := h.2.symm.trans h'.2
      simpa [text] using hsize

/-- The atom of a name with a number behind its word. -/
def Atom.sized? (name : String) : Option Atom :=
  match behindWord? "bytes" name, behindWord? "uint" name, behindWord? "int" name with
  | some size, _, _ => (Digits.read 10 (2 ^ 64) size).toOption.map .fixed
  | none, some size, _ => (Digits.read 10 (2 ^ 64) size).toOption.map .unsigned
  | none, none, some size => (Digits.read 10 (2 ^ 64) size).toOption.map .signed
  | none, none, none => none

/-- The atom of a name. -/
def Atom.ofName? (name : String) : Option Atom :=
  if name = "string" then some .text
  else if name = "bytes" then some .octets
  else if name = "bool" then some .bool
  else if name = "address" then some .address
  else if name = "uint" then some (.unsigned 256)
  else if name = "int" then some (.signed 256)
  else sized? name

/-- No number stands behind the word alone. -/
theorem SizedName.ne_word {word name : String} {n : Nat} (h : SizedName word n name) :
    name ≠ word := by
  rintro rfl
  obtain ⟨cs, hcs, hread⟩ := h
  obtain rfl : cs = [] := by simpa using hcs
  cases hread

/-- A name with a number is none of the names without, if the word is in front of no other of them.
-/
theorem SizedName.ofName_eq {word name : String} {n : Nat} (h : SizedName word n name)
    (hword : ∀ plain ∈ ["string", "bytes", "bool", "address", "uint", "int"],
      plain = word ∨ ¬word.toList <+: plain.toList) : Atom.ofName? name = Atom.sized? name := by
  have hne (plain : String)
      (hplain : plain ∈ ["string", "bytes", "bool", "address", "uint", "int"]) : name ≠ plain := by
    rcases hword plain hplain with rfl | hfront
    · exact h.ne_word
    · obtain ⟨cs, hcs, -⟩ := h
      exact ne_of_word hcs hfront
  rw [Atom.ofName?, if_neg (hne _ (by simp)), if_neg (hne _ (by simp)), if_neg (hne _ (by simp)),
    if_neg (hne _ (by simp)), if_neg (hne _ (by simp)), if_neg (hne _ (by simp))]

theorem Atom.Names.ofName_eq {a : Atom} {name : String} (h : a.Names name) :
    ofName? name = some a := by
  cases h with
  | text | octets | bool | address | unsigned | signed => rfl
  | fixed h =>
    rw [h.ofName_eq (by decide)]
    obtain ⟨cs, hcs, hread⟩ := h
    rw [sized?, behindWord_eq.mpr hcs]
    simp only [hread]
    rfl
  | unsignedOf h =>
    rw [h.ofName_eq (by decide)]
    obtain ⟨cs, hcs, hread⟩ := h
    rw [sized?, behindWord_other hcs (by decide) (by decide), behindWord_eq.mpr hcs]
    simp only [hread]
    rfl
  | signedOf h =>
    rw [h.ofName_eq (by decide)]
    obtain ⟨cs, hcs, hread⟩ := h
    rw [sized?, behindWord_other hcs (by decide) (by decide),
      behindWord_other hcs (by decide) (by decide), behindWord_eq.mpr hcs]
    simp only [hread]
    rfl

/-- A name is that of one atom. -/
theorem Atom.Names.unique {a a' : Atom} {name : String} (h : a.Names name) (h' : a'.Names name) :
    a = a' :=
  Option.some.inj (h.ofName_eq.symm.trans h'.ofName_eq)

/-! ### Values -/

/-- What values are read for atoms. -/
inductive Atom.Reads : Atom → Json → Value → Prop
  | text (s : String) : Reads .text (.string s) (.text s)
  | octets {s : String} {b : Bytes} (h : Hex.IsText s b) : Reads .octets (.string s) (.octets b)
  | bool (b : Bool) : Reads .bool (.bool b) (.bool b)
  | address {s : String} {b : Bytes} (h : Hex.IsText s b) (hb : b.length = 20) :
      Reads .address (.string s) (.address b)
  | fixed {s : String} {b : Bytes} (h : Hex.IsText s b) :
      Reads (.fixed b.length) (.string s) (.fixed b)
  | unsigned {bits : Nat} {j : Json} {z : Int} (h : IntegerForm j z)
      (hz : 0 ≤ z ∧ z < (2 ^ bits : Nat)) : Reads (.unsigned bits) j (.integer z)
  | signed {bits : Nat} {j : Json} {z : Int} (h : IntegerForm j z)
      (hz : -(2 ^ (bits - 1) : Nat) ≤ z ∧ z < (2 ^ (bits - 1) : Nat)) :
      Reads (.signed bits) j (.integer z)

mutual

/-- What values are read for types. -/
inductive Reads (types : Types) : Json → FieldType → Value → Prop
  | atom {name : String} {a : Atom} {j : Json} {v : Value} (hname : types.lookup name = none)
      (ha : a.Names name) (hv : a.Reads j v) : Reads types j (.base name) v
  | array {items : List Json} {item : FieldType} {size : List Char} {vs : List Value}
      (hitems : ReadsItems types items item vs) :
      Reads types (.array items) (.array item size) (.array vs)
  | struct {members : List (String × Json)} {name : String} {fields : List Field} {vs : List Value}
      (hname : types.lookup name = some fields) (hfields : ReadsFields types members fields vs) :
      Reads types (.object members) (.base name) (.struct name vs)

/-- Items are read one by one. -/
inductive ReadsItems (types : Types) : List Json → FieldType → List Value → Prop
  | nil {item : FieldType} : ReadsItems types [] item []
  | cons {j : Json} {v : Value} {items : List Json} {item : FieldType} {vs : List Value}
      (hj : Reads types j item v) (hrest : ReadsItems types items item vs) :
      ReadsItems types (j :: items) item (v :: vs)

/-- The values of fields are read from the members of an object, which may have others. -/
inductive ReadsFields (types : Types) : List (String × Json) → List Field → List Value → Prop
  | nil {members : List (String × Json)} : ReadsFields types members [] []
  | cons {members : List (String × Json)} {f : Field} {t : FieldType} {j : Json} {v : Value}
      {fields : List Field} {vs : List Value} (ht : t.WrittenAs f.type)
      (hmember : members.lookup f.name = some j) (hj : Reads types j t v)
      (hrest : ReadsFields types members fields vs) :
      ReadsFields types members (f :: fields) (v :: vs)

end

theorem Atom.Writes.reads {a : Atom} {j : Json} {v : Value} (h : a.Writes j v) : a.Reads j v := by
  cases h with
  | text s => exact .text s
  | octets h => exact .octets h
  | bool b => exact .bool b
  | address h hb => exact .address h hb
  | fixed h => exact .fixed h
  | unsigned h hz => exact .unsigned h.form hz
  | signed h hz => exact .signed h.form hz

mutual

/-- What is written as its type says is read as the value that it is written for. -/
theorem Written.reads {types : Types} {j : Json} {t : FieldType} {v : Value}
    (h : Written types j t v) : Reads types j t v := by
  cases h with
  | atom hname ha hv => exact .atom hname ha hv.reads
  | array hsize hitems => exact .array hitems.reads
  | struct hname hfields => exact .struct hname hfields.reads

theorem WrittenItems.reads {types : Types} {items : List Json} {t : FieldType} {vs : List Value}
    (h : WrittenItems types items t vs) : ReadsItems types items t vs := by
  cases h with
  | nil => exact .nil
  | cons hj hrest => exact .cons hj.reads hrest.reads

theorem WrittenFields.reads {types : Types} {members : List (String × Json)} {fields : List Field}
    {vs : List Value} (h : WrittenFields types members fields vs) :
    ReadsFields types members fields vs := by
  cases h with
  | nil => exact .nil
  | cons ht hmember hj hrest => exact .cons ht hmember hj.reads hrest.reads

end

/-- The word of an atom is that of the value that is read. -/
theorem encodePrimitive_reads {a : Atom} {name : String} {j : Json} {v : Value} {word : Bytes}
    (types : Types) (ha : a.Names name) (hv : a.Reads j v) (h : encodePrimitive name j = .ok word) :
    word = v.word types := by
  have hwritten (hw : a.Writes j v) : word = v.word types :=
    Except.ok.inj (h.symm.trans (encodePrimitive_written types ha hw))
  cases hv with
  | text s => exact hwritten (.text s)
  | octets hs => exact hwritten (.octets hs)
  | bool b => exact hwritten (.bool b)
  | address hs hb => exact hwritten (.address hs hb)
  | fixed hs => exact hwritten (.fixed hs)
  | @unsigned bits j z hz hrange =>
    obtain ⟨⟨cs, hcs⟩, hbits⟩ := ha.unsigned_shape
    have hpow : 2 ^ bits ≤ 2 ^ 256 := Nat.pow_le_pow_right (by decide) hbits
    have hlt : z < (2 ^ 256 : Nat) := by omega
    rw [encodePrimitive_uint hcs] at h
    obtain ⟨n, hn, rfl⟩ := exists_of_map_ok h
    rw [hz.unsignedOf hrange.1 hlt hn, Value.word, Int.emod_eq_of_lt hrange.1 hlt, wordOf]
  | @signed bits j z hz hrange =>
    obtain ⟨⟨cs, hcs⟩, hbits⟩ := ha.signed_shape
    have hpow : 2 ^ (bits - 1) ≤ 2 ^ 255 := Nat.pow_le_pow_right (by decide) (by omega)
    rw [encodePrimitive_int hcs, hz.signedOf (by omega)] at h
    rw [← Except.ok.inj h, Value.word, wordOf]

end TypedData

end Countersign
