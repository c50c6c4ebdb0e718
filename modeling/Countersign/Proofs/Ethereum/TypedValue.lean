import Countersign.Proofs.Ethereum.Numbers
import Countersign.Proofs.Ethereum.TypeText

/-!
# Values of types

What the values of field types are, how they are written in JSON, and the word that each of them is
hashed as: an atom as it is, text, octets, arrays and structs by a hash of their contents.
-/
namespace Countersign.TypedData

/-! ### Types -/

/-- A type that needs no definition. -/
inductive Atom where
  | text
  | octets
  | bool
  | address
  | fixed (width : Nat)
  | unsigned (bits : Nat)
  | signed (bits : Nat)
  deriving DecidableEq, Repr

/-- A name is a word with a number behind it. -/
def SizedName (word : String) (n : Nat) (name : String) : Prop :=
  ∃ cs, name.toList = word.toList ++ cs ∧ Digits.read 10 (2 ^ 64) cs = .ok n

/-- What names stand for atoms. -/
inductive Atom.Names : Atom → String → Prop
  | text : Names .text "string"
  | octets : Names .octets "bytes"
  | bool : Names .bool "bool"
  | address : Names .address "address"
  | unsigned : Names (.unsigned 256) "uint"
  | signed : Names (.signed 256) "int"
  | fixed {width : Nat} {name : String} (h : SizedName "bytes" width name) (hpos : 1 ≤ width)
      (hle : width ≤ 32) : Names (.fixed width) name
  | unsignedOf {bits : Nat} {name : String} (h : SizedName "uint" bits name) (hpos : 1 ≤ bits)
      (hle : bits ≤ 256) (hoctets : bits % 8 = 0) : Names (.unsigned bits) name
  | signedOf {bits : Nat} {name : String} (h : SizedName "int" bits name) (hpos : 1 ≤ bits)
      (hle : bits ≤ 256) (hoctets : bits % 8 = 0) : Names (.signed bits) name

/-! ### Values -/

/-- A value; a struct has the values of its fields in their order. -/
inductive Value where
  | text (s : String)
  | octets (b : Bytes)
  | bool (b : Bool)
  | address (b : Bytes)
  | fixed (b : Bytes)
  | integer (z : Int)
  | array (items : List Value)
  | struct (name : String) (fields : List Value)

mutual

/-- The word of a value. -/
noncomputable def Value.word (types : Types) : Value → Bytes
  | .text s => Keccak256.hash (Utf8.encode s)
  | .octets b => Keccak256.hash b
  | .bool b => Bytes.ofNat 32 (if b then 1 else 0)
  | .address b => Bytes.padLeft 32 b
  | .fixed b => Bytes.padRight 32 b
  | .integer z => Bytes.ofNat 32 (z % (2 ^ 256 : Nat)).toNat
  | .array items => Keccak256.hash (Value.words types items)
  | .struct name fields =>
    Keccak256.hash (Keccak256.hash (Utf8.encode (typeText types name)) ++ Value.words types fields)

/-- The words of values one after the other. -/
noncomputable def Value.words (types : Types) : List Value → Bytes
  | [] => []
  | v :: rest => v.word types ++ Value.words types rest

end

/-! ### Values in JSON -/

/-- A text gives a natural number, by decimal digits or by hexadecimal ones after the mark `0x`. -/
def NaturalText (cs : List Char) (n : Nat) : Prop :=
  Digits.Numeral 10 cs n ∨ ∃ ds, cs = '0' :: 'x' :: ds ∧ Digits.Numeral 16 ds n

/-- An integer is written as a number or as a text, which has a minus in front if it is negative. -/
inductive IntegerJson : Json → Int → Prop
  | natural (n : Nat) : IntegerJson (.number (.natural n)) n
  | negative {n : Nat} (hpos : 0 < n) : IntegerJson (.number (.negative n)) (-n)
  | naturalText {s : String} {n : Nat} (h : NaturalText s.toList n) : IntegerJson (.string s) n
  | negativeText {s : String} {cs : List Char} {n : Nat} (hs : s.toList = '-' :: cs)
      (h : NaturalText cs n) (hpos : 0 < n) : IntegerJson (.string s) (-n)

/-- How the values of atoms are written. -/
inductive Atom.Writes : Atom → Json → Value → Prop
  | text (s : String) : Writes .text (.string s) (.text s)
  | octets {s : String} {b : Bytes} (h : Hex.IsText s b) : Writes .octets (.string s) (.octets b)
  | bool (b : Bool) : Writes .bool (.bool b) (.bool b)
  | address {s : String} {b : Bytes} (h : Hex.IsText s b) (hb : b.length = 20) :
      Writes .address (.string s) (.address b)
  | fixed {s : String} {b : Bytes} (h : Hex.IsText s b) :
      Writes (.fixed b.length) (.string s) (.fixed b)
  | unsigned {bits : Nat} {j : Json} {z : Int} (h : IntegerJson j z)
      (hz : 0 ≤ z ∧ z < (2 ^ bits : Nat)) : Writes (.unsigned bits) j (.integer z)
  | signed {bits : Nat} {j : Json} {z : Int} (h : IntegerJson j z)
      (hz : -(2 ^ (bits - 1) : Nat) ≤ z ∧ z < (2 ^ (bits - 1) : Nat)) :
      Writes (.signed bits) j (.integer z)

mutual

/-- How the values of types are written. A name that is defined is that of a struct type. An array
has as many items as its brackets say, and each field of a struct is a member of an object. -/
inductive Written (types : Types) : Json → FieldType → Value → Prop
  | atom {name : String} {a : Atom} {j : Json} {v : Value} (hname : types.lookup name = none)
      (ha : a.Names name) (hv : a.Writes j v) : Written types j (.base name) v
  | array {items : List Json} {item : FieldType} {size : List Char} {vs : List Value}
      (hsize : size = [] ∨ Digits.Numeral 10 size items.length)
      (hitems : WrittenItems types items item vs) :
      Written types (.array items) (.array item size) (.array vs)
  | struct {members : List (String × Json)} {name : String} {fields : List Field} {vs : List Value}
      (hname : types.lookup name = some fields) (hfields : WrittenFields types members fields vs) :
      Written types (.object members) (.base name) (.struct name vs)

/-- Items are written one by one. -/
inductive WrittenItems (types : Types) : List Json → FieldType → List Value → Prop
  | nil {item : FieldType} : WrittenItems types [] item []
  | cons {j : Json} {v : Value} {items : List Json} {item : FieldType} {vs : List Value}
      (hj : Written types j item v) (hrest : WrittenItems types items item vs) :
      WrittenItems types (j :: items) item (v :: vs)

/-- The values of fields are members of an object, which may have others. -/
inductive WrittenFields (types : Types) :
    List (String × Json) → List Field → List Value → Prop
  | nil {members : List (String × Json)} : WrittenFields types members [] []
  | cons {members : List (String × Json)} {f : Field} {t : FieldType} {j : Json} {v : Value}
      {fields : List Field} {vs : List Value} (ht : t.WrittenAs f.type)
      (hmember : members.lookup f.name = some j) (hj : Written types j t v)
      (hrest : WrittenFields types members fields vs) :
      WrittenFields types members (f :: fields) (v :: vs)

end

/-! ### Names of atoms -/

theorem behindWord_eq {word text : String} {cs : List Char} :
    behindWord? word text = some cs ↔ text.toList = word.toList ++ cs := by
  unfold behindWord?
  split
  · rename_i h
    obtain ⟨more, hmore⟩ := List.isPrefixOf_iff_prefix.mp h
    simp [← hmore]
  · rename_i h
    refine ⟨nofun, fun hcs => absurd ?_ h⟩
    exact List.isPrefixOf_iff_prefix.mpr ⟨cs, hcs.symm⟩

/-- A name with one word in front has no other word in front, if neither starts with the other. -/
theorem behindWord_other {word other name : String} {cs : List Char}
    (h : name.toList = word.toList ++ cs) (hw : ¬word.toList <+: other.toList)
    (ho : ¬other.toList <+: word.toList) : behindWord? other name = none := by
  rw [Option.eq_none_iff_forall_ne_some]
  intro more hmore
  have heq := h.symm.trans (behindWord_eq.mp hmore)
  rcases List.prefix_or_prefix_of_prefix (List.prefix_append word.toList cs)
    (heq ▸ List.prefix_append other.toList more) with hp | hp
  · exact hw hp
  · exact ho hp

theorem ne_of_word {word other name : String} {cs : List Char} (h : name.toList = word.toList ++ cs)
    (hw : ¬word.toList <+: other.toList) : name ≠ other := by
  rintro rfl
  exact hw ⟨cs, h.symm⟩

/-- A sized type is its word and a size within the bounds. -/
theorem isSized_iff {type word : String} {most step : Nat} :
    isSized type word most step = true ↔
      ∃ n, SizedName word n type ∧ 1 ≤ n ∧ n ≤ most ∧ n % step = 0 := by
  unfold isSized SizedName
  cases hb : behindWord? word type with
  | none =>
    refine ⟨nofun, fun ⟨n, ⟨cs, hcs, _⟩, _⟩ => ?_⟩
    rw [behindWord_eq.mpr hcs] at hb
    cases hb
  | some cs =>
    have hcs := behindWord_eq.mp hb
    cases hr : Digits.read 10 (2 ^ 64) cs with
    | error e =>
      simp only [Option.map_some, hr]
      refine ⟨nofun, fun ⟨n, ⟨ds, hds, hn⟩, _⟩ => ?_⟩
      rw [← List.append_cancel_left (hcs.symm.trans hds), hr] at hn
      cases hn
    | ok n =>
      simp only [Option.map_some, hr, Bool.and_eq_true, decide_eq_true_eq, beq_iff_eq]
      constructor
      · rintro ⟨⟨hpos, hle⟩, hstep⟩
        exact ⟨n, ⟨cs, hcs, hr⟩, hpos, hle, hstep⟩
      · rintro ⟨m, ⟨ds, hds, hm⟩, hpos, hle, hstep⟩
        rw [← List.append_cancel_left (hcs.symm.trans hds), hr] at hm
        obtain rfl := Except.ok.inj hm
        exact ⟨⟨hpos, hle⟩, hstep⟩

/-- All types that need no definition are names of atoms. -/
theorem exists_names {name : String} (h : isPrimitive name = true) : ∃ a : Atom, a.Names name := by
  simp only [isPrimitive, Bool.or_eq_true, isSized_iff, List.contains_iff_mem, List.mem_cons,
    List.not_mem_nil, or_false] at h
  rcases h with ((h | ⟨n, hn, hpos, hle, hoctets⟩) | ⟨n, hn, hpos, hle, hoctets⟩) |
    ⟨n, hn, hpos, hle, -⟩
  · rcases h with rfl | rfl | rfl | rfl | rfl | rfl
    · exact ⟨_, .text⟩
    · exact ⟨_, .octets⟩
    · exact ⟨_, .bool⟩
    · exact ⟨_, .address⟩
    · exact ⟨_, .unsigned⟩
    · exact ⟨_, .signed⟩
  · exact ⟨_, .unsignedOf hn hpos hle hoctets⟩
  · exact ⟨_, .signedOf hn hpos hle hoctets⟩
  · exact ⟨_, .fixed hn hpos hle⟩

/-! ### Words of atoms -/

theorem NaturalText.form {cs : List Char} {n : Nat} (h : NaturalText cs n) : NaturalForm cs n := by
  rcases h with h | ⟨ds, hds, h⟩
  · exact .inl (.of_numeral (by decide) h)
  · exact .inr ⟨ds, hds, .of_numeral (by decide) h⟩

theorem IntegerJson.form {j : Json} {z : Int} (h : IntegerJson j z) : IntegerForm j z := by
  cases h with
  | natural n => exact .natural n
  | negative hpos => exact .negative _
  | naturalText h => exact .naturalText h.form
  | negativeText hs h hpos => exact .negativeText hs h.form

/-- An integer is read whichever way it is written. -/
theorem unsignedOf_integer {j : Json} {z : Int} (h : IntegerJson j z) (hz : 0 ≤ z)
    (hlt : z < (2 ^ 256 : Nat)) : unsignedOf j = .ok z.toNat := by
  cases h with
  | natural n => rfl
  | negative hpos => omega
  | naturalText h => simp only [unsignedOf, h.form.numberOfText (by omega), Int.toNat_natCast]
  | negativeText hs h hpos => omega

theorem octetsOf_text {s : String} {b : Bytes} (h : Hex.IsText s b) : octetsOf s = .ok b := by
  simp [octetsOf, Hex.decode_text h]

theorem fixedOf_text {s : String} {b : Bytes} (h : Hex.IsText s b) (hb : b.length ≤ 32)
    (name : String) : fixedOf name b.length (.string s) = .ok (Bytes.padRight 32 b) := by
  simp only [fixedOf, textOf, octetsOf_text h, bind, Except.bind, Nat.lt_irrefl, if_false,
    Nat.not_lt.mpr hb]

/-- The width of a fixed byte string stands in its name. -/
theorem encodePrimitive_bytes {width : Nat} {name : String} (h : SizedName "bytes" width name)
    (j : Json) : encodePrimitive name j = fixedOf name width j := by
  obtain ⟨cs, hcs, hread⟩ := h
  have hbytes : name ≠ "bytes" := by
    rintro rfl
    obtain rfl : cs = [] := by simpa using hcs
    cases hread
  unfold encodePrimitive
  rw [if_neg (ne_of_word hcs (by decide)), if_neg hbytes, if_neg (ne_of_word hcs (by decide)),
    if_neg (ne_of_word hcs (by decide)), behindWord_eq.mpr hcs]
  simp only [hread]

theorem encodePrimitive_uint {cs : List Char} {name : String}
    (h : name.toList = "uint".toList ++ cs) (j : Json) :
    encodePrimitive name j = (unsignedOf j).map wordOf := by
  unfold encodePrimitive
  rw [if_neg (ne_of_word h (by decide)), if_neg (ne_of_word h (by decide)),
    if_neg (ne_of_word h (by decide)), if_neg (ne_of_word h (by decide)),
    behindWord_other h (by decide) (by decide), behindWord_eq.mpr h]
  rfl

theorem encodePrimitive_int {cs : List Char} {name : String} (h : name.toList = "int".toList ++ cs)
    (j : Json) : encodePrimitive name j = (signedOf j).map wordOf := by
  unfold encodePrimitive
  rw [if_neg (ne_of_word h (by decide)), if_neg (ne_of_word h (by decide)),
    if_neg (ne_of_word h (by decide)), if_neg (ne_of_word h (by decide)),
    behindWord_other h (by decide) (by decide), behindWord_other h (by decide) (by decide),
    behindWord_eq.mpr h]
  rfl

theorem Atom.Names.unsigned_shape {bits : Nat} {name : String}
    (h : Atom.Names (.unsigned bits) name) :
    (∃ cs, name.toList = "uint".toList ++ cs) ∧ bits ≤ 256 := by
  cases h with
  | unsigned => exact ⟨⟨[], rfl⟩, by decide⟩
  | unsignedOf h _ hle _ => exact ⟨⟨h.choose, h.choose_spec.1⟩, hle⟩

theorem Atom.Names.signed_shape {bits : Nat} {name : String} (h : Atom.Names (.signed bits) name) :
    (∃ cs, name.toList = "int".toList ++ cs) ∧ bits ≤ 256 := by
  cases h with
  | signed => exact ⟨⟨[], rfl⟩, by decide⟩
  | signedOf h _ hle _ => exact ⟨⟨h.choose, h.choose_spec.1⟩, hle⟩

/-- Encoding does not look at the size of a type; a value of the type fits it anyway. -/
theorem encodePrimitive_written {a : Atom} {name : String} {j : Json} {v : Value} (types : Types)
    (ha : a.Names name) (hv : a.Writes j v) : encodePrimitive name j = .ok (v.word types) := by
  cases hv with
  | text s => cases ha; rfl
  | octets h =>
    cases ha
    simp [encodePrimitive, textOf, octetsOf_text h, Value.word, bind, Except.bind, pure,
      Except.pure]
  | bool b => cases ha; rfl
  | address h hb =>
    cases ha
    simp [encodePrimitive, textOf, octetsOf_text h, hb, Value.word, bind, Except.bind]
  | fixed h =>
    cases ha with
    | fixed hname _ hle =>
      rw [encodePrimitive_bytes hname, fixedOf_text h hle]
      rfl
  | @unsigned bits j z h hz =>
    obtain ⟨⟨cs, hcs⟩, hbits⟩ := ha.unsigned_shape
    have hpow : 2 ^ bits ≤ 2 ^ 256 := Nat.pow_le_pow_right (by decide) hbits
    have hlt : z < (2 ^ 256 : Nat) := by omega
    rw [encodePrimitive_uint hcs, unsignedOf_integer h hz.1 hlt, Value.word,
      Int.emod_eq_of_lt hz.1 hlt]
    rfl
  | @signed bits j z h hz =>
    obtain ⟨⟨cs, hcs⟩, hbits⟩ := ha.signed_shape
    have hpow : 2 ^ (bits - 1) ≤ 2 ^ 255 := Nat.pow_le_pow_right (by decide) (by omega)
    rw [encodePrimitive_int hcs, h.form.signedOf (by omega)]
    rfl

end Countersign.TypedData
