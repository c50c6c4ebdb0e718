import Countersign.Proofs.Ethereum.TypedValue

/-!
# The hash of a message

A message that is written as its types say is hashed to the word of the struct that it stands for.
The induction is on how the message is written, through fields, items and members at once.
-/
namespace Countersign.TypedData

/-! ### Words of values -/

theorem encodeField_atom {types : Types} {type : String} (hitem : itemType? type = none)
    (hdefined : defined types type = false) (j : Json) :
    encodeField types j type = encodePrimitive type j := by
  cases j <;> simp [encodeField, hitem, hdefined]

theorem encodeField_array {types : Types} {type item : String} (hitem : itemType? type = some item)
    {items : List Json} {words : Bytes} (hwords : encodeItems types items item = .ok words) :
    encodeField types (.array items) type = .ok (Keccak256.hash words) := by
  simp only [encodeField, hitem, hwords]
  rfl

theorem encodeField_struct {types : Types} {type : String} (hitem : itemType? type = none)
    (hdefined : defined types type = true) (j : Json) :
    encodeField types j type = hashStruct types type j := by
  cases j <;> simp [encodeField, hitem, hdefined, hashStruct]

/-- A member is encoded as the value that is found under its name. -/
theorem lookup_memberEncoders (types : Types) (members : List (String × Json)) (name : String) :
    (memberEncoders types members).lookup name =
      (members.lookup name).map fun j type => encodeField types j type := by
  induction members with
  | nil => simp [memberEncoders]
  | cons m rest ih =>
    obtain ⟨k, j⟩ := m
    by_cases hk : name = k
    · simp [memberEncoders, hk]
    · have hne : (name == k) = false := by simpa using hk
      simp [memberEncoders, List.lookup_cons, hne, ih]

theorem encodeItems_cons {types : Types} {j : Json} {items : List Json} {type : String}
    {word words : Bytes} (hj : encodeField types j type = .ok word)
    (hrest : encodeItems types items type = .ok words) :
    encodeItems types (j :: items) type = .ok (word ++ words) := by
  simp only [encodeItems, hj, hrest]
  rfl

theorem encodeFields_cons {types : Types} {members : List (String × Json)} {f : Field}
    {fields : List Field} {j : Json} {word words : Bytes} (hmember : members.lookup f.name = some j)
    (hj : encodeField types j f.type = .ok word)
    (hrest : encodeFields (memberEncoders types members) fields = .ok words) :
    encodeFields (memberEncoders types members) (f :: fields) = .ok (word ++ words) := by
  simp only [encodeFields, lookup_memberEncoders, hmember, Option.map_some, hj, hrest]
  rfl

/-- A struct is hashed with its definition in front of its words. -/
theorem hashStruct_object {types : Types} {name : String} {fields : List Field} {text : String}
    {members : List (String × Json)} {words : Bytes} (hname : types.lookup name = some fields)
    (htext : encodeType types name = .ok text)
    (hwords : encodeFields (memberEncoders types members) fields = .ok words) :
    hashStruct types name (.object members) =
      .ok (Keccak256.hash (Keccak256.hash (Utf8.encode text) ++ words)) := by
  simp only [hashStruct, hashWith, htext, hname, Option.getD_some, bind, Except.bind, hwords]
  rfl

mutual

/-- A value that is written as its type says has the word that it stands for. -/
theorem encodeField_written {types : Types} (hplain : PlainTypes types) {j : Json} {t : FieldType}
    {v : Value} (h : Written types j t v) {type : String} (ht : t.WrittenAs type) :
    encodeField types j type = .ok (v.word types) := by
  cases h with
  | atom hname ha hv =>
    obtain rfl := ht.base_eq
    have hdefined : defined types type = false := by simp [defined, hname]
    rw [encodeField_atom ht.itemType_base hdefined, encodePrimitive_written types ha hv]
  | array hsize hitems =>
    rw [encodeField_array ht.itemType_array (encodeItems_written hplain hitems ht.item), Value.word]
  | struct hname hfields =>
    obtain rfl := ht.base_eq
    have hdefined : defined types type = true := by simp [defined, hname]
    rw [encodeField_struct ht.itemType_base hdefined, hashStruct_object hname
      (encodeType_eq hplain hname) (encodeFields_written hplain hfields), Value.word]

theorem encodeItems_written {types : Types} (hplain : PlainTypes types) {items : List Json}
    {t : FieldType} {vs : List Value} (h : WrittenItems types items t vs) {type : String}
    (ht : t.WrittenAs type) : encodeItems types items type = .ok (Value.words types vs) := by
  cases h with
  | nil => simp only [encodeItems, Value.words]
  | cons hj hrest =>
    rw [encodeItems_cons (encodeField_written hplain hj ht) (encodeItems_written hplain hrest ht),
      Value.words]

theorem encodeFields_written {types : Types} (hplain : PlainTypes types)
    {members : List (String × Json)} {fields : List Field} {vs : List Value}
    (h : WrittenFields types members fields vs) :
    encodeFields (memberEncoders types members) fields = .ok (Value.words types vs) := by
  cases h with
  | nil => simp only [encodeFields, Value.words]
  | cons ht hmember hj hrest =>
    rw [encodeFields_cons hmember (encodeField_written hplain hj ht)
      (encodeFields_written hplain hrest), Value.words]

end

/-! ### Digests -/

/-- A message that is accepted has a primary type and leaves no name undefined. -/
theorem validate_cases {d : TypedData} (h : d.validate = .ok ()) :
    defined d.types d.primaryType = true ∧ undefinedBase? d.types = none := by
  unfold validate at h
  split at h
  · cases h
  · rename_i hprimary
    split at h
    · cases h
    · rename_i hnone
      exact ⟨Classical.not_not.mp hprimary, hnone⟩

theorem primary_of_validate {d : TypedData} (h : d.validate = .ok ()) :
    ∃ fields, d.types.lookup d.primaryType = some fields :=
  defined_iff.mp (validate_cases h).1

theorem base_of_validate {d : TypedData} (h : d.validate = .ok ()) {entry : String × List Field}
    (hentry : entry ∈ d.types) {f : Field} (hf : f ∈ entry.2) :
    defined d.types (baseType f.type) = true ∨ isPrimitive (baseType f.type) = true := by
  have hbase :
      baseType f.type ∈ d.types.flatMap fun entry => entry.2.map fun f => baseType f.type :=
    List.mem_flatMap.mpr ⟨entry, hentry, List.mem_map.mpr ⟨f, hf, rfl⟩⟩
  have hknown := List.find?_eq_none.mp (validate_cases h).2 _ hbase
  simpa only [Bool.not_eq_true', Bool.not_eq_false, Bool.or_eq_true] using hknown

/-- In front of the suffixes of an accepted type is a struct type or an atom. -/
theorem field_of_validate {d : TypedData} (h : d.validate = .ok ()) {entry : String × List Field}
    (hentry : entry ∈ d.types) {f : Field} (hf : f ∈ entry.2) {t : FieldType}
    (ht : t.WrittenAs f.type) :
    (∃ fields, d.types.lookup t.baseName = some fields) ∨ ∃ a : Atom, a.Names t.baseName := by
  have hknown := base_of_validate h hentry hf
  rw [ht.baseType_eq] at hknown
  exact hknown.imp defined_iff.mp exists_names

/-- A message that is written as its primary type says has the hash of its value. -/
theorem messageHash_written {d : TypedData} (hplain : PlainTypes d.types) {v : Value}
    (h : Written d.types d.message (.base d.primaryType) v)
    (hprimary : ∃ fields, d.types.lookup d.primaryType = some fields) :
    d.messageHash = .ok (v.word d.types) := by
  unfold messageHash
  obtain ⟨fields, hfields⟩ := hprimary
  generalize d.message = j at h
  cases h with
  | atom hname => rw [hfields] at hname; cases hname
  | struct hname hwritten =>
    rw [hashStruct_object hname (encodeType_eq hplain hname) (encodeFields_written hplain hwritten),
      Value.word]

/-- The digest is made of the two hashes behind their mark. -/
theorem signingHash_of_parts {d : TypedData} {separator message : Bytes}
    (hd : d.domain.separator = .ok separator) (hm : d.messageHash = .ok message) :
    d.signingHash = .ok (Keccak256.hash (0x19 :: 0x01 :: separator ++ message)) := by
  simp only [signingHash, hd, hm]
  rfl

/-- All types of a message that is accepted are structs or atoms, and a message that is written as
its types say has the hash of the struct that it stands for, also where types refer to each other in
circles. The digest is made of it whenever there is one of the domain. -/
theorem messageHash_standard (d : TypedData) (hvalid : d.validate = .ok ())
    (hplain : PlainTypes d.types) :
    (∀ entry ∈ d.types, ∀ f ∈ entry.2, ∀ t : FieldType, t.WrittenAs f.type →
      (∃ fields, d.types.lookup t.baseName = some fields) ∨ ∃ a : Atom, a.Names t.baseName) ∧
    ∀ v, Written d.types d.message (.base d.primaryType) v →
      d.messageHash = .ok (v.word d.types) ∧
      ∀ separator, d.domain.separator = .ok separator →
        d.signingHash = .ok (Keccak256.hash (0x19 :: 0x01 :: separator ++ v.word d.types)) := by
  refine ⟨fun entry hentry f hf t ht => field_of_validate hvalid hentry hf ht, fun v hv => ?_⟩
  have hmessage := messageHash_written hplain hv (primary_of_validate hvalid)
  exact ⟨hmessage, fun separator hseparator => signingHash_of_parts hseparator hmessage⟩

/-- A node with an edge to a node: two types that refer to each other, arrays with and without a
length, and a negative number as hexadecimal text. -/
theorem nodes_and_edges_hashed :
    let types : Types := [("Node", [⟨"value", "int16"⟩, ⟨"tag", "bytes2"⟩, ⟨"edges", "Edge[]"⟩]),
      ("Edge", [⟨"ends", "Node[1]"⟩])]
    let leaf : Json :=
      .object [("edges", .array []), ("tag", .string "00ff"), ("value", Json.nat 7)]
    let d : TypedData := ⟨⟨none, none, none, none, none⟩, types, "Node",
      .object [("edges", .array [.object [("ends", .array [leaf])]]), ("tag", .string "0xCd2a"),
        ("value", .string "-0x10")]⟩
    let v : Value := .struct "Node" [.integer (-16), .fixed [0xcd, 0x2a], .array [.struct "Edge"
      [.array [.struct "Node" [.integer 7, .fixed [0x00, 0xff], .array []]]]]]
    d.validate = .ok () ∧ PlainTypes types ∧ Written types d.message (.base d.primaryType) v ∧
      d.messageHash = .ok (v.word types) ∧
      ∃ separator, d.domain.separator = .ok separator ∧
        d.signingHash = .ok (Keccak256.hash (0x19 :: 0x01 :: separator ++ v.word types)) := by
  intro types leaf d v
  have hint : FieldType.WrittenAs (.base "int16") "int16" := ⟨FieldType.plain_base (by decide), rfl⟩
  have hbytes : FieldType.WrittenAs (.base "bytes2") "bytes2" :=
    ⟨FieldType.plain_base (by decide), rfl⟩
  have hedges : FieldType.WrittenAs (.array (.base "Edge") []) "Edge[]" :=
    ⟨⟨FieldType.plain_base (by decide), .inl rfl⟩, rfl⟩
  have hone : Digits.Numeral 10 ['1'] 1 := .digit ⟨by decide, .inl rfl⟩
  have hends : FieldType.WrittenAs (.array (.base "Node") ['1']) "Node[1]" :=
    ⟨⟨FieldType.plain_base (by decide), .inr ⟨1, hone⟩⟩, rfl⟩
  have hplain : PlainTypes types := by
    simp only [PlainTypes, types, List.forall_mem_cons, List.not_mem_nil, false_implies,
      implies_true, and_true]
    exact ⟨⟨⟨_, hint⟩, ⟨_, hbytes⟩, ⟨_, hedges⟩⟩, ⟨_, hends⟩⟩
  have hvalid : d.validate = .ok () := by decide
  have hintName : Atom.Names (.signed 16) "int16" :=
    .signedOf ⟨['1', '6'], rfl, rfl⟩ (by decide) (by decide) rfl
  have hbytesName : Atom.Names (.fixed 2) "bytes2" :=
    .fixed ⟨['2'], rfl, rfl⟩ (by decide) (by decide)
  have hdigit (c : Char) (n : Nat) (h : n < 16 ∧ (c = n.digitChar ∨ c = n.digitChar.toUpper)) :
      Digits.IsDigit 16 c n := h
  have hsixteen : Digits.Numeral 16 ['1', '0'] 16 :=
    .snoc (.digit (hdigit '1' 1 (by decide))) (hdigit '0' 0 (by decide))
  have hff : Hex.IsText "00ff" [0x00, 0xff] :=
    ⟨_, .cons (hdigit '0' 0 (by decide)) (hdigit '0' 0 (by decide))
      (.cons (hdigit 'f' 15 (by decide)) (hdigit 'f' 15 (by decide)) .nil), .inl rfl⟩
  have hcd : Hex.IsText "0xCd2a" [0xcd, 0x2a] :=
    ⟨_, .cons (hdigit 'C' 12 (by decide)) (hdigit 'd' 13 (by decide))
      (.cons (hdigit '2' 2 (by decide)) (hdigit 'a' 10 (by decide)) .nil), .inr rfl⟩
  have hleaf : Written types leaf (.base "Node")
      (.struct "Node" [.integer 7, .fixed [0x00, 0xff], .array []]) :=
    .struct rfl (.cons hint rfl (.atom rfl hintName (.signed (.natural 7) (by decide)))
      (.cons hbytes rfl (.atom rfl hbytesName (.fixed hff))
        (.cons hedges rfl (.array (.inl rfl) .nil) .nil)))
  have hedge : Written types (.object [("ends", .array [leaf])]) (.base "Edge")
      (.struct "Edge" [.array [.struct "Node" [.integer 7, .fixed [0x00, 0xff], .array []]]]) :=
    .struct rfl (.cons hends rfl (.array (.inr hone) (.cons hleaf .nil)) .nil)
  have hvalue : IntegerJson (.string "-0x10") (-16) :=
    .negativeText (n := 16) rfl (.inr ⟨['1', '0'], rfl, hsixteen⟩) (by decide)
  have hwritten : Written types d.message (.base d.primaryType) v :=
    .struct rfl (.cons hint rfl (.atom rfl hintName (.signed hvalue (by decide)))
      (.cons hbytes rfl (.atom rfl hbytesName (.fixed hcd))
        (.cons hedges rfl (.array (.inl rfl) (.cons hedge .nil)) .nil)))
  obtain ⟨-, hhash⟩ := messageHash_standard d hvalid hplain
  obtain ⟨hmessage, hsigning⟩ := hhash v hwritten
  exact ⟨hvalid, hplain, hwritten, hmessage, _, rfl, hsigning _ rfl⟩

end Countersign.TypedData
