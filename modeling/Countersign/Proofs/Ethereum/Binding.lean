import Countersign.Proofs.Ethereum.Reading

/-!
# Messages told apart by their hashes

Two messages of one type with the same hash have the same value, or two different byte strings that
were hashed on the way to it, one for each message, have the same hash. The induction is on how the
values are read and follows both computations: where the words are equal the contents of the hashes
are, unless they are such a pair.
-/
namespace Countersign.TypedData

/-! ### What is hashed -/

mutual

/-- What is hashed for the word of a value: texts and octets, the words of items, and what is hashed
for them or for a struct. -/
inductive Hashed (types : Types) : Json → String → Bytes → Prop
  | text (s : String) (hname : types.lookup "string" = none) :
      Hashed types (.string s) "string" (Utf8.encode s)
  | octets {s : String} {b : Bytes} (hname : types.lookup "bytes" = none) (h : octetsOf s = .ok b) :
      Hashed types (.string s) "bytes" b
  | items {items : List Json} {type item : String} {words : Bytes}
      (hitem : itemType? type = some item)
      (hwords : encodeItems types items item = .ok words) : Hashed types (.array items) type words
  | item {items : List Json} {type item : String} {j : Json} {x : Bytes}
      (hitem : itemType? type = some item) (hj : j ∈ items) (hx : Hashed types j item x) :
      Hashed types (.array items) type x
  | struct {members : List (String × Json)} {type : String} {x : Bytes}
      (hitem : itemType? type = none) (hx : HashedIn types members type x) :
      Hashed types (.object members) type x

/-- What is hashed for a struct: the text of its type, the hash of that with the words of the
fields, and what is hashed for these. -/
inductive HashedIn (types : Types) : List (String × Json) → String → Bytes → Prop
  | type {members : List (String × Json)} {name text : String}
      (htext : encodeType types name = .ok text) : HashedIn types members name (Utf8.encode text)
  | data {members : List (String × Json)} {name text : String} {fields : List Field} {data : Bytes}
      (hname : types.lookup name = some fields) (htext : encodeType types name = .ok text)
      (hdata : encodeFields (memberEncoders types members) fields = .ok data) :
      HashedIn types members name (Keccak256.hash (Utf8.encode text) ++ data)
  | member {members : List (String × Json)} {name : String} {fields : List Field} {f : Field}
      {j : Json} {x : Bytes} (hname : types.lookup name = some fields) (hf : f ∈ fields)
      (hmember : members.lookup f.name = some j) (hx : Hashed types j f.type x) :
      HashedIn types members name x

end

/-- What is hashed for a field. -/
def HashedFor (types : Types) (members : List (String × Json)) (f : Field) (x : Bytes) : Prop :=
  ∃ j, members.lookup f.name = some j ∧ Hashed types j f.type x

/-- What is hashed for the hash of a message. -/
def Hashes (d : TypedData) (x : Bytes) : Prop :=
  ∃ members, d.message = .object members ∧ HashedIn d.types members d.primaryType x

/-- Two different byte strings with the same hash, one of each kind. -/
def Collision (P Q : Bytes → Prop) : Prop :=
  ∃ x y, P x ∧ Q y ∧ x ≠ y ∧ Keccak256.hash x = Keccak256.hash y

theorem Collision.mono {P P' Q Q' : Bytes → Prop} (h : Collision P Q) (hp : ∀ x, P x → P' x)
    (hq : ∀ y, Q y → Q' y) : Collision P' Q' := by
  obtain ⟨x, y, hx, hy, hne, heq⟩ := h
  exact ⟨x, y, hp x hx, hq y hy, hne, heq⟩

/-- Strings with the same hash are equal or collide. -/
theorem eq_or_collision {P Q : Bytes → Prop} {x y : Bytes} (hx : P x) (hy : Q y)
    (h : Keccak256.hash x = Keccak256.hash y) : x = y ∨ Collision P Q := by
  by_cases heq : x = y
  · exact .inl heq
  · exact .inr ⟨x, y, hx, hy, heq, h⟩

/-! ### Atoms -/

/-- Atoms with the same word have the same value, unless they are hashed and collide. -/
theorem Atom.Reads.binds {types : Types} {a : Atom} {name : String}
    (hname : types.lookup name = none) (ha : a.Names name) {j j' : Json} {v v' : Value}
    (hv : a.Reads j v) (hv' : a.Reads j' v') {word : Bytes}
    (hw : encodePrimitive name j = .ok word) (hw' : encodePrimitive name j' = .ok word) :
    v = v' ∨ Collision (Hashed types j name) (Hashed types j' name) := by
  have hword : v.word types = v'.word types :=
    (encodePrimitive_reads types ha hv hw).symm.trans (encodePrimitive_reads types ha hv' hw')
  cases hv with
  | text s =>
    cases hv' with
    | text s' =>
      cases ha
      have hx := Hashed.text s hname
      have hy := Hashed.text s' hname
      simp only [Value.word] at hword
      refine (eq_or_collision hx hy hword).imp_left fun h => ?_
      rw [Utf8.encode_inj h]
  | octets hs =>
    cases hv' with
    | octets hs' =>
      cases ha
      have hx := Hashed.octets hname (octetsOf_text hs)
      have hy := Hashed.octets hname (octetsOf_text hs')
      simp only [Value.word] at hword
      exact (eq_or_collision hx hy hword).imp_left fun h => by rw [h]
  | bool b =>
    cases hv' with
    | bool b' =>
      simp only [Value.word] at hword
      have hnumber := Bytes.ofNat_inj (by split <;> decide) (by split <;> decide) hword
      cases b <;> cases b' <;> simp_all
  | address hs hb =>
    cases hv' with
    | address hs' hb' =>
      simp only [Value.word] at hword
      exact .inl (by rw [Bytes.padLeft_inj (hb.trans hb'.symm) hword])
  | @fixed s b hs =>
    generalize hwidth : b.length = width at hv'
    cases hv' with
    | fixed hs' =>
      simp only [Value.word] at hword
      exact .inl (by rw [Bytes.padRight_inj hwidth hword])
  | @unsigned bits j z hz hrange =>
    cases hv' with
    | @unsigned _ _ z' hz' hrange' =>
      obtain ⟨-, hbits⟩ := ha.unsigned_shape
      have hpow : 2 ^ bits ≤ 2 ^ 256 := Nat.pow_le_pow_right (by decide) hbits
      simp only [Value.word] at hword
      have hnumber := Bytes.ofNat_inj (by omega) (by omega) hword
      exact .inl (congrArg Value.integer (by omega))
  | @signed bits j z hz hrange =>
    cases hv' with
    | @signed _ _ z' hz' hrange' =>
      obtain ⟨-, hbits⟩ := ha.signed_shape
      have hpow : 2 ^ (bits - 1) ≤ 2 ^ 255 := Nat.pow_le_pow_right (by decide) (by omega)
      simp only [Value.word] at hword
      have hnumber := Bytes.ofNat_inj (by omega) (by omega) hword
      exact .inl (congrArg Value.integer (by omega))

/-! ### Arrays and structs -/

/-- Lists are told apart by what tells their heads and their tails apart. -/
theorem binds_cons {α : Type} {P P' : α → Bytes → Prop} {a a' : α} {as as' : List α} {v v' : Value}
    {vs vs' : List Value} (hhead : v = v' ∨ Collision (P a) (P' a'))
    (htail : vs = vs' ∨ Collision (fun x => ∃ b ∈ as, P b x) (fun x => ∃ b ∈ as', P' b x)) :
    v :: vs = v' :: vs' ∨
      Collision (fun x => ∃ b ∈ a :: as, P b x) (fun x => ∃ b ∈ a' :: as', P' b x) := by
  rcases hhead with rfl | hcollision
  · refine htail.imp (fun h => by rw [h]) fun h => h.mono ?_ ?_
    · rintro x ⟨b, hb, hx⟩
      exact ⟨b, List.mem_cons_of_mem _ hb, hx⟩
    · rintro x ⟨b, hb, hx⟩
      exact ⟨b, List.mem_cons_of_mem _ hb, hx⟩
  · exact .inr (hcollision.mono (fun x hx => ⟨a, List.mem_cons_self, hx⟩) fun x hx =>
      ⟨a', List.mem_cons_self, hx⟩)

/-- An item has a word, so there is no item if there are no words. -/
theorem ne_nil_of_items {types : Types} {j : Json} {items : List Json} {type : String}
    {words : Bytes} (h : encodeItems types (j :: items) type = .ok words) : words ≠ [] := by
  obtain ⟨word, more, hword, -, rfl⟩ := contents_of_items h
  intro hnil
  have hlength := length_encodeField hword
  rw [(List.append_eq_nil_iff.mp hnil).1] at hlength
  cases hlength

theorem nil_of_items {types : Types} {type : String} {words : Bytes}
    (h : encodeItems types [] type = .ok words) : words = [] := by
  simp only [encodeItems] at h
  exact (Except.ok.inj h).symm

theorem contents_of_members {types : Types} {members : List (String × Json)} {f : Field}
    {fields : List Field} {j : Json} {data : Bytes} (hmember : members.lookup f.name = some j)
    (h : encodeFields (memberEncoders types members) (f :: fields) = .ok data) :
    ∃ word more, encodeField types j f.type = .ok word ∧
      encodeFields (memberEncoders types members) fields = .ok more ∧ data = word ++ more := by
  obtain ⟨encode, word, more, hencode, hword, hmore, rfl⟩ := contents_of_fields h
  rw [lookup_memberEncoders, hmember] at hencode
  obtain rfl := Option.some.inj hencode
  exact ⟨word, more, hword, hmore, rfl⟩

/-- Arrays with the same word have items with the same words, or collide. -/
theorem binds_array {types : Types} {type item : String} (hitem : itemType? type = some item)
    {items items' : List Json} {word : Bytes}
    (hw : encodeField types (.array items) type = .ok word)
    (hw' : encodeField types (.array items') type = .ok word) {vs vs' : List Value}
    (hitems : ∀ words, encodeItems types items item = .ok words →
      encodeItems types items' item = .ok words →
      vs = vs' ∨ Collision (fun x => ∃ j ∈ items, Hashed types j item x)
        (fun x => ∃ j ∈ items', Hashed types j item x)) :
    vs = vs' ∨
      Collision (Hashed types (.array items) type) (Hashed types (.array items') type) := by
  obtain ⟨words, hwords, hword⟩ := contents_of_array hitem hw
  obtain ⟨words', hwords', hword'⟩ := contents_of_array hitem hw'
  have hx : Hashed types (.array items) type words := .items hitem hwords
  have hy : Hashed types (.array items') type words' := .items hitem hwords'
  rcases eq_or_collision hx hy (hword.symm.trans hword') with rfl | hcollision
  · refine (hitems words hwords hwords').imp_right fun h => h.mono ?_ ?_
    · rintro x ⟨j, hj, hx⟩
      exact .item hitem hj hx
    · rintro x ⟨j, hj, hx⟩
      exact .item hitem hj hx
  · exact .inr hcollision

/-- Structs with the same hash have fields with the same words, or collide. -/
theorem binds_struct {types : Types} {name : String} {fields : List Field}
    (hname : types.lookup name = some fields) {members members' : List (String × Json)}
    {word : Bytes} (hw : hashStruct types name (.object members) = .ok word)
    (hw' : hashStruct types name (.object members') = .ok word) {vs vs' : List Value}
    (hfields : ∀ data, encodeFields (memberEncoders types members) fields = .ok data →
      encodeFields (memberEncoders types members') fields = .ok data →
      vs = vs' ∨ Collision (fun x => ∃ f ∈ fields, HashedFor types members f x)
        (fun x => ∃ f ∈ fields, HashedFor types members' f x)) :
    vs = vs' ∨ Collision (HashedIn types members name) (HashedIn types members' name) := by
  obtain ⟨text, data, htext, hdata, hword⟩ := contents_of_struct hname hw
  obtain ⟨text', data', htext', hdata', hword'⟩ := contents_of_struct hname hw'
  obtain rfl := Except.ok.inj (htext.symm.trans htext')
  have hx : HashedIn types members name _ := .data hname htext hdata
  have hy : HashedIn types members' name _ := .data hname htext hdata'
  rcases eq_or_collision hx hy (hword.symm.trans hword') with heq | hcollision
  · obtain rfl := List.append_cancel_left heq
    refine (hfields data hdata hdata').imp_right fun h => h.mono ?_ ?_
    · rintro x ⟨f, hf, j, hj, hx⟩
      exact .member hname hf hj hx
    · rintro x ⟨f, hf, j, hj, hx⟩
      exact .member hname hf hj hx
  · exact .inr hcollision

mutual

/-- Values of one type with the same word are the same, or a collision was hashed. -/
theorem Reads.binds {types : Types} {j j' : Json} {t : FieldType} {v v' : Value}
    (h : Reads types j t v) (h' : Reads types j' t v') {type : String} (ht : t.WrittenAs type)
    {word : Bytes} (hw : encodeField types j type = .ok word)
    (hw' : encodeField types j' type = .ok word) :
    v = v' ∨ Collision (Hashed types j type) (Hashed types j' type) := by
  cases h with
  | atom hname ha hv =>
    obtain rfl := ht.base_eq
    have hdefined : defined types type = false := by simp [defined, hname]
    cases h' with
    | atom hname' ha' hv' =>
      obtain rfl := ha.unique ha'
      rw [encodeField_atom ht.itemType_base hdefined] at hw hw'
      exact hv.binds hname ha hv' hw hw'
    | struct hname' hfields' =>
      rw [hname] at hname'
      cases hname'
  | array hitems =>
    cases h' with
    | array hitems' =>
      have hbinds := binds_array ht.itemType_array hw hw' fun words hwords hwords' =>
        hitems.binds hitems' ht.item hwords hwords'
      exact hbinds.imp_left fun h => by rw [h]
  | struct hname hfields =>
    obtain rfl := ht.base_eq
    have hdefined : defined types type = true := by simp [defined, hname]
    cases h' with
    | atom hname' ha' hv' =>
      rw [hname] at hname'
      cases hname'
    | struct hname' hfields' =>
      obtain rfl := Option.some.inj (hname.symm.trans hname')
      rw [encodeField_struct ht.itemType_base hdefined] at hw hw'
      have hbinds := binds_struct hname hw hw' fun data hdata hdata' =>
        hfields.binds hfields' hdata hdata'
      refine hbinds.imp (fun h => by rw [h]) fun h => h.mono ?_ ?_
      · exact fun x hx => .struct ht.itemType_base hx
      · exact fun x hx => .struct ht.itemType_base hx

theorem ReadsItems.binds {types : Types} {items items' : List Json} {t : FieldType}
    {vs vs' : List Value} (h : ReadsItems types items t vs) (h' : ReadsItems types items' t vs')
    {type : String} (ht : t.WrittenAs type) {words : Bytes}
    (hw : encodeItems types items type = .ok words)
    (hw' : encodeItems types items' type = .ok words) :
    vs = vs' ∨ Collision (fun x => ∃ j ∈ items, Hashed types j type x)
      (fun x => ∃ j ∈ items', Hashed types j type x) := by
  cases h with
  | nil =>
    cases h' with
    | nil => exact .inl rfl
    | cons => exact absurd (nil_of_items hw) (ne_nil_of_items hw')
  | cons hj hrest =>
    cases h' with
    | nil => exact absurd (nil_of_items hw') (ne_nil_of_items hw)
    | cons hj' hrest' =>
      obtain ⟨word, more, hword, hmore, rfl⟩ := contents_of_items hw
      obtain ⟨word', more', hword', hmore', heq⟩ := contents_of_items hw'
      have hlength : word.length = word'.length :=
        (length_encodeField hword).trans (length_encodeField hword').symm
      obtain ⟨rfl, rfl⟩ := List.append_inj heq hlength
      refine binds_cons ?_ (hrest.binds hrest' ht hmore hmore')
      exact hj.binds hj' ht hword hword'

theorem ReadsFields.binds {types : Types} {members members' : List (String × Json)}
    {fields : List Field} {vs vs' : List Value} (h : ReadsFields types members fields vs)
    (h' : ReadsFields types members' fields vs') {data : Bytes}
    (hw : encodeFields (memberEncoders types members) fields = .ok data)
    (hw' : encodeFields (memberEncoders types members') fields = .ok data) :
    vs = vs' ∨ Collision (fun x => ∃ f ∈ fields, HashedFor types members f x)
      (fun x => ∃ f ∈ fields, HashedFor types members' f x) := by
  cases h with
  | nil =>
    cases h' with
    | nil => exact .inl rfl
  | @cons _ f t j v _ _ ht hmember hj hrest =>
    cases h' with
    | @cons _ _ t' j' v' _ _ ht' hmember' hj' hrest' =>
      obtain rfl := ht.unique ht'
      obtain ⟨word, more, hword, hmore, rfl⟩ := contents_of_members hmember hw
      obtain ⟨word', more', hword', hmore', heq⟩ := contents_of_members hmember' hw'
      have hlength : word.length = word'.length :=
        (length_encodeField hword).trans (length_encodeField hword').symm
      obtain ⟨rfl, rfl⟩ := List.append_inj heq hlength
      refine binds_cons ?_ (hrest.binds hrest' hmore hmore')
      refine (hj.binds hj' ht hword hword').imp_right fun h => h.mono ?_ ?_
      · exact fun x hx => ⟨j, hmember, hx⟩
      · exact fun x hx => ⟨j', hmember', hx⟩

end

/-! ### Messages -/

/-- A message that has a hash is an object of a type that is defined. -/
theorem struct_of_messageHash {d : TypedData} {b : Bytes} (h : d.messageHash = .ok b) :
    ∃ members fields, d.message = .object members ∧ d.types.lookup d.primaryType = some fields := by
  have hdefined {text : String} (htext : encodeType d.types d.primaryType = .ok text) :
      ∃ fields, d.types.lookup d.primaryType = some fields := by
    obtain ⟨first, hfirst, -⟩ := exists_of_bind_ok htext
    unfold formatType at hfirst
    split at hfirst
    next fields hfields => exact ⟨fields, hfields⟩
    next => cases hfirst
  unfold messageHash hashStruct at h
  split at h
  next _ members hmessage =>
    obtain ⟨text, htext, -⟩ := exists_of_bind_ok h
    obtain ⟨fields, hfields⟩ := hdefined htext
    exact ⟨members, fields, hmessage, hfields⟩
  next =>
    obtain ⟨text, -, h⟩ := exists_of_bind_ok h
    cases h

/-- Messages of the same types with the same hash have the same value, whatever else they have and
however their numbers and octets are written, or two different byte strings that are hashed for them
have the same hash. -/
theorem messageHash_binds {d d' : TypedData} (htypes : d'.types = d.types)
    (hprimary : d'.primaryType = d.primaryType) {v v' : Value}
    (hv : Reads d.types d.message (.base d.primaryType) v)
    (hv' : Reads d'.types d'.message (.base d'.primaryType) v') {b : Bytes}
    (hb : d.messageHash = .ok b) (hb' : d'.messageHash = .ok b) :
    v = v' ∨ Collision d.Hashes d'.Hashes := by
  obtain ⟨members, fields, hmessage, hname⟩ := struct_of_messageHash hb
  obtain ⟨members', fields', hmessage', hname'⟩ := struct_of_messageHash hb'
  rw [messageHash, hmessage] at hb
  rw [messageHash, hmessage', htypes, hprimary] at hb'
  rw [hmessage] at hv
  rw [hmessage', htypes, hprimary] at hv'
  cases hv with
  | atom hnone =>
    rw [hname] at hnone
    cases hnone
  | struct hfields hread =>
    obtain rfl := Option.some.inj (hname.symm.trans hfields)
    cases hv' with
    | atom hnone =>
      rw [hname] at hnone
      cases hnone
    | struct hfields' hread' =>
      obtain rfl := Option.some.inj (hname.symm.trans hfields')
      have hbinds := binds_struct hname hb hb' fun data hdata hdata' =>
        hread.binds hread' hdata hdata'
      refine hbinds.imp (fun h => by rw [h]) fun h => h.mono ?_ ?_
      · exact fun x hx => ⟨members, hmessage, hx⟩
      · exact fun x hx => ⟨members', hmessage', by rwa [htypes, hprimary]⟩

/-- A message with a number and octets as text, and one with the number as such, the octets in other
letters and a member more, have one hash, and their values are told to be the same. -/
theorem mail_binds :
    let types : Types := [("Mail", [⟨"amount", "int16"⟩, ⟨"tag", "bytes2"⟩, ⟨"notes", "string[]"⟩])]
    let d : TypedData := ⟨⟨none, none, none, none, none⟩, types, "Mail", .object
      [("notes", .array [.string "a"]), ("tag", .string "0xCd2a"), ("amount", .string "-0x10")]⟩
    let d' : TypedData := ⟨⟨none, none, none, none, none⟩, types, "Mail", .object
      [("amount", .number (.negative 16)), ("tag", .string "cd2A"), ("notes", .array [.string "a"]),
        ("memo", .null)]⟩
    let v : Value := .struct "Mail" [.integer (-16), .fixed [0xcd, 0x2a], .array [.text "a"]]
    Reads types d.message (.base "Mail") v ∧ Reads types d'.message (.base "Mail") v ∧
      ∃ b, d.messageHash = .ok b ∧ d'.messageHash = .ok b ∧
        (v = v ∨ Collision d.Hashes d'.Hashes) := by
  intro types d d' v
  have hint : FieldType.WrittenAs (.base "int16") "int16" := ⟨FieldType.plain_base (by decide), rfl⟩
  have hbytes : FieldType.WrittenAs (.base "bytes2") "bytes2" :=
    ⟨FieldType.plain_base (by decide), rfl⟩
  have hnotes : FieldType.WrittenAs (.array (.base "string") []) "string[]" :=
    ⟨⟨FieldType.plain_base (by decide), .inl rfl⟩, rfl⟩
  have hplain : PlainTypes types := by
    simp only [PlainTypes, types, List.forall_mem_cons, List.not_mem_nil, false_implies,
      implies_true, and_true]
    exact ⟨⟨_, hint⟩, ⟨_, hbytes⟩, ⟨_, hnotes⟩⟩
  have hintName : Atom.Names (.signed 16) "int16" :=
    .signedOf ⟨['1', '6'], rfl, rfl⟩ (by decide) (by decide) rfl
  have hbytesName : Atom.Names (.fixed 2) "bytes2" :=
    .fixed ⟨['2'], rfl, rfl⟩ (by decide) (by decide)
  have hdigit (c : Char) (n : Nat) (h : n < 16 ∧ (c = n.digitChar ∨ c = n.digitChar.toUpper)) :
      Digits.IsDigit 16 c n := h
  have hsixteen : Digits.Numeral 16 ['1', '0'] 16 :=
    .snoc (.digit (hdigit '1' 1 (by decide))) (hdigit '0' 0 (by decide))
  have htag : Hex.IsText "0xCd2a" [0xcd, 0x2a] :=
    ⟨_, .cons (hdigit 'C' 12 (by decide)) (hdigit 'd' 13 (by decide))
      (.cons (hdigit '2' 2 (by decide)) (hdigit 'a' 10 (by decide)) .nil), .inr rfl⟩
  have htag' : Hex.IsText "cd2A" [0xcd, 0x2a] :=
    ⟨_, .cons (hdigit 'c' 12 (by decide)) (hdigit 'd' 13 (by decide))
      (.cons (hdigit '2' 2 (by decide)) (hdigit 'A' 10 (by decide)) .nil), .inl rfl⟩
  have hlist :
      Written types (.array [.string "a"]) (.array (.base "string") []) (.array [.text "a"]) :=
    .array (.inl rfl) (.cons (.atom rfl .text (.text "a")) .nil)
  have hamount : IntegerJson (.string "-0x10") (-16) :=
    .negativeText (n := 16) rfl (.inr ⟨['1', '0'], rfl, hsixteen⟩) (by decide)
  have hamount' : IntegerJson (.number (.negative 16)) (-16) := .negative (by decide)
  have hd : Written types d.message (.base "Mail") v :=
    .struct rfl (.cons hint rfl (.atom rfl hintName (.signed hamount (by decide)))
      (.cons hbytes rfl (.atom rfl hbytesName (.fixed htag)) (.cons hnotes rfl hlist .nil)))
  have hd' : Written types d'.message (.base "Mail") v :=
    .struct rfl (.cons hint rfl (.atom rfl hintName (.signed hamount' (by decide)))
      (.cons hbytes rfl (.atom rfl hbytesName (.fixed htag')) (.cons hnotes rfl hlist .nil)))
  have hhash := messageHash_written (d := d) hplain hd ⟨_, rfl⟩
  have hhash' := messageHash_written (d := d') hplain hd' ⟨_, rfl⟩
  have hbinds := @messageHash_binds d d' rfl rfl v v hd.reads hd'.reads _ hhash hhash'
  exact ⟨hd.reads, hd'.reads, v.word types, hhash, hhash', hbinds⟩

end Countersign.TypedData
