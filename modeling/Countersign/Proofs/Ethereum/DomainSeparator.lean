import Countersign.Proofs.Ethereum.Refusal
import Countersign.Proofs.Lookup
import Countersign.Proofs.Page.Wire

/-!
# The hash of a domain

A domain is hashed on a way of its own, by its members and not by a table of types. It comes to what
the hash of a struct comes to whose fields are the members that the domain has: the type refers to
no other type, and each word is that of a primitive value. The two ways differ in the salt alone,
which must fill its word on the one and may be shorter on the other.
-/
namespace Countersign.TypedData

/-- The types define the domain as just the members that it has. No struct type bears the name of
one of their types. -/
def DefinesDomain (types : Types) (d : Domain) : Prop :=
  types.lookup "EIP712Domain" = some (d.present.map Prod.fst) ∧
    ∀ m ∈ d.present, types.lookup m.1.type = none

/-- The octets that the salt gives, if there is a salt and it gives any. -/
def Domain.SaltGives (d : Domain) (b : Bytes) : Prop :=
  ∃ text, d.salt = some text ∧ Hex.decode text = .ok b

/-! ### Members -/

theorem definesDomain_alone (d : Domain) :
    DefinesDomain [("EIP712Domain", d.present.map Prod.fst)] d := by
  refine ⟨List.lookup_cons_self, fun m hm => ?_⟩
  have hprimitive := d.primitive_of_present m hm
  have hne : (m.1.type == "EIP712Domain") = false := by
    rw [beq_eq_false_iff_ne]
    intro heq
    rw [heq] at hprimitive
    exact absurd hprimitive (by decide)
  rw [List.lookup_cons, hne]
  rfl

namespace Domain

variable {d : Domain}

theorem jsonMembers_eq (d : Domain) : d.jsonMembers = d.present.map fun m => (m.1.name, m.2) := by
  obtain ⟨name, version, chain, contract, salt⟩ := d
  cases name <;> cases version <;> cases chain <;> cases contract <;> cases salt <;> rfl

/-- The members are found under their names, in whatever order they stand. -/
theorem lookup_of_present {members : List (String × Json)} (hmembers : members.Perm d.jsonMembers)
    {m : Field × Json} (hm : m ∈ d.present) : members.lookup m.1.name = some m.2 := by
  have hnames : (d.jsonMembers.map Prod.fst).Nodup := d.names_members.nodup (by decide)
  have hmem : (m.1.name, m.2) ∈ d.jsonMembers := by
    rw [jsonMembers_eq]
    exact List.mem_map_of_mem hm
  rw [← lookup_perm hmembers.symm hnames]
  exact lookup_of_mem hnames hmem

/-- The types of members are names without brackets. -/
theorem plain_of_present {m : Field × Json} (hm : m ∈ d.present) :
    itemType? m.1.type = none ∧ baseType m.1.type = m.1.type := by
  have hplain : ∀ type ∈ ["string", "string", "uint256", "address", "bytes32"],
      itemType? type = none ∧ baseType type = type := by
    decide
  exact hplain _ (type_of_present hm)

/-- The one member whose type is a word of octets is the salt. -/
theorem salt_of_present {m : Field × Json} (hm : m ∈ d.present) (htype : m.1.type = "bytes32") :
    d.salt.map Json.string = some m.2 := by
  obtain ⟨member, hmember, hpresent⟩ := List.mem_filterMap.mp hm
  obtain ⟨v, hv, rfl⟩ := Option.map_eq_some_iff.mp hpresent
  simp only [members, List.mem_cons, List.not_mem_nil, or_false] at hmember
  rcases hmember with rfl | rfl | rfl | rfl | rfl
  iterate 4
    next => exact absurd htype (by simp)
  next => exact hv

theorem present_of_salt {text : String} (h : d.salt = some text) :
    ((⟨"salt", "bytes32"⟩, .string text) : Field × Json) ∈ d.present := by
  refine List.mem_filterMap.mpr ⟨(⟨"salt", "bytes32"⟩, d.salt.map .string), ?_, ?_⟩
  · simp [members]
  · rw [h]
    rfl

end Domain

/-! ### The text of the type -/

/-- A type that refers to no struct type is its definition alone. -/
theorem encodeType_of_leaves {types : Types} {name : String} {fields : List Field}
    (hname : types.lookup name = some fields)
    (hleaves : ∀ f ∈ fields, defined types (baseType f.type) = false) :
    encodeType types name = .ok (formatStruct name fields) := by
  have hreferred : referred types name = [] := by
    rw [referred, hname, List.filter_eq_nil_iff]
    intro base hbase
    obtain ⟨f, hf, rfl⟩ := List.mem_map.mp hbase
    simp [hleaves f hf]
  have hclosed : Closed types [name] := by
    simp [Closed, hreferred]
  have hreachable : reachable types name = [name] := reach_of_closed hclosed _
  have hothers : [name].filter (· ≠ name) = [] := by simp
  rw [encodeType, hreachable, hothers, sorted, List.foldr_nil, formatTypes, formatTypes, formatType,
    hname]
  simp [bind, Except.bind, pure, Except.pure]

/-! ### Words -/

theorem sizedName_salt : SizedName "bytes" 32 "bytes32" := ⟨['3', '2'], rfl, rfl⟩

/-- Where a salt that is read fills its word, the word of a member is that of a primitive value. -/
theorem domainWord_eq {f : Field} {v : Json}
    (h : f.type = "bytes32" → ∀ text b, v = .string text → Hex.decode text = .ok b →
      b.length = 32) :
    domainWord f v = encodePrimitive f.type v := by
  unfold domainWord
  by_cases htype : f.type = "bytes32"
  · have hfixed : encodePrimitive "bytes32" v = fixedOf "bytes32" 32 v :=
      encodePrimitive_bytes sizedName_salt v
    rw [if_pos htype, htype, hfixed, fixedOf]
    cases htext : textOf "bytes32" v with
    | error fault => rfl
    | ok text =>
      cases hoctets : octetsOf text with
      | error fault => simp [bind, Except.bind, hoctets]
      | ok b =>
        have hlength := h htype text b (textOf_eq_ok htext) (decode_of_octetsOf hoctets)
        simp [bind, Except.bind, hoctets, hlength]
  · rw [if_neg htype]

/-- A salt of another length has no word. -/
theorem domainWord_of_salt {name text : String} {b : Bytes} (hb : Hex.decode text = .ok b)
    (hlength : b.length ≠ 32) (word : Bytes) :
    domainWord ⟨name, "bytes32"⟩ (.string text) ≠ .ok word := by
  have hoctets : octetsOf text = .ok b := by rw [octetsOf, hb]
  simp [domainWord, textOf, hoctets, bind, Except.bind, hlength, invalid]

theorem exists_domainWord {present : List (Field × Json)} {words : Bytes}
    (h : domainWords present = .ok words) {m : Field × Json} (hm : m ∈ present) :
    ∃ word, domainWord m.1 m.2 = .ok word := by
  induction present generalizing words with
  | nil => cases hm
  | cons first present ih =>
    obtain ⟨word, hword, h⟩ := exists_of_bind_ok h
    obtain ⟨more, hmore, -⟩ := exists_of_bind_ok h
    rcases List.mem_cons.mp hm with rfl | hm
    · exact ⟨word, hword⟩
    · exact ih hmore hm

/-- The fields of a struct have the words of the members of a domain if each of them has. -/
theorem encodeFields_eq_domainWords {types : Types} {members : List (String × Json)}
    {present : List (Field × Json)}
    (h : ∀ m ∈ present, members.lookup m.1.name = some m.2 ∧
      encodeField types m.2 m.1.type = domainWord m.1 m.2) :
    encodeFields (memberEncoders types members) (present.map Prod.fst) = domainWords present := by
  induction present with
  | nil => rfl
  | cons m present ih =>
    obtain ⟨⟨hlookup, hword⟩, hpresent⟩ := List.forall_mem_cons.mp h
    rw [List.map_cons, encodeFields, lookup_memberEncoders, hlookup, Option.map_some, domainWords,
      ih hpresent]
    simp only [hword]

/-! ### Both ways -/

section Agreement

variable {d : Domain} {types : Types} {members : List (String × Json)}

/-- Members are values of primitive types on both ways. -/
theorem DefinesDomain.encodeField_eq (htypes : DefinesDomain types d) {m : Field × Json}
    (hm : m ∈ d.present) : encodeField types m.2 m.1.type = encodePrimitive m.1.type m.2 := by
  refine encodeField_atom (Domain.plain_of_present hm).1 ?_ m.2
  rw [defined, htypes.2 m hm]
  rfl

theorem DefinesDomain.encodeType_eq (htypes : DefinesDomain types d) :
    encodeType types "EIP712Domain" =
      .ok (formatStruct "EIP712Domain" (d.present.map Prod.fst)) := by
  refine encodeType_of_leaves htypes.1 fun f hf => ?_
  obtain ⟨m, hm, rfl⟩ := List.mem_map.mp hf
  rw [(Domain.plain_of_present hm).2, defined, htypes.2 m hm]
  rfl

/-- With a salt that fills its word, if there is one that can be read, the two ways come to the
same, be it a hash or a refusal. -/
theorem separator_eq_of_salt (htypes : DefinesDomain types d)
    (hmembers : members.Perm d.jsonMembers) (hsalt : ∀ b, d.SaltGives b → b.length = 32) :
    d.separator = hashStruct types "EIP712Domain" (.object members) := by
  have hwords : encodeFields (memberEncoders types members) (d.present.map Prod.fst) =
      domainWords d.present := by
    refine encodeFields_eq_domainWords fun m hm => ⟨Domain.lookup_of_present hmembers hm, ?_⟩
    rw [htypes.encodeField_eq hm]
    refine (domainWord_eq fun htype text b htext hb => hsalt b ?_).symm
    obtain ⟨s, hs, hv⟩ := Option.map_eq_some_iff.mp (Domain.salt_of_present hm htype)
    rw [htext] at hv
    exact ⟨s, hs, Json.string.inj hv ▸ hb⟩
  have hstruct : hashStruct types "EIP712Domain" (.object members) = (do
      let words ← encodeFields (memberEncoders types members) (d.present.map Prod.fst)
      return Keccak256.hash (Keccak256.hash
        (Utf8.encode (formatStruct "EIP712Domain" (d.present.map Prod.fst))) ++ words)) := by
    rw [hashStruct, hashWith, htypes.encodeType_eq, htypes.1, Option.getD_some]
    rfl
  rw [hstruct, hwords]
  rfl

/-- A salt that does not fill its word is refused on the first way. -/
theorem separator_refused {b : Bytes} (hsalt : d.SaltGives b) (hlength : b.length ≠ 32) :
    ∃ e, d.separator = .error (.refused e) ∧ ValueRefusal e := by
  obtain ⟨text, htext, hb⟩ := hsalt
  cases h : d.separator with
  | error fault =>
    obtain ⟨e, rfl, he⟩ := d.separator_refuses fault h
    exact ⟨e, rfl, he⟩
  | ok hash =>
    obtain ⟨words, hwords, -⟩ := exists_of_bind_ok h
    obtain ⟨word, hword⟩ := exists_domainWord hwords (Domain.present_of_salt htext)
    exact absurd hword (domainWord_of_salt hb hlength word)

/-- A salt that is longer than its word is refused on the other way as well. -/
theorem hashStruct_refused (htypes : DefinesDomain types d) (hmembers : members.Perm d.jsonMembers)
    {b : Bytes} (hsalt : d.SaltGives b) (hlong : 32 < b.length) :
    ∃ fault, hashStruct types "EIP712Domain" (.object members) = .error fault := by
  obtain ⟨text, htext, hb⟩ := hsalt
  have hpresent := Domain.present_of_salt htext
  cases h : hashStruct types "EIP712Domain" (.object members) with
  | error fault => exact ⟨fault, rfl⟩
  | ok hash =>
    obtain ⟨_, data, -, hdata, -⟩ := contents_of_struct htypes.1 h
    obtain ⟨word, hword⟩ := exists_word_of_fields hdata (List.mem_map_of_mem hpresent)
      (Domain.lookup_of_present hmembers hpresent)
    rw [htypes.encodeField_eq hpresent, encodePrimitive_bytes sizedName_salt] at hword
    obtain ⟨text', b', htext', hb', hlaid⟩ := laidFrom_of_fixedOf hword
    obtain rfl := Json.string.inj htext'
    obtain rfl := Except.ok.inj (hb.symm.trans hb')
    rw [laid?, if_neg (by omega)] at hlaid
    cases hlaid

end Agreement

/-- Whatever members a domain has and whatever stands in them: if it has a hash then that is the
hash of the struct whose fields are the members that are there, over the domain as a JSON object;
and if it has none then that struct has none either, unless there is a salt that is shorter than a
word. Where there is no salt of another length than a word, both come to the same in all cases,
refusals included. So it is with a table of types that defines the domain alone, and with others
beside it. -/
theorem separator_as_struct (d : Domain) :
    DefinesDomain [("EIP712Domain", d.present.map Prod.fst)] d ∧
    ∀ t : TypedData, DefinesDomain t.types d →
      (∃ members, t.message = .object members ∧ members.Perm d.jsonMembers) →
      (∀ b, d.separator = .ok b → hashStruct t.types "EIP712Domain" t.message = .ok b) ∧
      (∀ fault, d.separator = .error fault →
        (∃ fault', hashStruct t.types "EIP712Domain" t.message = .error fault') ∨
          ∃ b, d.SaltGives b ∧ b.length < 32) ∧
      ((∀ b, d.SaltGives b → b.length = 32) →
        d.separator = hashStruct t.types "EIP712Domain" t.message) := by
  refine ⟨definesDomain_alone d, fun t htypes hmessage => ?_⟩
  obtain ⟨members, hobject, hmembers⟩ := hmessage
  rw [hobject]
  refine ⟨fun hash h => ?_, fun fault h => ?_, separator_eq_of_salt htypes hmembers⟩
  · rw [← separator_eq_of_salt htypes hmembers, h]
    intro b hb
    by_contra hlength
    obtain ⟨e, he, -⟩ := separator_refused hb hlength
    rw [h] at he
    cases he
  · by_cases hfills : ∀ b, d.SaltGives b → b.length = 32
    · exact .inl ⟨fault, by rw [← separator_eq_of_salt htypes hmembers hfills, h]⟩
    · push Not at hfills
      obtain ⟨b, hb, hlength⟩ := hfills
      rcases Nat.lt_or_gt_of_ne hlength with hshort | hlong
      · exact .inr ⟨b, hb, hshort⟩
      · exact .inl (hashStruct_refused htypes hmembers hb hlong)

/-- A domain among other types, its object sorted by name: with a salt of thirty-two octets it has
the hash of the struct, and with one octet it has none where the struct has. -/
theorem salted_domain_as_struct :
    let types : Types := [("Mail", [⟨"to", "Person"⟩]), ("Person", [⟨"name", "string"⟩]),
      ("EIP712Domain", [⟨"name", "string"⟩, ⟨"chainId", "uint256"⟩, ⟨"salt", "bytes32"⟩])]
    let d (salt : String) : Domain := ⟨some "Ether Mail", none, some 1, none, some salt⟩
    let t (salt : String) : TypedData := ⟨d salt, types, "Mail",
      .object [("chainId", Json.nat 1), ("name", .string "Ether Mail"), ("salt", .string salt)]⟩
    let full := "0x" ++ String.ofList (List.replicate 64 'a')
    (∃ b, (d full).separator = .ok b ∧
      hashStruct types "EIP712Domain" (t full).message = .ok b) ∧
    (∃ fault, (d "0xaa").separator = .error fault) ∧
      (∃ b, (d "0xaa").SaltGives b ∧ b.length < 32) ∧
      ∃ b, hashStruct types "EIP712Domain" (t "0xaa").message = .ok b := by
  intro types d t full
  have htypes (salt : String) : DefinesDomain (t salt).types (d salt) :=
    ⟨rfl, by simp [d, Domain.present, Domain.members, t, types, List.lookup_cons]⟩
  have hmessage (salt : String) : ∃ members, (t salt).message = .object members ∧
      members.Perm (d salt).jsonMembers :=
    ⟨_, rfl, .swap _ _ _⟩
  obtain ⟨hash, -, -⟩ := (separator_as_struct (d full)).2 (t full) (htypes full) (hmessage full)
  obtain ⟨-, hrefused, -⟩ :=
    (separator_as_struct (d "0xaa")).2 (t "0xaa") (htypes "0xaa") (hmessage "0xaa")
  have hfull : ∃ b, (d full).separator = .ok b := by
    have hok : (d full).separator.isOk = true := by decide +kernel
    generalize (d full).separator = r at hok ⊢
    cases r with
    | error fault => cases hok
    | ok b => exact ⟨b, rfl⟩
  have hshort : ∃ fault, (d "0xaa").separator = .error fault := ⟨_, rfl⟩
  have hstruct : ∃ b, hashStruct types "EIP712Domain" (t "0xaa").message = .ok b := ⟨_, rfl⟩
  obtain ⟨b, hb⟩ := hfull
  obtain ⟨fault, hfault⟩ := hshort
  refine ⟨⟨b, hb, hash b hb⟩, ⟨fault, hfault⟩, ?_, hstruct⟩
  rcases hrefused fault hfault with ⟨fault', hfault'⟩ | hgives
  · obtain ⟨b, hb⟩ := hstruct
    rw [hb] at hfault'
    cases hfault'
  · exact hgives

end Countersign.TypedData
