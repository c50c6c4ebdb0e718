import Countersign.Device.Session
import Countersign.Proofs.Ethereum.Leaves

/-!
# Typed data that is refused

Hashing typed data fails with a refusal of the typed data or of a type, and never stops the program,
if the types passed validation. A value could only overrun its word in a type of more than
thirty-two octets; the name of such a type stands for no atom, and taking items out of arrays does
not lead to one.
-/
namespace Countersign

namespace TypedData

/-- A refusal of typed data. -/
inductive Refusal : Error → Prop
  | invalid (detail : String) : Refusal (.invalidTypedData detail)
  | undefinedType (name : String) : Refusal (.undefinedType name)

theorem ValueRefusal.exists_detail {e : Error} (h : ValueRefusal e) :
    ∃ detail, e = .invalidTypedData detail := by
  cases h <;> exact ⟨_, rfl⟩

theorem ValueRefusal.refusal {e : Error} (h : ValueRefusal e) : Refusal e := by
  obtain ⟨detail, rfl⟩ := h.exists_detail
  exact .invalid detail

/-- The name of a type does not announce more octets than a word has. -/
def FitsWord (type : String) : Prop :=
  ∀ width, SizedName "bytes" width type → width ≤ 32

theorem fitsWord_of_primitive {type : String} (h : isPrimitive type = true) : FitsWord type := by
  rintro width ⟨cs, hcs, hread⟩
  obtain ⟨a, ha⟩ := exists_names h
  cases ha with
  | text | bool | address | unsigned | signed => exact absurd rfl (ne_of_word hcs (by decide))
  | octets =>
    obtain rfl : cs = [] := by simpa using hcs
    cases hread
  | fixed hname hpos hle =>
    obtain ⟨ds, hds, hread'⟩ := hname
    rw [← List.append_cancel_left (hcs.symm.trans hds), hread] at hread'
    rwa [Except.ok.inj hread']
  | unsignedOf hname hpos hle hoctets =>
    obtain ⟨ds, hds, -⟩ := hname
    have hother := behindWord_other hds (by decide : ¬"uint".toList <+: "bytes".toList) (by decide)
    rw [behindWord_eq.mpr hcs] at hother
    cases hother
  | signedOf hname hpos hle hoctets =>
    obtain ⟨ds, hds, -⟩ := hname
    have hother := behindWord_other hds (by decide : ¬"int".toList <+: "bytes".toList) (by decide)
    rw [behindWord_eq.mpr hcs] at hother
    cases hother

/-- A sized name of a known type has no suffix, as a number is written without brackets, so its
width is that of a word at most. -/
theorem Known.fitsWord {types : Types} {type : String} (h : Known types type)
    (hnot : defined types type = false) : FitsWord type := by
  intro width hname
  have hbase : baseType type = type := by
    obtain ⟨cs, hcs, hread⟩ := hname
    have hnot : '[' ∉ type.toList := by
      rw [hcs, List.mem_append, not_or]
      exact ⟨by decide, Digits.notMem_of_read (by decide) (by decide) hread⟩
    exact baseType_eq_self hnot
  unfold Known at h
  rw [hbase, hnot] at h
  exact fitsWord_of_primitive (h.resolve_left Bool.false_ne_true) width hname

/-! ### Hashes -/

/-- The hash of a message that passed validation is there, or the message is refused as invalid. -/
theorem messageHash_invalid {d : TypedData} (h : d.validate = .ok ()) :
    RefusesWith (fun e => ∃ detail, e = .invalidTypedData detail) d.messageHash := by
  refine (messageHash_leaves h).mono fun e he => ?_
  rcases he with he | ⟨_, _, _, _, he⟩
  · exact he.exists_detail
  · exact ⟨_, he⟩

theorem messageHash_refusal {d : TypedData} (h : d.validate = .ok ()) :
    RefusesWith Refusal d.messageHash := by
  refine (messageHash_invalid h).mono fun e he => ?_
  obtain ⟨detail, rfl⟩ := he
  exact .invalid detail

theorem Domain.separator_refusal (d : Domain) : RefusesWith Refusal d.separator :=
  d.separator_refuses.mono fun _ => ValueRefusal.refusal

theorem refusal_of_ofJson {input : Bytes} {e : Error} (h : ofJson input = .error e) :
    Refusal e := by
  unfold ofJson at h
  split at h
  next => cases h
  next => exact Except.error.inj h ▸ .invalid _

theorem refusal_of_validate {d : TypedData} {e : Error} (h : d.validate = .error e) :
    Refusal e := by
  unfold validate at h
  split at h
  · exact Except.error.inj h ▸ .undefinedType _
  · split at h
    · exact Except.error.inj h ▸ .undefinedType _
    · split at h
      · cases h
      · exact Except.error.inj h ▸ .invalid _

/-! ### Words -/

/-- Octets laid into a word of zeros from a place on. There is no such word if they go beyond its
end. -/
def laid? (place : Nat) (b : Bytes) : Option Bytes :=
  if place + b.length ≤ 32 then
    some (List.replicate place 0 ++ (b ++ List.replicate (32 - (place + b.length)) 0))
  else none

/-- The octets of a hexadecimal text, and no others, are laid into a word from a place on. -/
def LaidFrom (place : Nat) (v : Json) (word : Bytes) : Prop :=
  ∃ text b, v = .string text ∧ Hex.decode text = .ok b ∧ laid? place b = some word

theorem textOf_eq_ok {expected text : String} {v : Json} (h : textOf expected v = .ok text) :
    v = .string text := by
  unfold textOf at h
  split at h
  next => rw [Except.ok.inj h]
  next => cases h

theorem decode_of_octetsOf {text : String} {b : Bytes} (h : octetsOf text = .ok b) :
    Hex.decode text = .ok b := by
  unfold octetsOf at h
  split at h
  next hdecode => rw [hdecode, Except.ok.inj h]
  next => cases h

theorem laidFrom_of_fixedOf {type : String} {width : Nat} {v : Json} {word : Bytes}
    (h : fixedOf type width v = .ok word) : LaidFrom 0 v word := by
  obtain ⟨text, htext, h⟩ := exists_of_bind_ok h
  obtain ⟨b, hb, h⟩ := exists_of_bind_ok h
  refine ⟨text, b, textOf_eq_ok htext, decode_of_octetsOf hb, ?_⟩
  split at h
  next => cases h
  next =>
    split at h
    next => cases h
    next hle =>
      rw [← Except.ok.inj h, laid?, if_pos (by omega), Nat.zero_add]
      rfl

theorem laidFrom_of_address {v : Json} {word : Bytes} (h : encodePrimitive "address" v = .ok word) :
    LaidFrom 12 v word := by
  obtain ⟨text, htext, h⟩ := exists_of_bind_ok h
  obtain ⟨b, hb, h⟩ := exists_of_bind_ok h
  refine ⟨text, b, textOf_eq_ok htext, decode_of_octetsOf hb, ?_⟩
  split at h
  next hlength =>
    rw [← Except.ok.inj h, laid?, if_pos (by omega), Bytes.padLeft, hlength]
    simp
  next => cases h

/-- There is a digest, or the typed data is refused. -/
def DigestOrRefusal (r : Except Fault Bytes) : Prop :=
  (∃ digest, r = .ok digest ∧ digest.length = 32) ∨ ∃ e, r = .error (.refused e) ∧ Refusal e

theorem RefusesWith.digestOrRefusal {r : Except Fault Bytes} (hr : RefusesWith Refusal r)
    (hlength : ∀ b, r = .ok b → b.length = 32) : DigestOrRefusal r := by
  cases hcases : r with
  | ok b => exact .inl ⟨b, rfl, hlength b hcases⟩
  | error fault =>
    obtain ⟨e, rfl, he⟩ := hr fault hcases
    exact .inr ⟨e, rfl, he⟩

theorem length_signingHash {d : TypedData} {b : Bytes} (h : d.signingHash = .ok b) :
    b.length = 32 := by
  obtain ⟨_, -, h⟩ := exists_of_bind_ok h
  obtain ⟨_, -, h⟩ := exists_of_bind_ok h
  rw [← Except.ok.inj h, Keccak256.length_hash]

end TypedData

namespace Session

open TypedData

/-- Both hashes of a text are there, or the text is refused. -/
theorem typedHashes_refuses (text : Bytes) : RefusesWith Refusal (typedHashes text) := by
  refine RefusesWith.bind ?_ fun d _ => RefusesWith.bind ?_ fun _ hvalid => ?_
  · cases hd : TypedData.ofJson text with
    | ok d => exact .ok d
    | error e => exact .refused (refusal_of_ofJson hd)
  · cases hd : d.validate with
    | ok _ => exact .ok _
    | error e => exact .refused (refusal_of_validate hd)
  have hvalidate : d.validate = .ok () := by
    cases hd : d.validate with
    | ok _ => rfl
    | error e => simp [hd] at hvalid
  exact d.domain.separator_refusal.bind fun _ _ =>
    (messageHash_refusal hvalidate).bind fun _ _ => .ok _

/-- Signing typed data gives a result or an error, whatever the text is. -/
theorem signEthereum_typedData_refuses (s : Session) (path : DerivationPath) (text : Bytes) :
    RefusesWith (fun _ => True) (s.signEthereum .typedData path text).1 := by
  have hran {α : Type} (r : Except Error α) :
      RefusesWith (fun _ => True) (r.mapError .refused) := by
    cases r with
    | ok a => exact .ok a
    | error e => exact .refused trivial
  unfold signEthereum
  split
  next =>
    cases hhashes : typedHashes text with
    | ok hashes =>
      simp only [signing, hhashes]
      exact hran _
    | error fault =>
      obtain ⟨e, rfl, -⟩ := typedHashes_refuses text fault hhashes
      simp only [signing, hhashes]
      exact hran _
  next => exact .refused trivial
  next => exact .refused trivial

/-- Typed data that passed validation never stops the program, and no text that is to be signed as
typed data does. The domain, the message and both together have a digest or are refused. Wherever a
value comes to be laid into a word its type announces at most as many octets as a word has, and the
octets that are laid there do not go beyond its end. -/
theorem typed_data_never_overruns (s : Session) (path : DerivationPath) (text : Bytes)
    (d : TypedData) (hvalid : d.validate = .ok ()) :
    (∀ fault, (s.signEthereum .typedData path text).1 = .error fault → ∃ e, fault = .refused e) ∧
    DigestOrRefusal d.domain.separator ∧ DigestOrRefusal d.messageHash ∧
    DigestOrRefusal d.signingHash ∧
    ∀ v leaf, d.HasLeaf v leaf →
      (∀ width, SizedName "bytes" width leaf → width ≤ 32 ∧
        ∀ word, encodePrimitive leaf v = .ok word → LaidFrom 0 v word) ∧
      (leaf = "address" → ∀ word, encodePrimitive leaf v = .ok word → LaidFrom 12 v word) := by
  have hmessage := messageHash_refusal hvalid
  have hsigning := signingHash_refuses (fun _ => ValueRefusal.refusal) hmessage
  refine ⟨fun fault h => ?_,
    d.domain.separator_refusal.digestOrRefusal fun _ => d.domain.length_separator,
    hmessage.digestOrRefusal fun _ => length_messageHash,
    hsigning.digestOrRefusal fun _ => length_signingHash,
    fun v leaf h => ⟨fun width hname => ?_, ?_⟩⟩
  · obtain ⟨e, he, -⟩ := s.signEthereum_typedData_refuses path text fault h
    exact ⟨e, he⟩
  · obtain ⟨hknown, hdefined⟩ := h.known hvalid
    refine ⟨hknown.fitsWord hdefined width hname, fun word hword => ?_⟩
    rw [encodePrimitive_bytes hname] at hword
    exact laidFrom_of_fixedOf hword
  · rintro rfl word hword
    exact laidFrom_of_address hword

/-- A struct type has a name that announces thirty-three octets, and values of it stand in an array.
-/
theorem thirty_three_octets_struct :
    let types : Types := [("Seal", [⟨"mark", "bytes32"⟩, ⟨"rest", "bytes33[]"⟩]),
      ("bytes33", [⟨"more", "bytes+2"⟩])]
    let d : TypedData := ⟨⟨none, none, none, none, none⟩, types, "Seal",
      .object [("mark", .string "0xff"), ("rest", .array [.object [("more", .string "0102")]])]⟩
    let s : Session := ⟨some .ethereum, .fresh [] none⟩
    let path := DerivationPath.first DerivationPath.ethereumCoin
    d.validate = .ok () ∧ DigestOrRefusal d.messageHash ∧
      d.HasLeaf (.string "0102") "bytes+2" ∧ SizedName "bytes" 2 "bytes+2" ∧
      LaidFrom 0 (.string "0102") (1 :: 2 :: List.replicate 30 0) ∧
      ∀ fault, (s.signEthereum .typedData path [0xFF]).1 = .error fault →
        ∃ e, fault = .refused e := by
  intro types d s path
  have hvalid : d.validate = .ok () := by decide
  obtain ⟨hsigned, -, hmessage, -, hleaves⟩ := typed_data_never_overruns s path [0xFF] d hvalid
  have hmore : d.HasLeaf (.string "0102") "bytes+2" := by
    refine ⟨_, _, rfl, rfl, ⟨"rest", "bytes33[]"⟩, by simp, _, rfl, ?_⟩
    refine .item (show itemType? "bytes33[]" = some "bytes33" from rfl) List.mem_cons_self ?_
    exact .field rfl rfl List.mem_cons_self rfl (.here rfl rfl)
  have hname : SizedName "bytes" 2 "bytes+2" := ⟨['+', '2'], rfl, rfl⟩
  obtain ⟨-, hword⟩ := (hleaves _ _ hmore).1 2 hname
  exact ⟨hvalid, hmessage, hmore, hname, hword _ (by decide), hsigned⟩

end Session

end Countersign
