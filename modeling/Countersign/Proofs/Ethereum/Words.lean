import Countersign.Ethereum.TypedHash
import Countersign.Proofs.Hash

/-!
# Words of typed data

All that is laid into the words of typed data fills a word of thirty-two octets, and so do the
hashes. If there is a hash there are the contents that it is the hash of.
-/
namespace Countersign

/-- A sequence that succeeds succeeds in its first part, and then in its second. -/
theorem exists_of_bind_ok {ε α β : Type} {x : Except ε α} {f : α → Except ε β} {b : β}
    (h : x >>= f = .ok b) : ∃ a, x = .ok a ∧ f a = .ok b := by
  cases x with
  | error e => cases h
  | ok a => exact ⟨a, rfl, h⟩

theorem exists_of_map_ok {ε α β : Type} {x : Except ε α} {f : α → β} {b : β}
    (h : x.map f = .ok b) : ∃ a, x = .ok a ∧ f a = b := by
  cases x with
  | error e => cases h
  | ok a => exact ⟨a, rfl, Except.ok.inj h⟩

namespace TypedData

/-- The hash of a domain fills a word. -/
theorem Domain.length_separator {d : Domain} {b : Bytes} (h : d.separator = .ok b) :
    b.length = 32 := by
  obtain ⟨words, -, h⟩ := exists_of_bind_ok h
  rw [← Except.ok.inj h, Keccak256.length_hash]

theorem length_hashWith {types : Types} {name : String} {encoders : Option Encoders} {b : Bytes}
    (h : hashWith types name encoders = .ok b) : b.length = 32 := by
  obtain ⟨text, -, h⟩ := exists_of_bind_ok h
  cases encoders with
  | none => cases h
  | some encoders =>
    obtain ⟨data, -, h⟩ := exists_of_bind_ok h
    rw [← Except.ok.inj h, Keccak256.length_hash]

theorem length_messageHash {d : TypedData} {b : Bytes} (h : d.messageHash = .ok b) :
    b.length = 32 := by
  unfold messageHash hashStruct at h
  split at h
  · exact length_hashWith h
  · exact length_hashWith h

/-- Octets at the front of a word are filled up to its width. -/
theorem length_fixedOf {type : String} {width : Nat} {v : Json} {word : Bytes}
    (h : fixedOf type width v = .ok word) : word.length = 32 := by
  obtain ⟨text, -, h⟩ := exists_of_bind_ok h
  obtain ⟨b, -, h⟩ := exists_of_bind_ok h
  split at h
  next => cases h
  next =>
    split at h
    next => cases h
    next hle =>
      rw [← Except.ok.inj h, Bytes.padRight, List.length_append, List.length_replicate]
      omega

theorem length_encodePrimitive {type : String} {v : Json} {word : Bytes}
    (h : encodePrimitive type v = .ok word) : word.length = 32 := by
  have hnumber {x : Except Fault Nat} (h : x.map wordOf = .ok word) : word.length = 32 := by
    obtain ⟨n, -, rfl⟩ := exists_of_map_ok h
    exact Bytes.length_ofNat 32 n
  unfold encodePrimitive at h
  split at h
  next =>
    obtain ⟨text, -, h⟩ := exists_of_bind_ok h
    rw [← Except.ok.inj h, Keccak256.length_hash]
  split at h
  next =>
    obtain ⟨text, -, h⟩ := exists_of_bind_ok h
    obtain ⟨b, -, h⟩ := exists_of_bind_ok h
    rw [← Except.ok.inj h, Keccak256.length_hash]
  split at h
  next =>
    split at h
    next => rw [← Except.ok.inj h, wordOf, Bytes.length_ofNat]
    next => cases h
  split at h
  next =>
    obtain ⟨text, -, h⟩ := exists_of_bind_ok h
    obtain ⟨b, -, h⟩ := exists_of_bind_ok h
    split at h
    next hb => rw [← Except.ok.inj h, Bytes.length_padLeft (by omega)]
    next => cases h
  split at h
  next =>
    split at h
    next => exact length_fixedOf h
    next => cases h
  split at h
  next => exact hnumber h
  split at h
  next => exact hnumber h
  next => cases h

/-- Whatever a field is, its word has thirty-two octets. -/
theorem length_encodeField {types : Types} {v : Json} {type : String} {word : Bytes}
    (h : encodeField types v type = .ok word) : word.length = 32 := by
  cases hitem : itemType? type with
  | some item =>
    cases v with
    | array items =>
      simp only [encodeField, hitem] at h
      obtain ⟨words, -, h⟩ := exists_of_bind_ok h
      rw [← Except.ok.inj h, Keccak256.length_hash]
    | null | bool | number | string | object =>
      simp only [encodeField, hitem] at h
      cases h
  | none =>
    cases hdefined : defined types type with
    | true =>
      cases v with
      | null | bool | number | string | array | object =>
        simp only [encodeField, hitem, hdefined, if_true] at h
        exact length_hashWith h
    | false =>
      cases v with
      | null | bool | number | string | array | object =>
        simp only [encodeField, hitem, hdefined, Bool.false_eq_true, if_false] at h
        exact length_encodePrimitive h

/-! ### Contents -/

/-- The word of an array is the hash of the words of its items. -/
theorem contents_of_array {types : Types} {items : List Json} {type item : String} {word : Bytes}
    (hitem : itemType? type = some item) (h : encodeField types (.array items) type = .ok word) :
    ∃ words, encodeItems types items item = .ok words ∧ word = Keccak256.hash words := by
  simp only [encodeField, hitem] at h
  obtain ⟨words, hwords, h⟩ := exists_of_bind_ok h
  exact ⟨words, hwords, (Except.ok.inj h).symm⟩

theorem contents_of_items {types : Types} {j : Json} {items : List Json} {type : String}
    {words : Bytes} (h : encodeItems types (j :: items) type = .ok words) :
    ∃ word more, encodeField types j type = .ok word ∧ encodeItems types items type = .ok more ∧
      words = word ++ more := by
  simp only [encodeItems] at h
  obtain ⟨word, hword, h⟩ := exists_of_bind_ok h
  obtain ⟨more, hmore, h⟩ := exists_of_bind_ok h
  exact ⟨word, more, hword, hmore, (Except.ok.inj h).symm⟩

theorem contents_of_fields {encoders : Encoders} {f : Field} {fields : List Field} {data : Bytes}
    (h : encodeFields encoders (f :: fields) = .ok data) :
    ∃ encode word more, encoders.lookup f.name = some encode ∧ encode f.type = .ok word ∧
      encodeFields encoders fields = .ok more ∧ data = word ++ more := by
  simp only [encodeFields] at h
  split at h
  next => cases h
  next encode hencode =>
    obtain ⟨word, hword, h⟩ := exists_of_bind_ok h
    obtain ⟨more, hmore, h⟩ := exists_of_bind_ok h
    exact ⟨encode, word, more, hencode, hword, hmore, (Except.ok.inj h).symm⟩

/-- The word of a struct is the hash of its definition and the words of its fields. -/
theorem contents_of_struct {types : Types} {name : String} {fields : List Field}
    {members : List (String × Json)} {word : Bytes} (hname : types.lookup name = some fields)
    (h : hashStruct types name (.object members) = .ok word) :
    ∃ text data, encodeType types name = .ok text ∧
      encodeFields (memberEncoders types members) fields = .ok data ∧
      word = Keccak256.hash (Keccak256.hash (Utf8.encode text) ++ data) := by
  simp only [hashStruct, hashWith] at h
  obtain ⟨text, htext, h⟩ := exists_of_bind_ok h
  obtain ⟨data, hdata, h⟩ := exists_of_bind_ok h
  rw [hname] at hdata
  exact ⟨text, data, htext, hdata, (Except.ok.inj h).symm⟩

end TypedData

end Countersign
