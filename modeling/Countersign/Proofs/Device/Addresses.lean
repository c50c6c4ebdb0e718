import Countersign.Proofs.Device.Fields
import Countersign.Proofs.Device.Opening
import Countersign.Proofs.Json.Forms
import Mathlib.Data.List.Induction

/-!
# Addresses as text

An address has many texts: its digits with letters of either case, with or without a mark. Just
these are read as the address, among them all that are written for it. So the text with which a
device reports an address makes no difference to whether its key is taken; only the address does.
-/
namespace Countersign

/-! ### Letters of either case -/

/-- What has a letter as its small letter is that letter or its capital. -/
theorem eq_or_eq_toUpper_of_toLower {c d : Char} (h : c.toLower = d) : c = d ∨ c = d.toUpper := by
  have hcapital : ∀ n : Fin 91, 65 ≤ n.val → (Char.ofNat n).toLower.toUpper = Char.ofNat n := by
    decide
  by_cases hc : c.val ≥ 'A'.val ∧ c.val ≤ 'Z'.val
  · obtain ⟨hlow, hhigh⟩ : 65 ≤ c.toNat ∧ c.toNat ≤ 90 :=
      ⟨UInt32.le_iff_toNat_le.mp hc.1, UInt32.le_iff_toNat_le.mp hc.2⟩
    have hback := hcapital ⟨c.toNat, by omega⟩ hlow
    rw [Char.ofNat_toNat, h] at hback
    exact .inr hback.symm
  · unfold Char.toLower at h
    rw [dif_neg hc] at h
    exact .inl h

namespace Hex

open Digits (IsDigit)

theorem toLower_digit :
    ∀ d : Fin 16, (digit d).toLower = digit d ∧ (digit d).toUpper.toLower = digit d := by
  decide

theorem digit_eq : ∀ d : Fin 16, digit d = Nat.digitChar d := by
  decide

/-- A digit is known by its small letter. -/
theorem isDigit_iff {c : Char} {d : Nat} (hd : d < 16) : IsDigit 16 c d ↔ c.toLower = digit d := by
  obtain ⟨hsmall, hlarge⟩ := toLower_digit ⟨d, hd⟩
  rw [IsDigit, ← digit_eq ⟨d, hd⟩]
  constructor
  · rintro ⟨-, rfl | rfl⟩
    · exact hsmall
    · exact hlarge
  · exact fun h => ⟨hd, eq_or_eq_toUpper_of_toLower h⟩

/-- The text of a byte string has its digits in small letters, and any letters for them. -/
theorem spells_iff {cs : List Char} {b : Bytes} : Spells cs b ↔ cs.map Char.toLower = digits b := by
  constructor
  · intro h
    induction h with
    | nil => rfl
    | @cons c c' x y cs b hx hy _ ih =>
      have hoctet : (UInt8.ofNat (16 * x + y)).toNat = 16 * x + y :=
        Utf8.toNat_octet (by have := hx.1; have := hy.1; omega)
      have hhigh : (16 * x + y) / 16 = x := by have := hy.1; omega
      have hlow : (16 * x + y) % 16 = y := by have := hy.1; omega
      rw [digits, List.flatMap_cons, hoctet, hhigh, hlow, ← digits, ← ih, List.map_cons,
        List.map_cons, (isDigit_iff hx.1).mp hx, (isDigit_iff hy.1).mp hy]
      rfl
  · intro h
    induction b generalizing cs with
    | nil =>
      obtain rfl := List.map_eq_nil_iff.mp h
      exact .nil
    | cons o b ih =>
      have ho := o.toNat_lt
      obtain ⟨c, rest, rfl, hc, h⟩ := List.map_eq_cons_iff.mp h
      obtain ⟨c', rest, rfl, hc', h⟩ := List.map_eq_cons_iff.mp h
      have hspells :=
        Spells.cons ((isDigit_iff (by omega)).mpr hc) ((isDigit_iff (by omega)).mpr hc') (ih h)
      rwa [Nat.div_add_mod, UInt8.ofNat_toNat] at hspells

theorem Spells.length {cs : List Char} {b : Bytes} (h : Spells cs b) :
    cs.length = 2 * b.length := by
  induction h with
  | nil => rfl
  | cons _ _ _ ih =>
    simp only [List.length_cons, ih]
    omega

/-- What is text of a byte string: digits in pairs. -/
def IsHex (cs : List Char) : Prop :=
  cs.length % 2 = 0 ∧ ∀ c ∈ cs, ∃ d, IsDigit 16 c d

theorem exists_spells_iff {cs : List Char} : (∃ b, Spells cs b) ↔ IsHex cs := by
  constructor
  · rintro ⟨b, h⟩
    refine ⟨by have := h.length; omega, ?_⟩
    induction h with
    | nil => exact nofun
    | cons hx hy _ ih =>
      exact List.forall_mem_cons.mpr ⟨⟨_, hx⟩, List.forall_mem_cons.mpr ⟨⟨_, hy⟩, ih⟩⟩
  · rintro ⟨hlength, hdigits⟩
    induction cs using List.twoStepInduction with
    | nil => exact ⟨[], .nil⟩
    | singleton c => cases hlength
    | cons_cons c c' cs ih _ =>
      obtain ⟨⟨x, hx⟩, hdigits⟩ := List.forall_mem_cons.mp hdigits
      obtain ⟨⟨y, hy⟩, hdigits⟩ := List.forall_mem_cons.mp hdigits
      obtain ⟨b, hb⟩ := ih (by simp only [List.length_cons] at hlength; omega) hdigits
      exact ⟨_, .cons hx hy hb⟩

theorem decode_eq_ok {t : String} {b : Bytes} : decode t = .ok b ↔ Spells (unmarked t) b := by
  rw [← spelled_iff, decode]
  cases decodeOctets ((unmarked t).flatMap String.utf8EncodeChar) with
  | ok b' => simp only [Except.ok.injEq, Except.toOption, Option.some.injEq]
  | error e => simp only [reduceCtorEq, Except.toOption]

theorem length_digits (b : Bytes) : (digits b).length = 2 * b.length :=
  (spells_digits b).length

/-- Digits that are written have small letters, and have them back from capitals. -/
theorem toLower_of_mem_digits {b : Bytes} {c : Char} (hc : c ∈ digits b) :
    c.toLower = c ∧ c.toUpper.toLower = c := by
  obtain ⟨o, -, hc⟩ := List.mem_flatMap.mp hc
  have ho := o.toNat_lt
  rcases List.mem_cons.mp hc with rfl | hc
  · exact toLower_digit ⟨o.toNat / 16, by omega⟩
  · obtain rfl := List.mem_singleton.mp hc
    exact toLower_digit ⟨o.toNat % 16, by omega⟩

end Hex

/-! ### Texts of addresses -/

namespace Address

open Hex (IsHex Spells)

/-- A text of an address: its digits with letters of either case, with or without the mark `0x`. -/
def IsTextOf (t : String) (a : Address) : Prop :=
  ∃ cs, cs.map Char.toLower = Hex.digits a.bytes ∧ (t.toList = cs ∨ t.toList = '0' :: 'x' :: cs)

theorem isTextOf_iff {t : String} {a : Address} :
    IsTextOf t a ↔ Spells (Hex.unmarked t) a.bytes := by
  constructor
  · rintro ⟨cs, hcs, ht⟩
    have hspells := Hex.spells_iff.mpr hcs
    rwa [Hex.unmarked_text hspells ht]
  · intro h
    refine ⟨Hex.unmarked t, Hex.spells_iff.mp h, ?_⟩
    unfold Hex.unmarked
    split
    next ht => exact .inr ht
    next => exact .inl rfl

/-- What a text is read as is told by its digits and their number. -/
theorem ofHex_cases (t : String) :
    (∃ a, IsTextOf t a ∧ IsHex (Hex.unmarked t) ∧ (Hex.unmarked t).length = 40 ∧ ofHex t = .ok a) ∨
      (¬IsHex (Hex.unmarked t) ∧ ∃ detail, ofHex t = .error (.hexDecodeFailed detail)) ∨
      IsHex (Hex.unmarked t) ∧ (Hex.unmarked t).length ≠ 40 ∧
        ∃ detail, ofHex t = .error (.addressDerivationFailed detail) := by
  unfold ofHex
  split
  next fault hfault =>
    refine .inr (.inl ⟨fun hhex => ?_, fault.message, rfl⟩)
    obtain ⟨b, hb⟩ := Hex.exists_spells_iff.mpr hhex
    rw [Hex.decode_eq_ok.mpr hb] at hfault
    cases hfault
  next b hb =>
    have hspells := Hex.decode_eq_ok.mp hb
    have hhex := Hex.exists_spells_iff.mp ⟨b, hspells⟩
    have hlength := hspells.length
    by_cases htwenty : b.length = 20
    · rw [Octets.ofBytes?, dif_pos htwenty]
      exact .inl ⟨⟨b, htwenty⟩, isTextOf_iff.mpr hspells, hhex, by omega, rfl⟩
    · rw [Octets.ofBytes?, dif_neg htwenty]
      exact .inr (.inr ⟨hhex, by omega, _, rfl⟩)

theorem ofHex_eq_ok {t : String} {a : Address} : ofHex t = .ok a ↔ IsTextOf t a := by
  constructor
  · intro h
    rcases ofHex_cases t with ⟨a', ha', -, -, hok⟩ | ⟨-, detail, herror⟩ | ⟨-, -, detail, herror⟩
    · rw [hok] at h
      exact Except.ok.inj h ▸ ha'
    · rw [herror] at h
      cases h
    · rw [herror] at h
      cases h
  · intro h
    have hspells := isTextOf_iff.mp h
    rw [ofHex, Hex.decode_eq_ok.mpr hspells]
    dsimp only
    rw [Octets.ofBytes?, dif_pos a.length_eq]

/-- Capitals that are set by any text in place of the hash are letters of the digits. -/
theorem toLower_zipWith {ds : List Char} (hds : ∀ c ∈ ds, c.toLower = c ∧ c.toUpper.toLower = c)
    {hash : List Char} (hlength : ds.length ≤ hash.length) :
    (List.zipWith (fun c h => if '8' ≤ h then c.toUpper else c) ds hash).map Char.toLower = ds := by
  induction ds generalizing hash with
  | nil => rfl
  | cons c ds ih =>
    obtain ⟨⟨hsmall, hlarge⟩, hds⟩ := List.forall_mem_cons.mp hds
    cases hash with
    | nil => simp at hlength
    | cons h hash =>
      rw [List.zipWith_cons_cons, List.map_cons, ih hds (by simpa using hlength)]
      split
      next => rw [hlarge]
      next => rw [hsmall]

/-- The capitals of an address are capitals of its digits. -/
theorem toLower_capitals (a : Address) :
    (capitals (Hex.digits a.bytes)).map Char.toLower = Hex.digits a.bytes := by
  refine toLower_zipWith (fun c => Hex.toLower_of_mem_digits) ?_
  rw [Hex.length_digits, Hex.length_digits, a.length_eq, Keccak256.length_hash]
  decide

theorem toLower_toChecksum (a : Address) :
    a.toChecksum.toList.map Char.toLower = a.toHex.toList := by
  simp only [toChecksum, toHex, Hex.encodeMarked, String.toList_ofList, List.map_cons,
    toLower_capitals]
  rfl

/-- A text, and what is left of it without its first two characters. -/
def withAndWithoutMark (t : String) : List String :=
  [t, String.ofList (t.toList.drop 2)]

/-- What is written for an address are texts of it, also without their marks. -/
theorem isTextOf_written (a : Address) :
    ∀ t ∈ withAndWithoutMark a.toHex ++ withAndWithoutMark a.toChecksum, IsTextOf t a := by
  have hsmall := Hex.spells_iff.mp (Hex.spells_digits a.bytes)
  have hlarge := toLower_capitals a
  simp only [withAndWithoutMark, List.mem_append, List.mem_cons, List.not_mem_nil, or_false]
  rintro t ((rfl | rfl) | rfl | rfl)
  · exact ⟨_, hsmall, .inr (String.toList_ofList)⟩
  · exact ⟨_, hsmall,
      .inl (by rw [toHex, Hex.encodeMarked, String.toList_ofList, String.toList_ofList]; rfl)⟩
  · exact ⟨_, hlarge, .inr (String.toList_ofList)⟩
  · exact ⟨_, hlarge, .inl (by rw [toChecksum, String.toList_ofList, String.toList_ofList]; rfl)⟩

end Address

/-! ### Reported addresses -/

namespace EthereumApp

open Address (IsTextOf)

/-- A key whose address is reported is taken if it is its own address. -/
theorem parse_of_reported {b key octets : Bytes} (hb : Bytes.Fields 0 key octets b)
    {reported derived : Address} (hreported : IsTextOf (Utf8.decodeLossy octets) reported)
    (hderived : Address.ofPublicKey key = .ok derived) :
    Key.parse b =
      if reported = derived then .ok ⟨key, derived⟩
      else
        .error (.malformedResponse ("device reported " ++ reported.toChecksum ++
          " for a key that derives " ++ derived.toChecksum)) := by
  have hsplit := (readsFields_splitReply.ok_iff b (key, octets)).mpr ⟨key, octets, hb, rfl⟩
  rw [Key.parse, hsplit]
  change (Address.ofHex (Utf8.decodeLossy octets) >>= fun reported =>
    Address.ofPublicKey key >>= _) = _
  rw [Address.ofHex_eq_ok.mpr hreported, hderived]
  rfl

theorem parse_eq_ok {b key octets : Bytes} (hb : Bytes.Fields 0 key octets b) {k : Key} :
    Key.parse b = .ok k ↔ k.uncompressed = key ∧ IsTextOf (Utf8.decodeLossy octets) k.address ∧
      Address.ofPublicKey key = .ok k.address := by
  constructor
  · intro h
    obtain ⟨⟨key', octets'⟩, hsplit, hrest⟩ := exists_of_bind_ok h
    obtain ⟨x, y, hfields, hparts⟩ := (readsFields_splitReply.ok_iff b _).mp hsplit
    obtain ⟨rfl, rfl⟩ := hb.unique hfields
    obtain ⟨rfl, rfl⟩ := Prod.mk.inj hparts
    obtain ⟨reported, hreported, hrest⟩ := exists_of_bind_ok hrest
    obtain ⟨derived, hderived, hrest⟩ := exists_of_bind_ok hrest
    have hreported := Address.ofHex_eq_ok.mp hreported
    rw [parse_of_reported hb hreported hderived] at h
    split at h
    next heq =>
      obtain rfl := Except.ok.inj h
      exact ⟨rfl, heq ▸ hreported, hderived⟩
    next => cases h
  · rintro ⟨rfl, hreported, hderived⟩
    rw [parse_of_reported hb hreported hderived, if_pos rfl]

/-- The first answer of a device decides on the key. -/
theorem getAddress_on {link : Link} {b : Bytes} {rest : List Reply}
    (hreply : link.replies = Exchange.success b :: rest) (path : DerivationPath) :
    ((getAddress path).on link).1 = Key.parse b := by
  rw [getAddress, Exchange.on_ask, hreply, Reply.read_success]

end EthereumApp

namespace Address

open Hex (IsHex)
open Curve (generator)

theorem eq_iff_bytes {a b : Address} : a = b ↔ a.bytes = b.bytes := by
  rw [Octets.mk.injEq]

/-- An address is read from what is written for it, and from any of its texts: in letters of either
case, with or without the mark. Its form with a checksum is the small one but for the case of
letters. A text is read if and only if it is forty digits, apart from one mark; it is no hexadecimal
text if it is not digits in pairs, and none of an address if it is another number of them. So a
device that reports a text gives its key if and only if the text is one of the address that the key
has, and an address of other octets is told apart in the error. -/
theorem addresses_back_from_texts :
    (∀ a : Address,
      (∀ t ∈ withAndWithoutMark a.toHex ++ withAndWithoutMark a.toChecksum, ofHex t = .ok a) ∧
      (∀ cs, cs.map Char.toLower = Hex.digits a.bytes →
        ofHex (String.ofList cs) = .ok a ∧ ofHex (String.ofList ('0' :: 'x' :: cs)) = .ok a) ∧
      a.toChecksum.toList.map Char.toLower = a.toHex.toList) ∧
    (∀ t,
      (∀ a, ofHex t = .ok a ↔ IsTextOf t a) ∧
      ((∃ a, ofHex t = .ok a) ↔ IsHex (Hex.unmarked t) ∧ (Hex.unmarked t).length = 40) ∧
      ((∃ detail, ofHex t = .error (.hexDecodeFailed detail)) ↔ ¬IsHex (Hex.unmarked t)) ∧
      ((∃ detail, ofHex t = .error (.addressDerivationFailed detail)) ↔
        IsHex (Hex.unmarked t) ∧ (Hex.unmarked t).length ≠ 40)) ∧
    ∀ path link b rest key text, link.replies = Exchange.success b :: rest →
      Bytes.Fields 0 key (Utf8.encode text) b →
      (∀ k, ((EthereumApp.getAddress path).on link).1 = .ok k ↔
        k.uncompressed = key ∧ IsTextOf text k.address ∧ ofPublicKey key = .ok k.address) ∧
      ∀ reported derived, IsTextOf text reported → ofPublicKey key = .ok derived →
        ((EthereumApp.getAddress path).on link).1 =
          if reported.bytes = derived.bytes then .ok ⟨key, derived⟩
          else
            .error (.malformedResponse ("device reported " ++ reported.toChecksum ++
              " for a key that derives " ++ derived.toChecksum)) := by
  refine ⟨fun a => ⟨fun t ht => ofHex_eq_ok.mpr (isTextOf_written a t ht), fun cs hcs => ?_,
    toLower_toChecksum a⟩, fun t => ⟨fun a => ofHex_eq_ok, ?_⟩, ?_⟩
  · exact ⟨ofHex_eq_ok.mpr ⟨cs, hcs, .inl String.toList_ofList⟩,
      ofHex_eq_ok.mpr ⟨cs, hcs, .inr String.toList_ofList⟩⟩
  · rcases ofHex_cases t with
      ⟨a, -, hhex, hforty, h⟩ | ⟨hhex, detail, h⟩ | ⟨hhex, hforty, detail, h⟩
    · simp [h, hhex, hforty]
    · simp [h, hhex]
    · simp [h, hhex, hforty]
  · intro path link b rest key text hreply hb
    rw [EthereumApp.getAddress_on hreply]
    refine ⟨fun k => ?_, fun reported derived hreported hderived => ?_⟩
    · have hparse := EthereumApp.parse_eq_ok hb (k := k)
      rwa [Utf8.decodeLossy_encode] at hparse
    · rw [← Utf8.decodeLossy_encode text] at hreported
      simp only [EthereumApp.parse_of_reported hb hreported hderived, eq_iff_bytes]

/-- The reply that gives the generator as a key and reports some text as its address. -/
def reportOf (text : String) : Bytes :=
  65 :: generator.uncompressed ++ (UInt8.ofNat (Utf8.encode text).length :: Utf8.encode text ++ [])

theorem fields_reportOf {text : String} (h : (Utf8.encode text).length < 256) :
    Bytes.Fields 0 generator.uncompressed (Utf8.encode text) (reportOf text) :=
  .mk [] rfl (by decide +kernel) (Utf8.toNat_octet h).symm

/-- The address of the generator is reported with its checksum and its key is taken; it is not taken
with the address of nobody. A mark in capitals is no digit, and forty-two digits are no address. -/
theorem checksummed_generator_taken :
    let link (text : String) : Link := .fresh [Exchange.success (reportOf text)] none
    let path := DerivationPath.first DerivationPath.ethereumCoin
    let text := "0x7E5F4552091A69125d5DfCb7b8C2659029395Bdf"
    Session.generatorAddress.toChecksum = text ∧
      ((EthereumApp.getAddress path).on (link text)).1 =
        .ok ⟨generator.uncompressed, Session.generatorAddress⟩ ∧
      ((EthereumApp.getAddress path).on (link zero.toHex)).1 =
        .error (.malformedResponse ("device reported " ++ zero.toChecksum ++
          " for a key that derives " ++ text)) ∧
      (∃ detail, ofHex "0X7E5F" = .error (.hexDecodeFailed detail)) ∧
      ∃ detail, ofHex "0x7E5F" = .error (.addressDerivationFailed detail) := by
  intro link path text
  obtain ⟨hwritten, hread, hreported⟩ := addresses_back_from_texts
  have hchecksum : Session.generatorAddress.toChecksum = text := by decide +kernel
  have hderived : ofPublicKey generator.uncompressed = .ok Session.generatorAddress := by
    decide +kernel
  have htexts (a : Address) := fun t ht => ofHex_eq_ok.mp ((hwritten a).1 t ht)
  have hown : IsTextOf text Session.generatorAddress :=
    htexts _ text (by rw [hchecksum]; simp [withAndWithoutMark])
  have hnobody : IsTextOf zero.toHex zero := htexts _ _ (by simp [withAndWithoutMark])
  have hother : ¬zero.bytes = Session.generatorAddress.bytes := by decide +kernel
  have htaken := (hreported path (link text) _ [] _ text rfl
    (fields_reportOf (by decide +kernel))).2 _ _ hown hderived
  have hrefused := (hreported path (link zero.toHex) _ [] _ zero.toHex rfl
    (fields_reportOf (by decide +kernel))).2 _ _ hnobody hderived
  rw [if_pos rfl] at htaken
  rw [if_neg hother, hchecksum] at hrefused
  refine ⟨hchecksum, htaken, hrefused, (hread _).2.2.1.mpr fun hhex => ?_, (hread _).2.2.2.mpr ?_⟩
  · have hmark : Hex.unmarked "0X7E5F" = ['0', 'X', '7', 'E', '5', 'F'] := by decide +kernel
    obtain ⟨b, hb⟩ := Hex.exists_spells_iff.mpr hhex
    rw [hmark] at hb
    exact Hex.not_spells_mark hb
  · have hspells : Hex.Spells (Hex.unmarked "0x7E5F") [0x7E, 0x5F] :=
      Hex.spells_iff.mpr (by decide +kernel)
    exact ⟨Hex.exists_spells_iff.mp ⟨_, hspells⟩, by decide +kernel⟩

end Address

end Countersign
