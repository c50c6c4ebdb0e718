import Countersign.Proofs.Curve.Encoding
import Countersign.Proofs.Device.Session

/-!
# Keys of the Ethereum app

The app gives a key with its address. Whatever the form of the key is, the address is that of the
point that it writes; but only the keys that carry a tag can be exported in the short form.
-/
namespace Countersign

open Curve

/-- The forms of a key: the encodings of its point, and both coordinates without a tag. -/
inductive KeyForm (x y : Nat) : Bytes → Prop
  | tagged {b : Bytes} (h : Point.Encodes x y b) : KeyForm x y b
  | bare : KeyForm x y (Point.coordinates (.affine x y))

namespace KeyForm

variable {x y : Nat} {b : Bytes}

theorem length_coordinates (x y : Nat) : (Point.coordinates (.affine x y)).length = 64 := by
  simp [Point.coordinates]

/-- A key is bare if it has no octet more than the coordinates. -/
theorem bare_iff (h : KeyForm x y b) : b = Point.coordinates (.affine x y) ↔ b.length = 64 := by
  refine ⟨fun hb => hb ▸ length_coordinates x y, fun hlen => ?_⟩
  cases h with
  | tagged h =>
    rcases h.length with hl | hl <;> rw [hl] at hlen <;> cases hlen
  | bare => rfl

theorem tagged_of_ne (h : KeyForm x y b) (hb : b ≠ Point.coordinates (.affine x y)) :
    Point.Encodes x y b := by
  cases h with
  | tagged h => exact h
  | bare => exact absurd rfl hb

end KeyForm

/-! ### What a key belongs to -/

theorem parsePublicKey_ok {b : Bytes} {p : Point} (h : parsePublicKey b = .ok p) :
    Point.decode? b = some p := by
  unfold parsePublicKey at h
  split at h
  next q hq => rwa [← Except.ok.inj h]
  next => cases h

namespace Address

/-- The address of a point is the end of the hash of its coordinates. -/
theorem bytes_ofPoint (p : Point) :
    (ofPoint p).bytes = (Keccak256.hash p.coordinates).drop 12 :=
  Bytes.ofNat_toNat_self (by rw [List.length_drop, Keccak256.length_hash])

/-- A key with an address has one of the forms of a point, and the address is that of the point. -/
theorem ofPublicKey_ok {b : Bytes} {a : Address} (h : ofPublicKey b = .ok a) :
    ∃ x y, x < prime ∧ y < prime ∧ holds x y = true ∧ KeyForm x y b ∧
      a = ofPoint (.affine x y) := by
  unfold ofPublicKey at h
  cases hp : parsePublicKey (if b.length = 64 then 0x04 :: b else b) with
  | error e =>
    rw [hp] at h
    cases h
  | ok p =>
    rw [hp] at h
    obtain ⟨x, y, rfl, hx, hy, hholds, hform⟩ := Point.encodes_of_decode (parsePublicKey_ok hp)
    refine ⟨x, y, hx, hy, hholds, ?_, (Except.ok.inj h).symm⟩
    split at hform
    next hlen =>
      have hcoordinates : b = Point.coordinates (.affine x y) := by
        generalize hb : (0x04 :: b : Bytes) = tagged at hform
        cases hform with
        | long => exact (List.cons.inj hb).2
        | short | compact =>
          have hlength := congrArg List.length hb
          simp [Point.compressed, hlen] at hlength
      exact hcoordinates ▸ .bare
    next => exact .tagged hform

end Address

/-- The short form of a key that carries a tag. -/
theorem compressPublicKey_tagged {x y : Nat} {b : Bytes} (h : Point.Encodes x y b) (hx : x < prime)
    (hy : y < prime) (hholds : holds x y = true) :
    compressPublicKey b = .ok (Point.compressed (.affine x y)) := by
  simp only [compressPublicKey, parsePublicKey, h.decode hx hy hholds]
  rfl

/-- A bare key is no encoding of a point. -/
theorem compressPublicKey_bare {b : Bytes} (h : b.length = 64) :
    compressPublicKey b = .error (.invalidPublicKey "64 bytes are not a secp256k1 point") := by
  have hnone : Point.decode? b = none := by
    cases hp : Point.decode? b with
    | none => rfl
    | some p =>
      obtain ⟨x, y, -, -, -, -, hform⟩ := Point.encodes_of_decode hp
      rcases hform.length with hl | hl <;> rw [hl] at h <;> cases h
  have htext : Digits.decimal 64 ++ " bytes are not a secp256k1 point" =
      "64 bytes are not a secp256k1 point" := by
    decide
  simp only [compressPublicKey, parsePublicKey, hnone, h, htext]
  rfl

/-! ### What the app gives -/

namespace EthereumApp

theorem splitReply_ok {b key text : Bytes} (h : splitReply b = .ok (key, text)) :
    ∃ more, b = UInt8.ofNat key.length :: key ++ (UInt8.ofNat text.length :: text ++ more) := by
  unfold splitReply at h
  dsimp only at h
  split at h
  next parts hparts =>
    obtain rfl := Except.ok.inj h
    obtain ⟨⟨k, rest⟩, hkey, hparts⟩ := Option.bind_eq_some_iff.mp hparts
    obtain ⟨⟨t, more⟩, htext, hparts⟩ := Option.bind_eq_some_iff.mp hparts
    obtain ⟨rfl, rfl⟩ := Prod.mk.inj (Option.some.inj hparts)
    have hrest : rest = UInt8.ofNat t.length :: (t ++ more) := Bytes.field_some htext
    have hb := Bytes.field_some hkey
    rw [hrest] at hb
    exact ⟨more, hb⟩
  next => cases h

/-- A key that is accepted comes with its own address. -/
theorem parse_ok {b : Bytes} {key : Key} (h : Key.parse b = .ok key) :
    ∃ text more,
      b = UInt8.ofNat key.uncompressed.length :: key.uncompressed ++
        (UInt8.ofNat text.length :: text ++ more) ∧
      Address.ofHex (Utf8.decodeLossy text) = .ok key.address ∧
      Address.ofPublicKey key.uncompressed = .ok key.address := by
  obtain ⟨⟨octets, text⟩, hsplit, hrest⟩ := exists_of_bind_ok h
  obtain ⟨reported, hreported, hrest⟩ := exists_of_bind_ok hrest
  obtain ⟨derived, hderived, hrest⟩ := exists_of_bind_ok hrest
  obtain ⟨more, hb⟩ := splitReply_ok hsplit
  by_cases heq : reported = derived
  · rw [if_pos heq] at hrest
    obtain rfl := Except.ok.inj hrest
    exact ⟨text, more, hb, heq ▸ hreported, hderived⟩
  · rw [if_neg heq] at hrest
    cases hrest

end EthereumApp

namespace Session

/-- A key is exported by giving its short form, if it has one. -/
theorem getPublicKey_of_getAddress {s : Session} {path : DerivationPath} {key : EthereumApp.Key}
    {link : Link} (hs : s.persona = some .ethereum)
    (h : (EthereumApp.getAddress path).on s.link = (.ok key, link)) :
    s.getPublicKey .ethereum path =
      (compressPublicKey key.uncompressed, { s with link := link }) := by
  simp only [getPublicKey, onEthereum, hs, run]
  rw [Exchange.on_bind, wrapped_ok h]
  rfl

/-- Every key that the app gives is a form of a point on the curve, and its address, which the
device has reported, is that of the point. The session exports the point of the key in its short
form, unless the key is bare: a bare key is refused. -/
theorem exported_unless_bare {s : Session} {path : DerivationPath} {key : EthereumApp.Key}
    {link : Link} (hs : s.persona = some .ethereum)
    (h : (EthereumApp.getAddress path).on s.link = (.ok key, link)) :
    ∃ x y text more, x < prime ∧ y < prime ∧ holds x y = true ∧ KeyForm x y key.uncompressed ∧
      s.link.replies = Exchange.success
        (UInt8.ofNat key.uncompressed.length :: key.uncompressed ++
          (UInt8.ofNat text.length :: text ++ more)) :: link.replies ∧
      Address.ofHex (Utf8.decodeLossy text) = .ok key.address ∧
      key.address.bytes =
        (Keccak256.hash (Bytes.ofNat 32 x ++ Bytes.ofNat 32 y)).drop 12 ∧
      s.getPublicKey .ethereum path =
        (if key.uncompressed = Point.coordinates (.affine x y) then
          .error (.invalidPublicKey "64 bytes are not a secp256k1 point")
        else .ok (Point.compressed (.affine x y)), { s with link := link }) := by
  obtain ⟨b, between, hdata, hparse⟩ := Exchange.on_bind_ok h
  obtain ⟨hreplies, -⟩ := Exchange.data_ok hdata
  obtain ⟨hkey, rfl⟩ := Prod.mk.inj hparse
  obtain ⟨text, more, rfl, hreported, hderived⟩ := EthereumApp.parse_ok hkey
  obtain ⟨x, y, hx, hy, hholds, hform, haddress⟩ := Address.ofPublicKey_ok hderived
  refine ⟨x, y, text, more, hx, hy, hholds, hform, hreplies, hreported, ?_, ?_⟩
  · rw [haddress, Address.bytes_ofPoint]
    rfl
  · rw [getPublicKey_of_getAddress hs h]
    split
    next hbare => rw [compressPublicKey_bare (hform.bare_iff.mp hbare)]
    next htagged => rw [compressPublicKey_tagged (hform.tagged_of_ne htagged) hx hy hholds]

/-- A session whose device gives the generator as a key, in some form, with its address. -/
def ofGenerator (key : Bytes) : Session :=
  ⟨some .ethereum, .fresh [Exchange.success (UInt8.ofNat key.length :: key ++
    40 :: Utf8.encode "7e5f4552091a69125d5dfcb7b8c2659029395bdf")] none⟩

/-- The address of the generator. -/
def generatorAddress : Address :=
  .ofNat 20 0x7e5f4552091a69125d5dfcb7b8c2659029395bdf

/-- The key in its long form is accepted and exported. -/
theorem long_generator_exported :
    let s := ofGenerator generator.uncompressed
    let path := DerivationPath.first DerivationPath.ethereumCoin
    s.persona = some .ethereum ∧
      ((EthereumApp.getAddress path).on s.link).1 =
        .ok ⟨generator.uncompressed, generatorAddress⟩ ∧
      ∃ x y, KeyForm x y generator.uncompressed ∧
        (s.getPublicKey .ethereum path).1 = .ok (Point.compressed (.affine x y)) := by
  intro s path
  have haccepted : ((EthereumApp.getAddress path).on s.link).1 =
      .ok ⟨generator.uncompressed, generatorAddress⟩ := by
    decide +kernel
  have hgiven : (EthereumApp.getAddress path).on s.link = (.ok ⟨generator.uncompressed,
      generatorAddress⟩, ((EthereumApp.getAddress path).on s.link).2) := by
    rw [← haccepted]
  obtain ⟨x, y, -, -, -, -, -, hform, -, -, -, hexport⟩ := exported_unless_bare rfl hgiven
  refine ⟨rfl, haccepted, x, y, hform, ?_⟩
  have hne : generator.uncompressed ≠ Point.coordinates (.affine x y) := by
    intro heq
    have hlength := congrArg List.length heq
    rw [KeyForm.length_coordinates] at hlength
    exact absurd hlength (by decide)
  rw [hexport, if_neg hne]

/-- The same key without its tag is accepted just so, but it is not exported. -/
theorem bare_generator_refused :
    let s := ofGenerator generator.coordinates
    let path := DerivationPath.first DerivationPath.ethereumCoin
    ((EthereumApp.getAddress path).on s.link).1 =
        .ok ⟨generator.coordinates, generatorAddress⟩ ∧
      (s.getPublicKey .ethereum path).1 =
        .error (.invalidPublicKey "64 bytes are not a secp256k1 point") := by
  intro s path
  have haccepted : ((EthereumApp.getAddress path).on s.link).1 =
      .ok ⟨generator.coordinates, generatorAddress⟩ := by
    decide +kernel
  have hgiven : (EthereumApp.getAddress path).on s.link = (.ok ⟨generator.coordinates,
      generatorAddress⟩, ((EthereumApp.getAddress path).on s.link).2) := by
    rw [← haccepted]
  refine ⟨haccepted, ?_⟩
  rw [getPublicKey_of_getAddress rfl hgiven]
  exact compressPublicKey_bare (KeyForm.length_coordinates _ _)

end Session

end Countersign
