import Countersign.Messaging.Envelope
import Countersign.Proofs.Cipher.Gcm
import Countersign.Proofs.Curve.Encoding
import Countersign.Proofs.Curve.Generator
import Countersign.Proofs.Hash

/-!
# Opening envelopes

The owner of a secret opens what was sealed to its point, whatever the sender has drawn.
-/
namespace Countersign

theorem Entropy.length_draw (n : Nat) (e : Entropy) : (e.draw n).1.length = n := by
  fun_induction Entropy.draw n e <;> simp_all

namespace Curve.Scalar

theorem decode_uncompressed (d : Scalar) : Point.decode? d.point.uncompressed = some d.point := by
  obtain ⟨x, y, hp, hx, hy, h⟩ := d.exists_point
  rw [hp, Point.decode_uncompressed hx hy h]

theorem decode_compressed (d : Scalar) : Point.decode? d.point.compressed = some d.point := by
  obtain ⟨x, y, hp, hx, hy, h⟩ := d.exists_point
  rw [hp, Point.decode_compressed hx hy h]

theorem length_uncompressed (d : Scalar) : d.point.uncompressed.length = 65 := by
  obtain ⟨x, y, hp, -⟩ := d.exists_point
  rw [hp, Point.length_uncompressed]

end Curve.Scalar

namespace Messaging

theorem length_envelopeKey (d : Curve.Scalar) (q : Curve.Point) (salt : Bytes) :
    (envelopeKey d q salt).length = 32 :=
  Sha256.length_hkdf _ _ _

/-- Sender and owner derive the same key. -/
theorem envelopeKey_comm (d e : Curve.Scalar) (salt : Bytes) :
    envelopeKey d e.point salt = envelopeKey e d.point salt := by
  rw [envelopeKey, envelopeKey, Curve.Scalar.shared_comm]

/-! ### The layout of an envelope -/

section Layout

variable (secret : Curve.Scalar) (recipient : Curve.Point) {nonce : Bytes}
  (hnonce : nonce.length = 12) (text : Bytes)

include hnonce

theorem length_sealWith :
    (sealWith secret nonce recipient text).length = text.length + overhead := by
  simp only [sealWith, List.length_append, secret.length_uncompressed, hnonce, overhead,
    Gcm.length_encrypt (length_envelopeKey _ _ _) hnonce]
  omega

omit hnonce in
theorem sender_sealWith :
    (sealWith secret nonce recipient text).take 65 = secret.point.uncompressed := by
  rw [sealWith, List.append_assoc, List.take_left' secret.length_uncompressed]

theorem nonce_sealWith : ((sealWith secret nonce recipient text).drop 65).take 12 = nonce := by
  rw [sealWith, List.append_assoc, List.drop_left' secret.length_uncompressed,
    List.take_left' hnonce]

theorem masked_sealWith : (sealWith secret nonce recipient text).drop 77 =
    Gcm.encrypt (envelopeKey secret recipient secret.point.uncompressed) nonce text :=
  List.drop_left' (by rw [List.length_append, secret.length_uncompressed, hnonce])

end Layout

/-- The owner of any secret takes an envelope apart as it was put together. -/
theorem unseal_sealWith (secret owner : Curve.Scalar) (recipient : Curve.Point) {nonce : Bytes}
    (hnonce : nonce.length = 12) (text : Bytes) :
    unsealWith owner (sealWith secret nonce recipient text) =
      (Gcm.decrypt? (envelopeKey owner secret.point secret.point.uncompressed) nonce
        (Gcm.encrypt (envelopeKey secret recipient secret.point.uncompressed) nonce text)).elim
          (.error (.encryption "ciphertext failed authentication")) .ok := by
  have hlen : ¬(sealWith secret nonce recipient text).length < overhead := by
    rw [length_sealWith secret recipient hnonce]
    omega
  simp only [unsealWith, if_neg hlen, sender_sealWith, nonce_sealWith secret recipient hnonce,
    masked_sealWith secret recipient hnonce, secret.decode_uncompressed]
  generalize Gcm.decrypt? (envelopeKey owner secret.point secret.point.uncompressed) nonce _ =
    opened
  cases opened <;> rfl

theorem unseal_seal (secret owner : Curve.Scalar) {nonce : Bytes} (hnonce : nonce.length = 12)
    (text : Bytes) : unsealWith owner (sealWith secret nonce owner.point text) = .ok text := by
  have hkey := length_envelopeKey secret owner.point secret.point.uncompressed
  rw [unseal_sealWith secret owner owner.point hnonce, envelopeKey_comm owner,
    Gcm.decrypt_encrypt hkey hnonce, Option.elim_some]

/-- What is sealed to the owner of a secret is opened by the owner. -/
theorem unseal_sealTo {e e' : Entropy} {owner : Curve.Scalar} {text envelope : Bytes}
    (h : sealTo? e owner.point text = some (envelope, e')) :
    unsealWith owner envelope = .ok text := by
  unfold sealTo? at h
  cases hs : e.scalar? with
  | none =>
    rw [hs] at h
    cases h
  | some drawn =>
    rw [hs] at h
    obtain ⟨rfl, -⟩ := Prod.mk.inj (Option.some.inj h)
    exact unseal_seal drawn.1 owner (Entropy.length_draw 12 drawn.2) text

end Messaging

end Countersign
