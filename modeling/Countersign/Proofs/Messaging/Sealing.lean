import Countersign.Proofs.Messaging.Delivery

/-!
# What an envelope holds

An envelope holds the sender's point in its long form, the nonce that was drawn behind the secret,
the masked text and its tag. Its owner gets the text back. Anything else is judged part by part in
that order: by its length, which asks for no key, then by its point, then by its tag.
-/
namespace Countersign.Messaging

open Curve (Scalar Point)

/-- The tag that the owner of a secret expects at the end of an envelope from a point. -/
def expectedTag (owner : Scalar) (sender : Point) (envelope : Bytes) : Bytes :=
  Gcm.tag (Aes256.roundKeys (envelopeKey owner sender (envelope.take 65)))
    ((envelope.drop 65).take 12) ((envelope.drop 77).take (envelope.length - overhead))

/-- The text that the owner of a secret reads in an envelope from a point. -/
def unmasked (owner : Scalar) (sender : Point) (envelope : Bytes) : Bytes :=
  Gcm.mask (Aes256.roundKeys (envelopeKey owner sender (envelope.take 65)))
    ((envelope.drop 65).take 12) ((envelope.drop 77).take (envelope.length - overhead))

theorem sealTo_drawn {e e' : Entropy} {secret : Scalar} (h : e.scalar? = some (secret, e'))
    (recipient : Point) (text : Bytes) :
    sealTo? e recipient text =
      some (sealWith secret (e'.draw 12).1 recipient text, (e'.draw 12).2) := by
  rw [sealTo?, h]
  rfl

section Unsealing

variable (owner : Scalar) {envelope : Bytes}

theorem unseal_short (h : envelope.length < overhead) :
    unsealWith owner envelope =
      .error (.encryption ("ciphertext has " ++ Digits.decimal envelope.length
      ++ " bytes, expected at least " ++ Digits.decimal overhead)) := by
  rw [unsealWith, if_pos h]

theorem unseal_pointless (hlen : overhead ≤ envelope.length)
    (h : ¬∃ q : Point, q.IsLongForm (envelope.take 65)) :
    unsealWith owner envelope =
      .error (.invalidPublicKey "ephemeral key is not a secp256k1 point") := by
  have hsender : (envelope.take 65).length = 65 :=
    List.length_take_of_le (Nat.le_trans (by decide) hlen)
  have hnone : Point.decode? (envelope.take 65) = none := by
    refine Option.eq_none_iff_forall_not_mem.mpr fun q hq => h ⟨q, ?_⟩
    exact (Point.decode_iff_isLongForm hsender).mp hq
  simp only [unsealWith, if_neg (Nat.not_lt.mpr hlen), hnone]

/-- Behind a point the tag decides. -/
theorem unseal_point (hlen : overhead ≤ envelope.length) {q : Point}
    (h : q.IsLongForm (envelope.take 65)) :
    unsealWith owner envelope =
      if envelope.drop (envelope.length - 16) = expectedTag owner q envelope then
        .ok (unmasked owner q envelope)
      else .error (.encryption "ciphertext failed authentication") := by
  have hsender : (envelope.take 65).length = 65 :=
    List.length_take_of_le (Nat.le_trans (by decide) hlen)
  have hq : Point.decode? (envelope.take 65) = some q := (Point.decode_iff_isLongForm hsender).mpr h
  have hmasked : (envelope.drop 77).length - 16 = envelope.length - overhead := by
    rw [List.length_drop, Nat.sub_sub]
    rfl
  have hmark : (envelope.drop 77).drop (envelope.length - overhead) =
      envelope.drop (envelope.length - 16) := by
    rw [List.drop_drop]
    congr 1
    simp only [overhead] at hlen ⊢
    omega
  by_cases htag : envelope.drop (envelope.length - 16) = expectedTag owner q envelope
  · have hopened :
        Gcm.decrypt? (envelopeKey owner q (envelope.take 65)) ((envelope.drop 65).take 12)
        (envelope.drop 77) = some (unmasked owner q envelope) := by
      simp only [Gcm.decrypt?, hmasked, hmark]
      exact if_pos htag
    simp only [unsealWith, if_neg (Nat.not_lt.mpr hlen), hq, hopened, if_pos htag]
  · have hrefused :
        Gcm.decrypt? (envelopeKey owner q (envelope.take 65)) ((envelope.drop 65).take 12)
        (envelope.drop 77) = none := by
      simp only [Gcm.decrypt?, hmasked, hmark]
      exact if_neg htag
    simp only [unsealWith, if_neg (Nat.not_lt.mpr hlen), hq, hrefused, if_neg htag]

end Unsealing

/-- The owner of a secret gets back each text that is sealed to its point, from an envelope with
ninety-three octets more that begins with the drawn point and the drawn nonce. Octets that are too
few, have no point in front or do not end with the expected tag are refused, each with an error of
its own. -/
theorem envelopes_opened_or_refused (owner : Scalar) :
    (∀ (e e' : Entropy) (secret : Scalar) (text : Bytes), e.scalar? = some (secret, e') →
      ∃ envelope, sealTo? e owner.point text = some (envelope, (e'.draw 12).2) ∧
        unsealWith owner envelope = .ok text ∧ envelope.length = text.length + 93 ∧
        envelope.take 65 = secret.point.uncompressed ∧ secret.point.IsLongForm (envelope.take 65) ∧
        (envelope.drop 65).take 12 = (e'.draw 12).1 ∧ (e'.draw 12).1.length = 12) ∧
    ∀ data : Bytes,
      (data.length < 93 →
        unsealWith owner data = .error (.encryption
          ("ciphertext has " ++ Digits.decimal data.length ++ " bytes, expected at least 93"))) ∧
      (93 ≤ data.length → (¬∃ q : Point, q.IsLongForm (data.take 65)) →
        unsealWith owner data =
          .error (.invalidPublicKey "ephemeral key is not a secp256k1 point")) ∧
      ∀ q : Point, 93 ≤ data.length → q.IsLongForm (data.take 65) →
        (data.drop (data.length - 16) ≠ expectedTag owner q data →
          unsealWith owner data = .error (.encryption "ciphertext failed authentication")) ∧
        (data.drop (data.length - 16) = expectedTag owner q data →
          unsealWith owner data = .ok (unmasked owner q data)) := by
  have hleast :
      " bytes, expected at least " ++ Digits.decimal overhead = " bytes, expected at least 93" := by
    decide
  refine ⟨fun e e' secret text hdrawn => ?_, fun data => ⟨fun hshort => ?_, unseal_pointless owner,
    fun q hlen hq => ⟨fun htag => ?_, fun htag => ?_⟩⟩⟩
  · have hnonce : (e'.draw 12).1.length = 12 := Entropy.length_draw 12 e'
    refine ⟨_, sealTo_drawn hdrawn owner.point text, unseal_seal secret owner hnonce text,
      length_sealWith secret owner.point hnonce text, sender_sealWith secret owner.point text, ?_,
      nonce_sealWith secret owner.point hnonce text, hnonce⟩
    rw [sender_sealWith, ← Point.decode_iff_isLongForm secret.length_uncompressed]
    exact secret.decode_uncompressed
  · rw [unseal_short owner hshort, String.append_assoc, hleast]
  · rw [unseal_point owner hlen hq, if_neg htag]
  · rw [unseal_point owner hlen hq, if_pos htag]

/-- A text is sealed and read; ninety-two octets, octets without a point and a tag of zeros are
refused. -/
theorem sealed_text_read_and_spoilt_refused :
    let untagged := Curve.generator.uncompressed ++ List.replicate 28 0
    (∃ envelope random, sealTo? oneDrawn firstKey.point [0x67, 0x6d] = some (envelope, random) ∧
      unsealWith firstKey envelope = .ok [0x67, 0x6d] ∧ envelope.length = 95) ∧
    unsealWith firstKey (List.replicate 92 0x04) =
      .error (.encryption "ciphertext has 92 bytes, expected at least 93") ∧
    unsealWith firstKey (List.replicate 93 0x04) =
      .error (.invalidPublicKey "ephemeral key is not a secp256k1 point") ∧
    unsealWith firstKey untagged = .error (.encryption "ciphertext failed authentication") := by
  intro untagged
  obtain ⟨hopened, hrefused⟩ := envelopes_opened_or_refused firstKey
  have hdrawn : oneDrawn.scalar? = some (one, ⟨[], oneDrawn.all⟩) := rfl
  have hpointless : ¬∃ q : Point, q.IsLongForm ((List.replicate 93 0x04).take 65) := by
    rintro ⟨q, hq⟩
    have hnone : Point.decode? ((List.replicate 93 0x04).take 65) = none := by decide +kernel
    rw [(Point.decode_iff_isLongForm (by decide)).mpr hq] at hnone
    cases hnone
  have hsender : untagged.take 65 = Curve.generator.uncompressed := by decide +kernel
  have hpoint : Curve.generator.IsLongForm (untagged.take 65) := by
    rw [hsender, ← one_point, ← Point.decode_iff_isLongForm one.length_uncompressed]
    exact one.decode_uncompressed
  have hkey : envelopeKey firstKey Curve.generator (untagged.take 65) =
      Bytes.ofNat 32 0xd63625f6058c9778bec33eca42ee60cdfc45ec2bf18b60b7ae0745a1ca1eb5df := by
    rw [hsender, ← one_point, envelopeKey_comm, envelopeKey_first]
  have htag :
      untagged.drop (untagged.length - 16) ≠ expectedTag firstKey Curve.generator untagged := by
    rw [expectedTag, hkey]
    decide +kernel
  obtain ⟨envelope, hsealed, hread, hlen, -⟩ := hopened oneDrawn _ one [0x67, 0x6d] hdrawn
  refine ⟨⟨envelope, _, hsealed, hread, hlen⟩, ?_, ?_, ?_⟩
  · rw [(hrefused (List.replicate 92 0x04)).1 (by decide)]
    decide
  · exact (hrefused (List.replicate 93 0x04)).2.1 (by decide) hpointless
  · exact ((hrefused untagged).2.2 Curve.generator (by decide +kernel) hpoint).1 htag

end Countersign.Messaging
