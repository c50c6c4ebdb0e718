import Countersign.Messaging.Service
import Countersign.Proofs.Lookup
import Countersign.Proofs.Messaging.Envelope
import Countersign.Proofs.Text.Base64

/-!
# Keys that a service keeps

A service that has derived its key for a chain keeps it, and a service that knows the key of an
address asks nobody for it again, on whatever chain.
-/
namespace Countersign.Messaging.Service

/-! ### Keys of this wallet -/

/-- All that a request for the key of a chain can do. -/
theorem privateKey_cases (s : Service) (caller : Caller) (chain : String) :
    (∃ d, s.privateKeys.lookup chain = some d ∧ s.privateKey caller chain = (.ok d, s)) ∨
    s.privateKeys.lookup chain = none ∧ ∃ q,
      (∃ e, s.privateKey caller chain = (.error e, s.ask q)) ∨
      ∃ d, s.privateKey caller chain =
        (.ok d, { s.ask q with privateKeys := (chain, d) :: s.privateKeys }) := by
  cases hknown : s.privateKeys.lookup chain with
  | some d => exact .inl ⟨d, rfl, by simp [privateKey, hknown]⟩
  | none =>
    refine .inr ⟨rfl, .signature caller chain (signDocBytes chain s.memo), ?_⟩
    simp only [privateKey, hknown]
    cases s.keyring s.asked.length caller chain (signDocBytes chain s.memo) with
    | error e => exact .inl ⟨e, rfl⟩
    | ok signature =>
      dsimp only
      cases derivedKey signature with
      | error e => exact .inl ⟨e, rfl⟩
      | ok d => exact .inr ⟨d, rfl⟩

theorem privateKey_known {s : Service} {chain : String} {d : Curve.Scalar}
    (h : s.privateKeys.lookup chain = some d) (caller : Caller) :
    s.privateKey caller chain = (.ok d, s) := by
  simp [privateKey, h]

theorem privateKey_derived {s : Service} {caller : Caller} {chain : String} (signature : Bytes)
    {d : Curve.Scalar} (hnone : s.privateKeys.lookup chain = none)
    (hsignature : s.keyring s.asked.length caller chain (signDocBytes chain s.memo) = .ok signature)
    (hd : derivedKey signature = .ok d) :
    s.privateKey caller chain = (.ok d,
      { s.ask (.signature caller chain (signDocBytes chain s.memo)) with
        privateKeys := (chain, d) :: s.privateKeys }) := by
  simp only [privateKey, hnone, hsignature, hd]
  rfl

/-- A key that was derived is kept. -/
theorem lookup_privateKey {s : Service} {caller : Caller} {chain : String} {d : Curve.Scalar}
    (h : (s.privateKey caller chain).1 = .ok d) :
    (s.privateKey caller chain).2.privateKeys.lookup chain = some d := by
  rcases s.privateKey_cases caller chain with ⟨e, he, hk⟩ | ⟨-, q, ⟨e, hk⟩ | ⟨e, hk⟩⟩ <;>
    rw [hk] at h ⊢
  · rwa [← Except.ok.inj h]
  · cases h
  · rw [← Except.ok.inj h]
    exact List.lookup_cons_self

/-- A request for a key leaves the keys that there are. -/
theorem privateKey_keeps {s : Service} {chain : String} {d : Curve.Scalar}
    (h : s.privateKeys.lookup chain = some d) (caller : Caller) (other : String) :
    (s.privateKey caller other).2.privateKeys.lookup chain = some d := by
  rcases s.privateKey_cases caller other with ⟨e, -, hk⟩ | ⟨hnone, q, ⟨e, hk⟩ | ⟨e, hk⟩⟩ <;>
    rw [hk]
  · exact h
  · exact h
  · have hne : (chain == other) = false := by
      rw [beq_eq_false_iff_ne]
      rintro rfl
      rw [h] at hnone
      cases hnone
    simpa only [List.lookup_cons, hne] using h

theorem publicKey_of_privateKey {s s' : Service} {caller : Caller} {chain : String}
    {d : Curve.Scalar} (h : s.privateKey caller chain = (.ok d, s')) :
    s.publicKey caller chain = (.ok (Base64.encode d.point.compressed), s') := by
  simp only [publicKey, h]

/-- The public key that is given out is that of a key that is kept. -/
theorem publicKey_ok {s : Service} {caller : Caller} {chain text : String}
    (h : (s.publicKey caller chain).1 = .ok text) :
    ∃ d, (s.publicKey caller chain).2.privateKeys.lookup chain = some d ∧
      text = Base64.encode d.point.compressed := by
  have hkept (d : Curve.Scalar) (hd : (s.privateKey caller chain).1 = .ok d) :=
    lookup_privateKey hd
  unfold publicKey at h ⊢
  rcases hk : s.privateKey caller chain with ⟨e | d, s'⟩ <;> rw [hk] at hkept <;>
    simp only [hk] at h ⊢
  · cases h
  · exact ⟨d, hkept d rfl, (Except.ok.inj h).symm⟩

theorem publicKey_keeps {s : Service} {chain : String} {d : Curve.Scalar}
    (h : s.privateKeys.lookup chain = some d) (caller : Caller) (other : String) :
    (s.publicKey caller other).2.privateKeys.lookup chain = some d := by
  have hkept := privateKey_keeps h caller other
  unfold publicKey
  rcases hk : s.privateKey caller other with ⟨e | d, s'⟩ <;> rw [hk] at hkept <;> exact hkept

/-! ### Keys of others -/

theorem octetsOf_encode (b : Bytes) : octetsOf (Base64.encode b) = .ok b := by
  simp [octetsOf, Base64.decode_encode]

/-- The text of a public key is read as its point. -/
theorem keyOf_compressed (d : Curve.Scalar) :
    keyOf (Base64.encode d.point.compressed) = .ok d.point := by
  simp only [keyOf, octetsOf_encode, bind, Except.bind, parsePublicKey, d.decode_compressed]

theorem lookup_keep (s : Service) (address other : String) (q : Curve.Point) :
    (s.keep address q).publicKeys.lookup other =
      if other = address then some q else s.publicKeys.lookup other :=
  lookup_replace s.publicKeys address other q

/-- All that a look-up can do if there is a directory. -/
theorem lookup_cases {s : Service} {directory : Directory}
    (hdirectory : s.directory = some directory) (chain address : String) :
    (∃ q, s.publicKeys.lookup address = some q ∧ s.lookup chain address = (.ok q, s)) ∨
    s.publicKeys.lookup address = none ∧
      ((∃ e, s.lookup chain address = (.error e, s.ask (.key chain address))) ∨
      ∃ text q, directory s.asked.length chain address = .ok text ∧ keyOf text = .ok q ∧
        s.lookup chain address = (.ok q, (s.ask (.key chain address)).keep address q)) := by
  cases hknown : s.publicKeys.lookup address with
  | some q => exact .inl ⟨q, rfl, by simp [lookup, beginLookup, hknown]⟩
  | none =>
    refine .inr ⟨rfl, ?_⟩
    simp only [lookup, beginLookup, hknown, hdirectory]
    cases hanswer : directory s.asked.length chain address with
    | error e => exact .inl ⟨e, rfl⟩
    | ok text =>
      simp only [finishLookup]
      cases hkey : keyOf text with
      | error e => exact .inl ⟨e, rfl⟩
      | ok q => exact .inr ⟨text, q, rfl, hkey, rfl⟩

theorem lookup_of_answer {s : Service} {directory : Directory}
    (hdirectory : s.directory = some directory) {chain address text : String} {q : Curve.Point}
    (hnone : s.publicKeys.lookup address = none)
    (hanswer : directory s.asked.length chain address = .ok text) (hkey : keyOf text = .ok q) :
    s.lookup chain address = (.ok q, (s.ask (.key chain address)).keep address q) := by
  simp only [lookup, beginLookup, hnone, hdirectory, hanswer, finishLookup, hkey]

/-! ### Messages -/

/-- Encryption looks up the key of the address, if at all, and leaves what the look-up leaves. -/
theorem encrypt_service (s : Service) (random : Entropy) (chain address text : String) :
    (s.encrypt random chain address text).2.1 = s ∨
      (s.encrypt random chain address text).2.1 = (s.lookup chain address).2 := by
  unfold encrypt
  cases octetsOf text with
  | error e => exact .inl rfl
  | ok b =>
    right
    rcases hl : s.lookup chain address with ⟨e | q, s'⟩
    · rfl
    · dsimp only
      cases sealTo? random q b <;> rfl

theorem encrypt_of_known {s : Service} {address : String} {q : Curve.Point}
    (hq : s.publicKeys.lookup address = some q) {random random' : Entropy} {b sealed : Bytes}
    (hsealed : sealTo? random q b = some (sealed, random')) (chain : String) :
    s.encrypt random chain address (Base64.encode b) =
      (.ok (Base64.encode sealed), s, random') := by
  simp only [encrypt, octetsOf_encode, lookup, beginLookup, hq, hsealed]

/-- What is encrypted is sealed to the key that was looked up. -/
theorem encrypt_ok {s : Service} {random : Entropy} {chain address envelope : String} {b : Bytes}
    (h : (s.encrypt random chain address (Base64.encode b)).1 = .ok envelope) :
    ∃ q sealed random', (s.lookup chain address).1 = .ok q ∧
      sealTo? random q b = some (sealed, random') ∧ envelope = Base64.encode sealed ∧
      (s.encrypt random chain address (Base64.encode b)).2.1 = (s.lookup chain address).2 := by
  simp only [encrypt, octetsOf_encode] at h ⊢
  rcases hl : s.lookup chain address with ⟨e | q, s'⟩ <;> simp only [hl] at h ⊢
  · cases h
  · cases hs : sealTo? random q b with
    | none =>
      rw [hs] at h
      cases h
    | some result =>
      rw [hs] at h
      exact ⟨q, result.1, result.2, rfl, hs, (Except.ok.inj h).symm, rfl⟩

/-- An envelope is opened with the key of the chain. -/
theorem decrypt_of_key {s : Service} {caller : Caller} {chain : String} {d : Curve.Scalar}
    (h : (s.privateKey caller chain).1 = .ok d) (sealed : Bytes) :
    (s.decrypt caller chain (Base64.encode sealed)).1 =
      (unsealWith d sealed).map Base64.encode := by
  simp only [decrypt, octetsOf_encode]
  rcases hk : s.privateKey caller chain with ⟨e | d', s'⟩ <;> rw [hk] at h
  · cases h
  · obtain rfl := Except.ok.inj h
    rfl

end Countersign.Messaging.Service
