import Countersign.Proofs.Curve.Signing
import Countersign.Proofs.Messaging.Delivery
import Countersign.Proofs.Messaging.Derivation

/-!
# Signatures of messages

What a service signs verifies under the public key that it gives out for the chain, then and at any
later time, since no operation takes a key of a chain away or replaces it. The other signature with
the same first number, whose second number is high, does not verify.
-/
namespace Countersign.Messaging

open Curve (EcdsaPair)

/-- An operation of a service. The halves of a look-up may stand apart, with others between them. -/
inductive Operation where
  | ownKey (call : Call)
  | otherKey (errand : Errand)
  | register (address key : String)
  | beginLookup (chain address : String)
  | finishLookup (address : String) (answer : Except Error String)

namespace Service

/-! ### Keys that stay -/

theorem privateKeys_beginLookup (s : Service) (chain address : String) :
    (s.beginLookup chain address).2.privateKeys = s.privateKeys := by
  unfold beginLookup
  split
  · rfl
  · split <;> rfl

theorem privateKeys_finishLookup (s : Service) (address : String) (answer : Except Error String) :
    (s.finishLookup address answer).2.privateKeys = s.privateKeys := by
  cases answer with
  | error e => rfl
  | ok text =>
    unfold finishLookup
    dsimp only
    split <;> rfl

theorem privateKeys_lookup (s : Service) (chain address : String) :
    (s.lookup chain address).2.privateKeys = s.privateKeys := by
  have hbegin := s.privateKeys_beginLookup chain address
  unfold lookup
  rcases hl : s.beginLookup chain address with ⟨e | q | answer, s'⟩ <;> rw [hl] at hbegin
  · exact hbegin
  · exact hbegin
  · exact (s'.privateKeys_finishLookup address answer).trans hbegin

theorem privateKeys_register (s : Service) (address key : String) :
    (s.register address key).2.privateKeys = s.privateKeys := by
  unfold register
  split <;> rfl

/-- A call leaves what the request for the key of its chain leaves, or nothing happens. -/
theorem run_service (call : Call) (s : Service) :
    (call.run s).2 = s ∨ (call.run s).2 = (s.privateKey call.caller call.chain).2 := by
  cases hinput : call.input with
  | error e => exact .inl (by rw [call.run_refused hinput])
  | ok b =>
    right
    rcases hkey : s.privateKey call.caller call.chain with ⟨e | d, s'⟩
    · rw [call.run_keyless hinput hkey]
    · rw [call.run_keyed hinput hkey]

end Service

namespace Operation

/-- The service after an operation. -/
def done (s : Service) : Operation → Service
  | .ownKey call => (call.run s).2
  | .otherKey errand => errand.done s
  | .register address key => (s.register address key).2
  | .beginLookup chain address => (s.beginLookup chain address).2
  | .finishLookup address answer => (s.finishLookup address answer).2

/-- The service after operations. -/
def run (s : Service) (operations : List Operation) : Service :=
  operations.foldl done s

@[simp] theorem run_nil (s : Service) : run s [] = s := rfl

@[simp] theorem run_cons (s : Service) (operation : Operation) (operations : List Operation) :
    run s (operation :: operations) = run (operation.done s) operations := rfl

/-- No operation takes the key of a chain away. -/
theorem done_keeps {s : Service} {chain : String} {d : Curve.Scalar}
    (h : s.privateKeys.lookup chain = some d) (operation : Operation) :
    (operation.done s).privateKeys.lookup chain = some d := by
  cases operation with
  | ownKey call =>
    rcases Service.run_service call s with hrun | hrun <;> rw [done, hrun]
    · exact h
    · exact Service.privateKey_keeps h call.caller call.chain
  | otherKey errand =>
    rcases errand.done_cases s with hdone | hdone <;> rw [done, hdone]
    · exact h
    · rwa [Service.privateKeys_lookup]
  | register address key => rwa [done, Service.privateKeys_register]
  | beginLookup chain address => rwa [done, Service.privateKeys_beginLookup]
  | finishLookup address answer => rwa [done, Service.privateKeys_finishLookup]

theorem run_keeps {s : Service} {chain : String} {d : Curve.Scalar}
    (h : s.privateKeys.lookup chain = some d) (operations : List Operation) :
    (run s operations).privateKeys.lookup chain = some d := by
  induction operations generalizing s with
  | nil => exact h
  | cons operation operations ih => exact ih (operation.done_keeps h)

end Operation

/-! ### Signatures -/

namespace Service

variable {s s' : Service} {caller : Caller} {chain signature : String} {p : Bytes}

theorem sign_of_key {d : Curve.Scalar} {c : EcdsaPair}
    (hkey : s.privateKey caller chain = (.ok d, s')) (hc : Curve.sign? d (Sha256.hash p) = some c) :
    s.sign caller chain (Base64.encode p) = (.ok (Base64.encode c.bytes), s') := by
  have hinput : (Call.sign caller chain (Base64.encode p)).input = .ok p := octetsOf_encode p
  have hrun := Call.run_keyed hinput hkey
  rwa [Call.outcome, hc] at hrun

/-- A signature is made with the key that the chain has afterwards. -/
theorem exists_of_sign (h : s.sign caller chain (Base64.encode p) = (.ok signature, s')) :
    ∃ d c, s'.privateKeys.lookup chain = some d ∧ Curve.sign? d (Sha256.hash p) = some c ∧
      signature = Base64.encode c.bytes := by
  have hinput : (Call.sign caller chain (Base64.encode p)).input = .ok p := octetsOf_encode p
  have hrun : (Call.sign caller chain (Base64.encode p)).run s = (.ok signature, s') := h
  rcases hkey : s.privateKey caller chain with ⟨e | d, t⟩
  · rw [Call.run_keyless hinput hkey] at hrun
    cases hrun
  · rw [Call.run_keyed hinput hkey] at hrun
    obtain ⟨hsign, rfl⟩ := Prod.mk.inj hrun
    have hkept := lookup_privateKey (congrArg Prod.fst hkey)
    rw [hkey] at hkept
    simp only [Call.outcome] at hsign
    cases hc : Curve.sign? d (Sha256.hash p) with
    | none =>
      rw [hc] at hsign
      cases hsign
    | some c =>
      rw [hc] at hsign
      exact ⟨d, c, hkept, hc, (Except.ok.inj hsign).symm⟩

end Service

/-- A public key is given out in thirty-three octets. -/
theorem length_compressed (d : Curve.Scalar) : d.point.compressed.length = 33 := by
  obtain ⟨x, y, hpoint, -⟩ := d.exists_point
  simp [hpoint, Curve.Point.compressed]

/-- Signing makes the octets of two numbers in range, the second at most half the order. They verify
under the key that the service gives out for the chain, to whomever and whatever was done in
between, and the octets with the opposite second number do not. -/
theorem signature_verifies {s s' : Service} {caller : Caller} {chain signature : String} {p : Bytes}
    (h : s.sign caller chain (Base64.encode p) = (.ok signature, s')) :
    ∃ (r t : Nat) (key : Bytes),
      Base64.decode? signature = some (Bytes.ofNat 32 r ++ Bytes.ofNat 32 t) ∧
      (1 ≤ r ∧ r < Curve.order) ∧ (1 ≤ t ∧ t ≤ Curve.order / 2) ∧
      (key.length = 33 ∧ (key.head? = some 0x02 ∨ key.head? = some 0x03)) ∧
      (∀ operations asking,
        ((Operation.run s' operations).publicKey asking chain).1 = .ok (Base64.encode key)) ∧
      Curve.verifies key (Sha256.hash p) (Bytes.ofNat 32 r ++ Bytes.ofNat 32 t) = true ∧
      Curve.verifies key (Sha256.hash p) (Bytes.ofNat 32 r ++ Bytes.ofNat 32 (Curve.order - t)) =
        false := by
  obtain ⟨d, c, hkept, hsign, rfl⟩ := Service.exists_of_sign h
  obtain ⟨hrange, hlow, hverify⟩ := Curve.verify_sign hsign
  obtain ⟨hr, hr', hs, hs'⟩ := EcdsaPair.inRange_iff.mp hrange
  have htwin := EcdsaPair.inRange_twin hrange
  have hhigh : c.twin.isLow = false := by rw [EcdsaPair.isLow_twin hrange, hlow, Bool.not_true]
  refine ⟨c.r, c.s, d.point.compressed, Base64.decode_encode _, ⟨hr, hr'⟩,
    ⟨hs, EcdsaPair.isLow_iff.mp hlow⟩, ⟨length_compressed d, ?head⟩, ?exported, ?verified, ?refused⟩
  case head =>
    obtain ⟨x, y, hpoint, -⟩ := d.exists_point
    simp only [hpoint, Curve.Point.compressed]
    split
    · exact .inr rfl
    · exact .inl rfl
  case exported =>
    intro operations asking
    have hkey := Service.privateKey_known (Operation.run_keeps hkept operations) asking
    rw [Service.publicKey_of_privateKey hkey]
  case verified =>
    exact (Curve.verifies_eq d.decode_compressed (EcdsaPair.decode_bytes hrange)).trans hverify
  case refused =>
    exact (Curve.verifies_eq d.decode_compressed (EcdsaPair.decode_bytes htwin)).trans
      (Curve.verify_of_high hhigh _ _)

/-! ### A signature that is lowered -/

/-- The secret number that the key of the first chain of the reader with two keys has for one
letter. -/
def letterNumber : Curve.Scalar :=
  ⟨0x14dbc7053748a2ea3ded8321adf2a8c7ff720b61b706bebed6d3435fda5a7146, by decide, by decide⟩

/-- What that key signs the letter with. -/
def letterPair : EcdsaPair :=
  ⟨0x621389b0f0bf5382e5b0f88845d784b84f2f1147074fad296382cc066b4c871e,
    0x496d6f44a86098d5607f6c95e12f4111e10f742d5f8d97d4d0b134ac37575864⟩

theorem sign_letter : Curve.sign? firstKey (Sha256.hash [0x78]) = some letterPair := by
  have habscissa : (Curve.generator.multiple letterNumber.value).abscissa = letterPair.r :=
    letterNumber.shared_generator (by decide +kernel)
  have hpair : Curve.pairOf firstKey (Sha256.hash [0x78]) letterNumber.value = letterPair.twin := by
    simp only [Curve.pairOf, habscissa]
    decide +kernel
  have hdraws : Bytes.toNat (Sha256.hmac (Curve.Draws.start firstKey (Sha256.hash [0x78])).key
      (Curve.Draws.start firstKey (Sha256.hash [0x78])).value) = letterNumber.value := by
    decide +kernel
  have hsign := Curve.Draws.sign_of_pair hdraws letterNumber.pos letterNumber.lt_order hpair
    (by decide) 63
  rw [Curve.sign?, hsign]
  decide

/-- The reader with two keys signs a letter. The signature verifies under the key that it gives to a
web page after a key was registered and the letter was signed on another chain. -/
theorem letter_verified :
    ∃ signature key,
      twoKeyed.sign .wallet "first" (Base64.encode [0x78]) = (.ok signature, askedOnce) ∧
      Base64.decode? signature = some letterPair.bytes ∧
      ((Operation.run askedOnce [.register "reader" "key",
        .ownKey (.sign .wallet "second" (Base64.encode [0x78]))]).publicKey
          (.page "site") "first").1 = .ok (Base64.encode key) ∧
      Curve.verifies key (Sha256.hash [0x78]) letterPair.bytes = true := by
  have hsign := Service.sign_of_key twoKeyed_first sign_letter
  obtain ⟨r, t, key, hdecoded, -, -, -, hexported, hverified, -⟩ := signature_verifies hsign
  rw [Base64.decode_encode] at hdecoded
  refine ⟨_, key, hsign, Base64.decode_encode _, hexported _ _, ?_⟩
  rw [Option.some.inj hdecoded]
  exact hverified

end Countersign.Messaging
