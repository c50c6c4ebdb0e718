import Countersign.Proofs.Curve.Encoding
import Countersign.Proofs.Messaging.Keys

/-!
# One key for each chain

The key of a chain is the first one that the answers of the keyring give. It can be told from what
was asked and answered, without looking at the keys that are kept: the keyring is asked for a chain
until an answer gives a key and not afterwards, whoever calls and whatever happens on other chains,
and an answer that gives none leaves nothing behind.
-/
namespace Countersign.Messaging

/-- A call that needs the key of a chain of this wallet. -/
inductive Call where
  | publicKey (caller : Caller) (chain : String)
  | sign (caller : Caller) (chain payload : String)
  | decrypt (caller : Caller) (chain envelope : String)

namespace Call

/-- Who calls. -/
def caller : Call → Caller
  | publicKey caller _ => caller
  | sign caller _ _ => caller
  | decrypt caller _ _ => caller

/-- The chain whose key is needed. -/
def chain : Call → String
  | publicKey _ chain => chain
  | sign _ chain _ => chain
  | decrypt _ chain _ => chain

/-- The octets that are handed in, in Base64. -/
def input : Call → Except Error Bytes
  | publicKey _ _ => .ok []
  | sign _ _ payload => Service.octetsOf payload
  | decrypt _ _ envelope => Service.octetsOf envelope

/-- What a call comes to with a key. It is the same for all callers. -/
def outcome (d : Curve.Scalar) (b : Bytes) : Call → Except Error String
  | publicKey _ _ => .ok (Base64.encode d.point.compressed)
  | sign _ _ _ =>
    (Curve.sign? d (Sha256.hash b)).elim
      (.error (.invalidSignature "no valid secret number was drawn")) fun c =>
        .ok (Base64.encode c.bytes)
  | decrypt _ _ _ => (unsealWith d b).map Base64.encode

/-- A call: what it comes to, and the service after it. -/
def run (s : Service) : Call → Except Error String × Service
  | publicKey caller chain => s.publicKey caller chain
  | sign caller chain payload => s.sign caller chain payload
  | decrypt caller chain envelope => s.decrypt caller chain envelope

theorem run_refused {call : Call} {e : Error} (h : call.input = .error e) (s : Service) :
    call.run s = (.error e, s) := by
  cases call with
  | publicKey caller chain => cases h
  | sign caller chain payload =>
    simp only [input] at h
    simp only [run, Service.sign, h]
  | decrypt caller chain envelope =>
    simp only [input] at h
    simp only [run, Service.decrypt, h]

theorem run_keyless {call : Call} {b : Bytes} (h : call.input = .ok b) {s s' : Service} {e : Error}
    (hkey : s.privateKey call.caller call.chain = (.error e, s')) :
    call.run s = (.error e, s') := by
  cases call with
  | publicKey caller chain =>
    simp only [Call.caller, Call.chain] at hkey
    simp only [run, Service.publicKey, hkey]
  | sign caller chain payload =>
    simp only [input, Call.caller, Call.chain] at h hkey
    simp only [run, Service.sign, h, hkey]
  | decrypt caller chain envelope =>
    simp only [input, Call.caller, Call.chain] at h hkey
    simp only [run, Service.decrypt, h, hkey]

/-- With a key the outcome of a call is a function of the key and the input, in which signing is
left unknown. -/
theorem run_keyed {call : Call} {b : Bytes} (h : call.input = .ok b) {s s' : Service}
    {d : Curve.Scalar} (hkey : s.privateKey call.caller call.chain = (.ok d, s')) :
    call.run s = (call.outcome d b, s') := by
  cases call with
  | publicKey caller chain => exact Service.publicKey_of_privateKey hkey
  | sign caller chain payload =>
    simp only [input, Call.caller, Call.chain] at h hkey
    simp only [run, outcome, Service.sign]
    obtain ⟨signature?, hsignature⟩ : ∃ f, f = Curve.sign? := ⟨_, rfl⟩
    rw [← hsignature]
    simp only [h, hkey]
    cases signature? d (Sha256.hash b) <;> rfl
  | decrypt caller chain envelope =>
    simp only [input, Call.caller, Call.chain] at h hkey
    simp only [run, outcome, Service.decrypt, h, hkey]

end Call

/-! ### Digests -/

/-- The hash of a signature is a secret factor. -/
def Derivable (signature : Bytes) : Prop :=
  0 < Bytes.toNat (Sha256.hash signature) ∧ Bytes.toNat (Sha256.hash signature) < Curve.order

namespace Service

theorem derivedKey_refused {signature : Bytes} (h : ¬Derivable signature) :
    derivedKey signature =
      .error (.invalidPrivateKey "derived key is not a valid secp256k1 scalar") := by
  rw [derivedKey, Curve.Scalar.decode_out_of_range h]

theorem derivedKey_of_derivable {signature : Bytes} (h : Derivable signature) :
    ∃ d : Curve.Scalar, derivedKey signature = .ok d ∧
      Bytes.ofNat 32 d.value = Sha256.hash signature := by
  obtain ⟨d, hd, hvalue⟩ := Curve.Scalar.decode_of_range (Sha256.length_hash signature) h
  exact ⟨d, by rw [derivedKey, hd], hvalue⟩

/-- A key is the hash of the signature that it was derived from. -/
theorem value_of_derivedKey {signature : Bytes} {d : Curve.Scalar}
    (h : derivedKey signature = .ok d) : Bytes.ofNat 32 d.value = Sha256.hash signature := by
  by_cases hd : Derivable signature
  · obtain ⟨d', hd', hvalue⟩ := derivedKey_of_derivable hd
    obtain rfl := Except.ok.inj (h.symm.trans hd')
    exact hvalue
  · rw [derivedKey_refused hd] at h
    cases h

/-! ### Questions and answers -/

/-- What the answer to a question about a chain came to; the number is that of the questions before
it. -/
def attempt? (keyring : Keyring) (chain : String) :
    Question × Nat → Option (Except Error Curve.Scalar)
  | (.signature caller asked doc, n) =>
    if asked = chain then some (keyring n caller asked doc >>= derivedKey) else none
  | (.key _ _, _) => none

/-- What the answers to the questions about a chain came to, in their order. -/
def attempts (s : Service) (chain : String) : List (Except Error Curve.Scalar) :=
  s.asked.zipIdx.filterMap (attempt? s.keyring chain)

/-- The first key that the answers about a chain gave. -/
def key? (s : Service) (chain : String) : Option Curve.Scalar :=
  (s.attempts chain).findSome? Except.toOption

/-- The service after calls. -/
def after (s : Service) (calls : List Call) : Service :=
  calls.foldl (fun s call => (call.run s).2) s

@[simp] theorem after_nil (s : Service) : s.after [] = s := rfl

@[simp] theorem after_cons (s : Service) (call : Call) (calls : List Call) :
    s.after (call :: calls) = (call.run s).2.after calls := rfl

/-- Only the document of a chain was ever signed, no answer was asked for once one gave a key, and
the keys that are kept are those that the answers gave. -/
structure KeepsOneKey (s : Service) : Prop where
  documents : ∀ q ∈ s.asked, ∃ caller chain, q = .signature caller chain (signDocBytes chain s.memo)
  once : ∀ chain, ∀ r ∈ (s.attempts chain).dropLast, ∃ e, r = .error e
  kept : ∀ chain, s.privateKeys.lookup chain = s.key? chain

theorem keepsOneKey_fresh (keyring : Keyring) (directory : Option Directory) (memo : String) :
    KeepsOneKey (.fresh keyring directory memo) :=
  ⟨by simp [fresh], by simp [fresh, attempts], by simp [fresh, key?, attempts]⟩

theorem attempts_ask (s : Service) (q : Question) (chain : String) :
    (s.ask q).attempts chain =
      s.attempts chain ++ (attempt? s.keyring chain (q, s.asked.length)).toList := by
  simp only [attempts, ask, List.zipIdx_append, List.filterMap_append]
  congr 1
  cases h : attempt? s.keyring chain (q, s.asked.length) <;> simp [h]

theorem toOption_eq_none {r : Except Error Curve.Scalar} (h : r.toOption = none) :
    ∃ e, r = .error e := by
  cases r with
  | error e => exact ⟨e, rfl⟩
  | ok d => cases h

/-- As long as there is no key, no answer has given one. -/
theorem attempts_failed {s : Service} {chain : String} (h : s.key? chain = none) :
    ∀ r ∈ s.attempts chain, ∃ e, r = .error e :=
  fun r hr => toOption_eq_none (List.findSome?_eq_none_iff.mp h r hr)

/-- The question about the document of a chain, and what the answer to it comes to. -/
def asking (s : Service) (caller : Caller) (chain : String) : Service :=
  s.ask (.signature caller chain (signDocBytes chain s.memo))

/-- What the answer comes to that the keyring would give now. -/
def answer (s : Service) (caller : Caller) (chain : String) : Except Error Curve.Scalar :=
  s.keyring s.asked.length caller chain (signDocBytes chain s.memo) >>= derivedKey

theorem attempts_asking (s : Service) (caller : Caller) (chain other : String) :
    (s.asking caller chain).attempts other =
      if chain = other then s.attempts other ++ [s.answer caller chain] else s.attempts other := by
  rw [asking, attempts_ask]
  by_cases h : chain = other
  · simp [attempt?, h, answer]
  · simp [attempt?, h]

theorem key_asking {s : Service} {chain : String} (hnone : s.key? chain = none) (caller : Caller)
    (other : String) :
    (s.asking caller chain).key? other =
      if chain = other then (s.answer caller chain).toOption else s.key? other := by
  unfold key? at hnone ⊢
  rw [attempts_asking]
  split
  next h =>
    subst h
    rw [List.findSome?_append, hnone]
    cases s.answer caller chain <;> rfl
  next => rfl

/-- A request for a key that fails leaves nothing behind but the question. -/
theorem privateKey_failed {s : Service} {caller : Caller} {chain : String} {e : Error}
    (hnone : s.privateKeys.lookup chain = none) (hanswer : s.answer caller chain = .error e) :
    s.privateKey caller chain = (.error e, s.asking caller chain) := by
  unfold answer at hanswer
  cases hkeyring : s.keyring s.asked.length caller chain (signDocBytes chain s.memo) with
  | error e' =>
    rw [hkeyring] at hanswer
    obtain rfl := Except.error.inj hanswer
    simp only [privateKey, hnone, hkeyring]
    rfl
  | ok signature =>
    rw [hkeyring] at hanswer
    have hderived : derivedKey signature = .error e := hanswer
    simp only [privateKey, hnone, hkeyring, hderived]
    rfl

/-- A request for a key that succeeds keeps the key. -/
theorem privateKey_answered {s : Service} {caller : Caller} {chain : String} {d : Curve.Scalar}
    (hnone : s.privateKeys.lookup chain = none) (hanswer : s.answer caller chain = .ok d) :
    s.privateKey caller chain =
      (.ok d, { s.asking caller chain with privateKeys := (chain, d) :: s.privateKeys }) := by
  unfold answer at hanswer
  cases hkeyring : s.keyring s.asked.length caller chain (signDocBytes chain s.memo) with
  | error e =>
    rw [hkeyring] at hanswer
    cases hanswer
  | ok signature =>
    rw [hkeyring] at hanswer
    exact privateKey_derived signature hnone hkeyring hanswer

/-! ### Calls -/

section

variable {s : Service} {call : Call} {b : Bytes} {d : Curve.Scalar} {e : Error}

theorem run_known (hs : KeepsOneKey s) (hinput : call.input = .ok b)
    (hkey : s.key? call.chain = some d) : call.run s = (call.outcome d b, s) :=
  Call.run_keyed hinput (privateKey_known ((hs.kept call.chain).trans hkey) call.caller)

theorem run_failed (hs : KeepsOneKey s) (hinput : call.input = .ok b)
    (hnone : s.key? call.chain = none) (hanswer : s.answer call.caller call.chain = .error e) :
    call.run s = (.error e, s.asking call.caller call.chain) :=
  Call.run_keyless hinput (privateKey_failed ((hs.kept call.chain).trans hnone) hanswer)

theorem run_answered (hs : KeepsOneKey s) (hinput : call.input = .ok b)
    (hnone : s.key? call.chain = none) (hanswer : s.answer call.caller call.chain = .ok d) :
    call.run s = (call.outcome d b, { s.asking call.caller call.chain with
      privateKeys := (call.chain, d) :: s.privateKeys }) :=
  Call.run_keyed hinput (privateKey_answered ((hs.kept call.chain).trans hnone) hanswer)

end

/-- All that a call can do to a service: nothing, or ask for a key that there is not, and keep it.
-/
theorem run_cases (call : Call) {s : Service} (hs : KeepsOneKey s) :
    (call.run s).2 = s ∨ s.key? call.chain = none ∧
      ((∃ e, s.answer call.caller call.chain = .error e ∧
        (call.run s).2 = s.asking call.caller call.chain) ∨
      ∃ d, s.answer call.caller call.chain = .ok d ∧
        (call.run s).2 = { s.asking call.caller call.chain with
          privateKeys := (call.chain, d) :: s.privateKeys }) := by
  cases hinput : call.input with
  | error e => exact .inl (by rw [call.run_refused hinput])
  | ok b =>
    cases hkey : s.key? call.chain with
    | some d => exact .inl (by rw [run_known hs hinput hkey])
    | none =>
      refine .inr ⟨rfl, ?_⟩
      cases hanswer : s.answer call.caller call.chain with
      | error e => exact .inl ⟨e, rfl, by rw [run_failed hs hinput hkey hanswer]⟩
      | ok d => exact .inr ⟨d, rfl, by rw [run_answered hs hinput hkey hanswer]⟩

theorem KeepsOneKey.asking {s : Service} (hs : KeepsOneKey s) {chain : String}
    (hnone : s.key? chain = none) (caller : Caller) :
    (∀ q ∈ (s.asking caller chain).asked,
      ∃ caller chain, q = .signature caller chain (signDocBytes chain s.memo)) ∧
    ∀ other, ∀ r ∈ ((s.asking caller chain).attempts other).dropLast, ∃ e, r = .error e := by
  refine ⟨fun q hq => ?_, fun other r hr => ?_⟩
  · rcases List.mem_append.mp hq with hq | hq
    · exact hs.documents q hq
    · exact ⟨caller, chain, List.mem_singleton.mp hq⟩
  · rw [attempts_asking] at hr
    split at hr
    next h =>
      subst h
      rw [List.dropLast_concat] at hr
      exact attempts_failed hnone r hr
    next => exact hs.once other r hr

theorem KeepsOneKey.run {s : Service} (hs : KeepsOneKey s) (call : Call) :
    KeepsOneKey (call.run s).2 := by
  rcases run_cases call hs with h | ⟨hnone, ⟨e, hanswer, h⟩ | ⟨d, hanswer, h⟩⟩ <;> rw [h]
  · exact hs
  · obtain ⟨hdocuments, honce⟩ := hs.asking hnone call.caller
    refine ⟨hdocuments, honce, fun other => ?_⟩
    rw [key_asking hnone, hanswer]
    split
    next hother => exact hother ▸ (hs.kept call.chain).trans hnone
    next => exact hs.kept other
  · obtain ⟨hdocuments, honce⟩ := hs.asking hnone call.caller
    refine ⟨hdocuments, honce, fun other => ?_⟩
    have hkey := key_asking hnone call.caller other
    rw [hanswer] at hkey
    refine Eq.trans ?_ hkey.symm
    by_cases hother : call.chain = other
    · rw [if_pos hother, ← hother]
      exact List.lookup_cons_self
    · have hb : (other == call.chain) = false := by simpa using Ne.symm hother
      rw [if_neg hother]
      simpa only [List.lookup_cons, hb] using hs.kept other

theorem KeepsOneKey.after {s : Service} (hs : KeepsOneKey s) (calls : List Call) :
    KeepsOneKey (s.after calls) := by
  induction calls generalizing s with
  | nil => exact hs
  | cons call calls ih => exact ih (hs.run call)

theorem config_run (call : Call) {s : Service} (hs : KeepsOneKey s) :
    (call.run s).2.keyring = s.keyring ∧ (call.run s).2.memo = s.memo := by
  rcases run_cases call hs with h | ⟨-, ⟨e, -, h⟩ | ⟨d, -, h⟩⟩ <;> rw [h] <;> exact ⟨rfl, rfl⟩

theorem config_after {s : Service} (hs : KeepsOneKey s) (calls : List Call) :
    (s.after calls).keyring = s.keyring ∧ (s.after calls).memo = s.memo := by
  induction calls generalizing s with
  | nil => exact ⟨rfl, rfl⟩
  | cons call calls ih =>
    obtain ⟨hkeyring, hmemo⟩ := config_run call hs
    exact ⟨(ih (hs.run call)).1.trans hkeyring, (ih (hs.run call)).2.trans hmemo⟩

/-- A key that an answer gave is never another one. -/
theorem key_run {s : Service} (hs : KeepsOneKey s) {chain : String} {d : Curve.Scalar}
    (h : s.key? chain = some d) (call : Call) : (call.run s).2.key? chain = some d := by
  have hkey (hnone : s.key? call.chain = none) :
      (s.asking call.caller call.chain).key? chain = some d := by
    have hne : call.chain ≠ chain := by
      rintro rfl
      rw [h] at hnone
      cases hnone
    rw [key_asking hnone, if_neg hne, h]
  rcases run_cases call hs with hrun | ⟨hnone, ⟨e, -, hrun⟩ | ⟨d', -, hrun⟩⟩ <;> rw [hrun]
  · exact h
  · exact hkey hnone
  · exact hkey hnone

theorem key_after {s : Service} (hs : KeepsOneKey s) {chain : String} {d : Curve.Scalar}
    (h : s.key? chain = some d) (calls : List Call) : (s.after calls).key? chain = some d := by
  induction calls generalizing s with
  | nil => exact h
  | cons call calls ih => exact ih (hs.run call) (key_run hs h call)

/-- A key is the hash of the signature that an answer gave to the document of the chain. -/
theorem key_origin {s : Service} (hs : KeepsOneKey s) {chain : String} {d : Curve.Scalar}
    (h : s.key? chain = some d) :
    ∃ n caller signature,
      s.asked[n]? = some (.signature caller chain (signDocBytes chain s.memo)) ∧
        s.keyring n caller chain (signDocBytes chain s.memo) = .ok signature ∧
        Bytes.ofNat 32 d.value = Sha256.hash signature := by
  obtain ⟨r, hr, hd⟩ := List.exists_of_findSome?_eq_some h
  obtain ⟨⟨q, n⟩, hq, hattempt⟩ := List.mem_filterMap.mp hr
  have hn : s.asked[n]? = some q := by simpa using List.mem_zipIdx_iff_getElem?.mp hq
  obtain ⟨caller, asked, rfl⟩ := hs.documents q (List.mem_of_getElem? hn)
  simp only [attempt?] at hattempt
  split at hattempt
  next hchain =>
    subst hchain
    obtain rfl := Option.some.inj hattempt
    cases hanswer : s.keyring n caller asked (signDocBytes asked s.memo) with
    | error e =>
      rw [hanswer] at hd
      cases hd
    | ok signature =>
      rw [hanswer] at hd
      have hderived : derivedKey signature = .ok d := by
        change (derivedKey signature).toOption = some d at hd
        cases hk : derivedKey signature with
        | error e => rw [hk] at hd; cases hd
        | ok d' => rw [hk] at hd; exact congrArg _ (Option.some.inj hd)
      exact ⟨n, caller, signature, hn, hanswer, value_of_derivedKey hderived⟩
  next => cases hattempt

/-- A call on a chain without a key puts one question to the keyring. An answer without a key is
handed to the caller and leaves the chain without one; an answer with a key is the key from then on.
-/
theorem run_unknown {s : Service} (hs : KeepsOneKey s) {call : Call} {b : Bytes}
    (hinput : call.input = .ok b) (hnone : s.key? call.chain = none) :
    (∀ e, s.answer call.caller call.chain = .error e →
      call.run s = (.error e, s.asking call.caller call.chain) ∧
        (s.asking call.caller call.chain).key? call.chain = none) ∧
    ∀ d, s.answer call.caller call.chain = .ok d →
      call.run s = (call.outcome d b, { s.asking call.caller call.chain with
        privateKeys := (call.chain, d) :: s.privateKeys }) ∧
      (call.run s).2.key? call.chain = some d := by
  have hkey := key_asking hnone call.caller call.chain
  rw [if_pos rfl] at hkey
  refine ⟨fun e hanswer => ?_, fun d hanswer => ?_⟩ <;> rw [hanswer] at hkey
  · exact ⟨run_failed hs hinput hnone hanswer, hkey⟩
  · have hrun := run_answered hs hinput hnone hanswer
    refine ⟨hrun, ?_⟩
    rw [hrun]
    exact hkey

/-- Whatever was called before, from wherever and on whatever chains, and however the keyring
answers: the key of a chain is the hash of the signature in the first usable answer about it, no
question about the chain follows that answer, and each call on the chain comes to what it comes to
with that key. As long as there is none, a call asks once more; if the answer is not usable, the
caller is told and nothing is kept. -/
theorem one_key_per_chain (keyring : Keyring) (directory : Option Directory) (memo : String)
    (before : List Call) (call : Call) :
    let s := (fresh keyring directory memo).after before
    let doc := signDocBytes call.chain memo
    let asked := s.ask (.signature call.caller call.chain doc)
    KeepsOneKey s ∧
    (∀ chain d, s.key? chain = some d →
      (∃ n caller signature,
        s.asked[n]? = some (.signature caller chain (signDocBytes chain memo)) ∧
        keyring n caller chain (signDocBytes chain memo) = .ok signature ∧
        Bytes.ofNat 32 d.value = Sha256.hash signature) ∧
      ∀ more, (s.after more).key? chain = some d) ∧
    (∀ e, call.input = .error e → call.run s = (.error e, s)) ∧
    ∀ b, call.input = .ok b →
      (∀ d, s.key? call.chain = some d → call.run s = (call.outcome d b, s)) ∧
      (s.key? call.chain = none →
        (∀ e, keyring s.asked.length call.caller call.chain doc = .error e →
          call.run s = (.error e, asked) ∧ asked.key? call.chain = none) ∧
        ∀ signature, keyring s.asked.length call.caller call.chain doc = .ok signature →
          (¬Derivable signature →
            call.run s = (.error (.invalidPrivateKey
              "derived key is not a valid secp256k1 scalar"), asked) ∧
            asked.key? call.chain = none) ∧
          (Derivable signature → ∃ d, Bytes.ofNat 32 d.value = Sha256.hash signature ∧
            call.run s =
              (call.outcome d b, { asked with privateKeys := (call.chain, d) :: s.privateKeys }) ∧
            (call.run s).2.key? call.chain = some d)) := by
  intro s doc asked
  have hs : KeepsOneKey s := (keepsOneKey_fresh keyring directory memo).after before
  have hconfig := config_after (keepsOneKey_fresh keyring directory memo) before
  have hkeyring : s.keyring = keyring := hconfig.1
  have hmemo : s.memo = memo := hconfig.2
  have hasked : s.asking call.caller call.chain = asked := by
    rw [asking, hmemo]
  have hanswer : s.answer call.caller call.chain =
      (keyring s.asked.length call.caller call.chain doc >>= derivedKey) := by
    rw [answer, hkeyring, hmemo]
  refine ⟨hs, fun chain d hkey => ⟨?_, key_after hs hkey⟩,
    fun e hinput => Call.run_refused hinput s,
    fun b hinput => ⟨fun d hkey => run_known hs hinput hkey, fun hnone => ?_⟩⟩
  · have horigin := key_origin hs hkey
    rwa [hkeyring, hmemo] at horigin
  · obtain ⟨hfailed, hanswered⟩ := run_unknown hs hinput hnone
    rw [hasked, hanswer] at hfailed hanswered
    refine ⟨fun e he => hfailed e (by rw [he]; rfl), fun signature hsignature => ?_⟩
    rw [hsignature] at hfailed hanswered
    refine ⟨fun h => hfailed _ (derivedKey_refused h), fun h => ?_⟩
    obtain ⟨d, hd, hvalue⟩ := derivedKey_of_derivable h
    exact ⟨d, hvalue, hanswered d hd⟩

end Service

/-- A keyring that is locked when it is first asked, and signs with the number of the question
later. -/
def lockedOnce : Keyring
  | 0, _, _, _ => .error (.keyring "locked")
  | n + 1, _, _, _ => .ok [UInt8.ofNat (n + 1)]

/-- The first call is told that the keyring is locked, the second one has a key, and it stays. -/
theorem key_after_lock :
    let s := Service.fresh lockedOnce none "memo"
    let call := Call.publicKey .wallet "chain"
    ∃ d : Curve.Scalar, Bytes.ofNat 32 d.value = Sha256.hash [1] ∧
      (call.run s).1 = .error (.keyring "locked") ∧
      (call.run (s.after [call])).1 = .ok (Base64.encode d.point.compressed) ∧
      ∀ more, (s.after (call :: call :: more)).key? "chain" = some d := by
  intro s call
  obtain ⟨-, -, -, hfirst⟩ := Service.one_key_per_chain lockedOnce none "memo" [] call
  obtain ⟨hlocked, -⟩ := ((hfirst [] rfl).2 rfl).1 _ rfl
  have hs : s.after [call] = s.ask (.signature .wallet "chain" (signDocBytes "chain" "memo")) :=
    congrArg Prod.snd hlocked
  obtain ⟨-, -, -, hsecond⟩ := Service.one_key_per_chain lockedOnce none "memo" [call] call
  have hnone : (s.after [call]).key? "chain" = none := by
    rw [hs]
    rfl
  have hsigned : lockedOnce (s.after [call]).asked.length .wallet "chain"
      (signDocBytes "chain" "memo") = .ok [1] := by
    rw [hs]
    rfl
  have hderivable : Derivable [1] := by
    unfold Derivable
    decide +kernel
  obtain ⟨d, hvalue, hrun, hkey⟩ := (((hsecond [] rfl).2 hnone).2 [1] hsigned).2 hderivable
  obtain ⟨-, hkept, -⟩ := Service.one_key_per_chain lockedOnce none "memo" [call, call] call
  simp only [Service.after_cons, Service.after_nil] at hkey hkept
  refine ⟨d, hvalue, congrArg Prod.fst hlocked, congrArg Prod.fst hrun, fun more => ?_⟩
  simp only [Service.after_cons]
  exact (hkept "chain" d hkey).2 more

end Countersign.Messaging
