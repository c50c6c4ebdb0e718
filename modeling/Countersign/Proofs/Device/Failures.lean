import Countersign.Proofs.Device.Ending

/-!
# How operations of a session fail

Callers tell a locked device, a refusal by the user and an unusable signature apart; everything else
that goes wrong with a device is reported as a failure of the operation. What the parts of the apps
may fail with is followed through the operations, and so no error of the layers below comes out of
them.
-/
namespace Countersign

/-- Errors of the layers below a session. -/
def Error.IsRaw : Error → Prop
  | .link _ | .device _ _ | .malformedResponse _ | .hexDecodeFailed _
  | .addressDerivationFailed _ | .config _ => True
  | _ => False

/-- Errors that are reported as failures of the operation that they stop. -/
def Error.IsWrapped (e : Error) : Prop :=
  ∀ wrap, ∃ detail, operationError wrap e = wrap detail

/-- Errors of a signature that is none. -/
def Error.IsInvalidSignature (e : Error) : Prop :=
  ∃ detail, e = .invalidSignature detail

/-! ### Parts of the apps -/

namespace CosmosApp

open Exchange

theorem version_fails (b : Bytes) : FailsWith Error.IsWrapped (Version.parse b) := by
  unfold Version.parse
  split
  · exact .ok _
  · exact .error fun _ => ⟨_, rfl⟩

theorem ends_getVersion : Ends id Error.IsWrapped getVersion :=
  (ends_data _).bind fun b => ends_lift (version_fails b)

theorem keyCommand_fails (app : CosmosApp) (path : DerivationPath) :
    FailsWith Error.IsWrapped (app.keyCommand path) := by
  simp only [keyCommand]
  split
  · exact .error fun _ => ⟨_, rfl⟩
  · exact .ok _

theorem key_fails (b : Bytes) : FailsWith Error.IsWrapped (Key.parse b) := by
  unfold Key.parse
  split
  · exact .error fun _ => ⟨_, rfl⟩
  · exact .ok _

theorem ends_getPublicKey (app : CosmosApp) (path : DerivationPath) :
    Ends id Error.IsWrapped (app.getPublicKey path) :=
  (ends_lift (app.keyCommand_fails path)).bind fun _ =>
    (ends_data _).bind fun b => ends_lift (key_fails b)

theorem ends_sign (path : DerivationPath) (text : Bytes) :
    Ends id Error.IsWrapped (sign path text) := by
  unfold sign
  split
  · exact ends_lift (.error fun _ => ⟨_, rfl⟩)
  · exact ends_dataOfLast [] _

end CosmosApp

namespace DerSignature

theorem toCompact_fails (der : Bytes) : FailsWith Error.IsInvalidSignature (toCompact der) := by
  refine .bind ?_ fun ⟨r, s⟩ => ?_
  · unfold parse
    split
    · exact .ok _
    · exact .error ⟨_, rfl⟩
  · dsimp only
    split
    · exact .ok _
    · exact .error ⟨_, rfl⟩

end DerSignature

theorem parsePublicKey_fails {own : Error → Prop} (hown : ∀ detail, own (.invalidPublicKey detail))
    (b : Bytes) : FailsWith own (parsePublicKey b) := by
  unfold parsePublicKey
  split
  · exact .ok _
  · exact .error (hown _)

namespace Signature

theorem part_fails (name : String) (b : Bytes) :
    FailsWith Error.IsInvalidSignature (part name b) := by
  unfold part
  split
  · exact .ok _
  · exact .error ⟨_, rfl⟩

theorem ofReply_fails (b : Bytes) : FailsWith Error.IsInvalidSignature (ofReply b) := by
  unfold ofReply
  split
  · split
    · exact (part_fails _ _).bind fun _ => (part_fails _ _).bind fun _ => .ok _
    · exact .error ⟨_, rfl⟩
  · exact .error ⟨_, rfl⟩

end Signature

namespace EthereumApp

open Exchange

theorem ofHex_fails (text : String) : FailsWith Error.IsWrapped (Address.ofHex text) := by
  unfold Address.ofHex
  split
  · exact .error fun _ => ⟨_, rfl⟩
  · split
    · exact .ok _
    · exact .error fun _ => ⟨_, rfl⟩

theorem key_fails (b : Bytes) : FailsWith Error.IsWrapped (Key.parse b) := by
  refine .bind ?_ fun parts => (ofHex_fails _).bind fun reported => .bind ?_ fun derived => ?_
  · simp only [splitReply]
    split
    · exact .ok _
    · exact .error fun _ => ⟨_, rfl⟩
  · exact (parsePublicKey_fails (fun _ _ => ⟨_, rfl⟩) _).map _
  · split
    · exact .ok _
    · exact .error fun _ => ⟨_, rfl⟩

theorem ends_getAddress (path : DerivationPath) : Ends id Error.IsWrapped (getAddress path) :=
  (ends_data _).bind fun b => ends_lift (key_fails b)

theorem ends_signPieces (ins : UInt8) (payload : Bytes) :
    Ends id Error.IsInvalidSignature (signPieces ins payload) :=
  (ends_dataOfLast [] _).bind fun b => ends_lift (Signature.ofReply_fails b)

theorem ends_signTypedData (path : DerivationPath) (domain message : Bytes) :
    Ends id Error.IsInvalidSignature (signTypedData path domain message) :=
  (ends_data _).bind fun b => ends_lift (Signature.ofReply_fails b)

end EthereumApp

namespace Session

open Exchange

/-! ### Operations -/

/-- The error in which an operation that asks the app reports that it failed. -/
inductive Operation.Wraps : Operation → (String → Error) → Prop
  | getVersion : Wraps .getVersion .failedGetVersion
  | getPublicKey (app : DeviceApp) (path : DerivationPath) :
      Wraps (.getPublicKey app path) .failedGetPublicKey
  | sign (path : DerivationPath) (text : Bytes) : Wraps (.sign path text) .failedSign
  | signEthereum (kind : SignKind) (path : DerivationPath) (text : Bytes) :
      Wraps (.signEthereum kind path text) .failedSign

/-- The errors with which an operation that asks the app may fail. -/
inductive Operation.Reports : Operation → Error → Prop
  | closed (op : Operation) : Reports op .sessionClosed
  | appMissing {op : Operation} {app : DeviceApp} (h : op.needs = some app) :
      Reports op (.appNotInitialised app.title)
  | locked (op : Operation) : Reports op .deviceLocked
  | rejected (op : Operation) : Reports op .signRejected
  | failed {op : Operation} {wrap : String → Error} (h : op.Wraps wrap) (detail : String) :
      Reports op (wrap detail)
  | invalidPublicKey (path : DerivationPath) (detail : String) :
      Reports (.getPublicKey .ethereum path) (.invalidPublicKey detail)
  | noCosmosSignature (path : DerivationPath) (text : Bytes) (detail : String) :
      Reports (.sign path text) (.invalidSignature detail)
  | noEthereumSignature (kind : SignKind) (path : DerivationPath) (text : Bytes) (detail : String) :
      Reports (.signEthereum kind path text) (.invalidSignature detail)
  | unreadable {kind : SignKind} {e : Error} (path : DerivationPath) (text : Bytes)
      (h : Signable.Unreadable kind e) : Reports (.signEthereum kind path text) e

theorem Operation.Reports.not_raw {op : Operation} {e : Error} (h : op.Reports e) : ¬e.IsRaw := by
  cases h with
  | failed hwrap detail => cases hwrap <;> exact id
  | unreadable path text h =>
    cases h with
    | transaction detail => exact id
    | typedData h => cases h <;> exact id
  | closed | appMissing | locked | rejected | invalidPublicKey | noCosmosSignature
  | noEthereumSignature => exact id

variable {α : Type} {op : Operation} {wrap : String → Error}

/-- The errors of replies come out as a locked device, as a refusal, or wrapped. -/
theorem reports_of_fault (h : op.Wraps wrap) {e : Error} (he : Reply.Fault e) :
    op.Reports (operationError wrap e) := by
  cases he with
  | link fault => exact .failed h fault.message
  | locked => exact .locked op
  | rejected => exact .rejected op
  | device status => exact .failed h (statusMessage status)

theorem reports_of_wrapped (h : op.Wraps wrap) {e : Error} (he : e.IsWrapped) :
    op.Reports (operationError wrap e) := by
  obtain ⟨detail, hdetail⟩ := he wrap
  exact hdetail ▸ .failed h detail

theorem ends_wrapped {x : Exchange α} {own own' : Error → Prop} (hx : Ends id own x)
    (hown : ∀ e, own e → own' (operationError wrap e)) :
    Ends (operationError wrap) own' (wrapped wrap x) := by
  intro link
  have hon : (wrapped wrap x).on link =
      ((x.on link).1.mapError (operationError wrap), (x.on link).2) := by
    simp only [wrapped, on]
    rcases x link with ⟨e | a, between⟩ <;> rfl
  rw [hon]
  exact (hx link).reported _ hown

theorem ended_onCosmos (s : Session) (hop : op.needs = some .cosmos) {x : CosmosApp → Exchange α}
    (hx : ∀ app, Ends (operationError wrap) op.Reports (x app)) :
    Ended (operationError wrap) op.Reports s.link.replies (s.onCosmos x).2.link.replies
      (s.onCosmos x).1 := by
  have hnone : s.link.replies = [].map success ++ s.link.replies := rfl
  unfold onCosmos
  split
  · exact hx _ s.link
  · exact .own hnone (.appMissing hop)
  · exact .own hnone (.closed op)

theorem ended_onEthereum (s : Session) (hop : op.needs = some .ethereum) {x : Exchange α}
    (hx : Ends (operationError wrap) op.Reports x) :
    Ended (operationError wrap) op.Reports s.link.replies (s.onEthereum x).2.link.replies
      (s.onEthereum x).1 := by
  have hnone : s.link.replies = [].map success ++ s.link.replies := rfl
  unfold onEthereum
  split
  · exact hx s.link
  · exact .own hnone (.appMissing hop)
  · exact .own hnone (.closed op)

theorem unreadable_of_ofJson {text : Bytes} {e : Error} (h : Transaction.ofJson text = .error e) :
    Signable.Unreadable .transaction e := by
  unfold Transaction.ofJson at h
  split at h
  next => cases h
  next => exact Except.error.inj h ▸ .transaction _

/-- Signing with the Ethereum app has an operation for every input. -/
theorem signing_ends (kind : SignKind) (path : DerivationPath) (text : Bytes) :
    ∃ x, signing kind path text = .ok x ∧
      Ends (operationError .failedSign) (Operation.signEthereum kind path text).Reports x := by
  have hnone {e : Error} (he : e.IsInvalidSignature) :
      (Operation.signEthereum kind path text).Reports (operationError .failedSign e) := by
    obtain ⟨detail, rfl⟩ := he
    exact .noEthereumSignature kind path text detail
  cases kind with
  | message =>
    exact ⟨_, rfl, (ends_wrapped (EthereumApp.ends_signPieces _ _) fun _ => hnone).bind fun _ =>
      ends_pure _⟩
  | transaction =>
    refine ⟨_, rfl, (ends_lift fun e he => ?_).bind fun tx =>
      (ends_wrapped (EthereumApp.ends_signPieces _ _) fun _ => hnone).bind fun _ => ends_pure _⟩
    exact .unreadable path text (unreadable_of_ofJson he)
  | typedData =>
    cases hhashes : typedHashes text with
    | error fault =>
      obtain ⟨e, rfl, he⟩ := typedHashes_refuses text fault hhashes
      exact ⟨lift (.error e), by simp only [signing, hhashes],
        ends_lift (.error (.unreadable path text (.typedData he)))⟩
    | ok hashes =>
      simp only [signing, hhashes]
      exact ⟨_, rfl, (ends_wrapped (EthereumApp.ends_signTypedData path _ _) fun _ => hnone).bind
        fun _ => ends_pure _⟩

/-- How an operation that asks the app ends. -/
theorem act_ended (s : Session) (h : op.Wraps wrap) :
    ∃ (α : Type) (f : α → Outcome) (r : Except Error α), (∀ a fault, f a ≠ .failed fault) ∧
      (s.act op).1 = .of f r ∧
      Ended (operationError wrap) op.Reports s.link.replies (s.act op).2.link.replies r := by
  have hown : ∀ e : Error, e.IsWrapped → op.Reports (operationError wrap e) :=
    fun _ => reports_of_wrapped h
  have hnone : s.link.replies = [].map success ++ s.link.replies := rfl
  cases h with
  | getVersion =>
    refine ⟨_, _, _, nofun, rfl, s.ended_onCosmos rfl fun _ => ?_⟩
    exact ends_wrapped CosmosApp.ends_getVersion hown
  | getPublicKey app path =>
    refine ⟨_, _, _, nofun, rfl, ?_⟩
    cases app with
    | cosmos =>
      refine s.ended_onCosmos rfl fun app => ?_
      exact (ends_wrapped (app.ends_getPublicKey path) hown).bind fun _ => ends_pure _
    | ethereum =>
      refine s.ended_onEthereum rfl ?_
      refine (ends_wrapped (EthereumApp.ends_getAddress path) hown).bind fun key => ends_lift ?_
      exact (parsePublicKey_fails (.invalidPublicKey path) key.uncompressed).map _
  | sign path text =>
    refine ⟨_, _, _, nofun, rfl, s.ended_onCosmos rfl fun _ => ?_⟩
    refine (ends_wrapped (CosmosApp.ends_sign path text) hown).bind fun der =>
      ends_lift fun e he => ?_
    obtain ⟨detail, rfl⟩ := DerSignature.toCompact_fails der e he
    exact .noCosmosSignature path text detail
  | signEthereum kind path text =>
    cases hs : s.persona with
    | none =>
      rw [s.act_closed hs]
      exact ⟨_, .octets, .error .sessionClosed, nofun, rfl, .own hnone (.closed _)⟩
    | some p =>
      cases p with
      | cosmos app =>
        have hother : DeviceApp.ethereum ≠ Persona.app (.cosmos app) := nofun
        rw [act_other hs rfl hother]
        exact ⟨_, .octets, .error (.appNotInitialised _), nofun, rfl, .own hnone (.appMissing rfl)⟩
      | ethereum =>
        obtain ⟨x, hx, hends⟩ := signing_ends kind path text
        refine ⟨_, .octets, (x.on s.link).1, nofun, ?_, ?_⟩
        · simp only [act, signEthereum_signing hs hx]
          cases (x.on s.link).1 <;> rfl
        · simp only [act, signEthereum_signing hs hx]
          exact hends s.link

/-- What an operation reports of a status word that is none of success. -/
def statusError (wrap : String → Error) (status : Nat) : Error :=
  if status = 0x5515 then .deviceLocked
  else if status = 0x6985 ∨ status = 0x6986 then .signRejected
  else wrap (statusMessage status)

theorem operationError_toError (d : Bytes) (status : Nat) :
    operationError wrap (Answer.toError ⟨d, status⟩) = statusError wrap status := by
  unfold Answer.toError statusError
  by_cases hlocked : status = 0x5515
  · simp only [hlocked, if_true, operationError]
  · by_cases hrejected : status = 0x6985 ∨ status = 0x6986
    · simp only [hlocked, hrejected, hrejected.symm, if_true, if_false, operationError]
    · simp only [hlocked, hrejected, mt Or.symm hrejected, if_false, operationError]

/-- However the device answers, an operation that asks the app fails with one of its own errors, and
never with one of the layers below. A status word that is none of success ends the operation: that
of a locked device and those of a refusal by the user are reported as such, and any other one as a
failure of the operation with the text of that status word. -/
theorem failures_classified (s : Session) (h : op.Wraps wrap) :
    (∀ fault, (s.act op).1 = .failed fault →
      ∃ e, fault = .refused e ∧ op.Reports e ∧ ¬e.IsRaw) ∧
    ∃ taken, s.link.replies = taken ++ (s.act op).2.link.replies ∧
      ∀ d status, status < 2 ^ 16 → status ≠ 0x9000 → .ofStatus d status ∈ taken →
        (s.act op).1 = .failed (.refused (statusError wrap status)) := by
  obtain ⟨α, f, r, hf, hr, hended⟩ := s.act_ended h
  constructor
  · intro fault hfault
    rw [hr] at hfault
    cases r with
    | ok a => exact absurd hfault (hf a fault)
    | error e =>
      have he : op.Reports e := by
        rcases hended.error rfl with he | ⟨e', he', rfl⟩
        · exact he
        · exact reports_of_fault h he'
      exact ⟨e, (Outcome.failed.inj hfault).symm, he, he.not_raw⟩
  · obtain ⟨taken, hreplies, htaken⟩ := hended.taken
    refine ⟨taken, hreplies, fun d status hstatus hfails hmem => ?_⟩
    rw [hr, htaken _ hmem _ (Reply.outcome_ofStatus d hstatus hfails), operationError_toError]
    rfl

/-- A text that goes to the device in pieces: the second piece is answered with the status word of
bad data, and the reply behind it is left. -/
theorem bad_piece_reported :
    let path := DerivationPath.first DerivationPath.cosmosCoin
    let op : Operation := .sign path [0x7B, 0x7D]
    let s : Session := ⟨some (.cosmos ⟨"Cosmos", "cosmos"⟩),
      .fresh [success [], .ofStatus [] 0x6984, success [1]] none⟩
    op.Wraps .failedSign ∧
      (s.act op).1 = .failed (.refused (.failedSign "Data is invalid")) ∧
      op.Reports (.failedSign "Data is invalid") ∧
      (s.act op).2.link.replies = [success [1]] := by
  intro path op s
  have hwraps : op.Wraps .failedSign := .sign path _
  have hrest : (s.act op).2.link.replies = [success [1]] := by decide +kernel
  obtain ⟨hfails, taken, htaken, hstatus⟩ := failures_classified s hwraps
  obtain rfl : [success [], .ofStatus [] 0x6984] = taken := by
    rw [hrest] at htaken
    exact List.append_cancel_right htaken
  have hfailed : (s.act op).1 = .failed (.refused (.failedSign "Data is invalid")) :=
    hstatus [] 0x6984 (by decide) (by decide) (by simp)
  obtain ⟨e, he, hreports, -⟩ := hfails _ hfailed
  obtain rfl := TypedData.Fault.refused.inj he
  exact ⟨hwraps, hfailed, hreports, hrest⟩

end Session

end Countersign
