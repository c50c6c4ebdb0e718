import Countersign.Proofs.Device.Failures

/-!
# A locked device

A device that is locked says so by a status word, or its link says so in words. Opening a session
takes both for a locked device, at whatever question of the probe they come. An operation of an open
session knows the status word only: what a link says in words is reported as a failure of the
operation.
-/
namespace Countersign

namespace Reply

/-- A reply from a locked device, by its status word or in the words of the link. -/
inductive ReportsLock : Reply → Prop
  | status (d : Bytes) : ReportsLock (.ofStatus d 0x5515)
  | words {fault : LinkFault} (h : fault.isScreenSaver = true) : ReportsLock (.failure fault)

theorem probeError_of_lock {reply : Reply} (h : reply.ReportsLock) (title : String) :
    ∃ e, reply.outcome = .error e ∧ probeError title e = .deviceLocked := by
  cases h with
  | status d => exact ⟨.deviceLocked, outcome_ofStatus d (by decide) (by decide), rfl⟩
  | @words fault h => exact ⟨.link fault, rfl, by simp only [probeError, h, if_true]⟩

end Reply

namespace Persona

open Exchange

theorem ends_probe (p : Persona) : Ends id (fun _ => True) p.probe := by
  have hlift {α : Type} (r : Except Error α) : Ends id (fun _ => True) (lift r) :=
    ends_lift fun _ _ => trivial
  cases p with
  | cosmos app =>
    refine (CosmosApp.ends_getVersion.mono fun _ _ => trivial).bind fun version => ?_
    split
    · exact hlift _
    · refine .bind ((ends_data _).bind fun _ => hlift _) fun info => ?_
      split
      · exact ends_pure _
      · exact hlift _
  | ethereum =>
    exact ((EthereumApp.ends_getAddress _).mono fun _ _ => trivial).bind fun _ => ends_pure _

end Persona

namespace Session

open Exchange

/-- Opening a session reports a locked device if any of the replies that it takes does. -/
theorem init_locked (app : DeviceApp) (settings : DeviceSettings) (link : Link) :
    ∃ taken rest, (init app settings (.ok link)).2.map Link.replies = some rest ∧
      link.replies = taken ++ rest ∧
      ∀ reply ∈ taken, reply.ReportsLock →
        (init app settings (.ok link)).1 = .error .deviceLocked := by
  obtain ⟨taken, hreplies, htaken⟩ := (Persona.ends_probe (Persona.ofApp app settings) link).taken
  refine ⟨taken, _, ?_, hreplies, fun reply hmem hlock => ?_⟩
  · rcases init_cases app settings link with ⟨-, hi⟩ | ⟨e, -, hi⟩ <;> rw [hi] <;> rfl
  · obtain ⟨e, he, hlocked⟩ := Reply.probeError_of_lock hlock (Persona.ofApp app settings).title
    have hprobe := htaken reply hmem e he
    rcases init_cases app settings link with ⟨hok, -⟩ | ⟨e', he', hi⟩
    · rw [hprobe] at hok
      cases hok
    · rw [hprobe] at he'
      obtain rfl := Except.error.inj he'
      rw [hi, ← hlocked]
      rfl

/-- Opening a session takes the status word of a locked device and what links say in words for the
same: if any reply that was taken is such a one, the device is reported as locked. An operation of
an open session does so for the status word. If the link fails, whatever it says, the operation is
reported as failed with the text of the link. -/
theorem lock_reported (app : DeviceApp) (settings : DeviceSettings) (link : Link) (s : Session)
    {op : Operation} {wrap : String → Error} (h : op.Wraps wrap) :
    (∃ taken rest,
      (init app settings (.ok link)).2.map Link.replies = some rest ∧ link.replies = taken ++ rest ∧
      ∀ reply ∈ taken, reply.ReportsLock →
        (init app settings (.ok link)).1 = .error .deviceLocked) ∧
    ∃ taken, s.link.replies = taken ++ (s.act op).2.link.replies ∧
      (∀ d, .ofStatus d 0x5515 ∈ taken → (s.act op).1 = .failed (.refused .deviceLocked)) ∧
      ∀ fault, .failure fault ∈ taken → (s.act op).1 = .failed (.refused (wrap fault.message)) := by
  refine ⟨init_locked app settings link, ?_⟩
  obtain ⟨α, f, r, -, hr, hended⟩ := s.act_ended h
  obtain ⟨taken, hreplies, htaken⟩ := hended.taken
  refine ⟨taken, hreplies, fun d hmem => ?_, fun fault hmem => ?_⟩
  · rw [hr, htaken _ hmem .deviceLocked (Reply.outcome_ofStatus d (by decide) (by decide))]
    rfl
  · rw [hr, htaken _ hmem (.link fault) rfl]
    rfl

/-- A screen saver that the link reports in words: opening a session finds the device locked, and
signing with an open one does not. -/
theorem screen_saver_in_words :
    let saver := LinkFault.other "Ledger device: screen saver (0x5515)"
    let link := Link.fresh [.failure saver] none
    let s : Session := ⟨some .ethereum, link⟩
    let op := Operation.signEthereum .message (.first DerivationPath.ethereumCoin) []
    (Reply.failure saver).ReportsLock ∧ op.Wraps .failedSign ∧
      (init .ethereum {} (.ok link)).1 = .error .deviceLocked ∧
      (s.act op).1 = .failed (.refused (.failedSign "Ledger device: screen saver (0x5515)")) := by
  intro saver link s op
  have hlock : (Reply.failure saver).ReportsLock := .words (by decide +kernel)
  have hwraps : op.Wraps .failedSign := .signEthereum _ _ _
  obtain ⟨⟨taken, rest, hrest, htaken, hopening⟩, taken', htaken', -, hsigning⟩ :=
    lock_reported .ethereum {} link s hwraps
  obtain rfl : [] = rest := Option.some.inj hrest
  obtain rfl : [.failure saver] = taken := htaken.trans (List.append_nil _)
  have hleft : (s.act op).2.link.replies = [] := by decide +kernel
  rw [hleft, List.append_nil] at htaken'
  obtain rfl : [.failure saver] = taken' := htaken'
  exact ⟨hlock, hwraps, hopening _ (by simp) hlock, hsigning saver (by simp)⟩

/-- What is a locked device to a link is none to an operation: the version of an open Cosmos app is
asked for, the link reports the screen saver, and the operation fails as any other one would. -/
theorem screen_saver_not_locked :
    ¬∀ (s : Session) (op : Operation) (wrap : String → Error), op.Wraps wrap →
      ∃ taken, s.link.replies = taken ++ (s.act op).2.link.replies ∧
        ∀ reply ∈ taken, reply.ReportsLock →
          (s.act op).1 = .failed (.refused .deviceLocked) := by
  intro h
  let saver := LinkFault.other "Ledger device: screen saver (0x5515)"
  let s : Session := ⟨some (.cosmos ⟨"Cosmos", "cosmos"⟩), .fresh [.failure saver] none⟩
  obtain ⟨taken, htaken, hlocked⟩ := h s .getVersion .failedGetVersion .getVersion
  have hleft : (s.act .getVersion).2.link.replies = [] := rfl
  rw [hleft, List.append_nil] at htaken
  obtain rfl : [.failure saver] = taken := htaken
  have hlock : (Reply.failure saver).ReportsLock := .words (by decide +kernel)
  cases hlocked _ (by simp) hlock

end Session

end Countersign
