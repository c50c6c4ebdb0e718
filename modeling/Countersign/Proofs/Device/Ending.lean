import Countersign.Proofs.Device.Personas
import Countersign.Proofs.Device.Signing

/-!
# How an operation ends

An operation takes replies as long as they are successes. It ends by itself, in a step that needs no
reply, or with the first reply that is none; and if no reply is left the device has gone away. The
errors of an operation are those of its own steps, and those of the replies in the form in which it
reports them.
-/
namespace Countersign

/-! ### Pure steps -/

/-- A pure step fails with no other errors than these. -/
def FailsWith {α : Type} (own : Error → Prop) (r : Except Error α) : Prop :=
  ∀ e, r = .error e → own e

namespace FailsWith

variable {α β : Type} {own : Error → Prop}

theorem ok (a : α) : FailsWith own (.ok a) := nofun

theorem error {e : Error} (he : own e) : FailsWith own (.error e : Except Error α) :=
  fun _ h => Except.error.inj h ▸ he

theorem bind {r : Except Error α} {f : α → Except Error β} (hr : FailsWith own r)
    (hf : ∀ a, FailsWith own (f a)) : FailsWith own (r >>= f) := by
  cases r with
  | error e => exact error (hr e rfl)
  | ok a => exact hf a

theorem map {r : Except Error α} (hr : FailsWith own r) (f : α → β) : FailsWith own (r.map f) := by
  cases r with
  | error e => exact error (hr e rfl)
  | ok a => exact ok (f a)

end FailsWith

/-! ### Replies -/

namespace Reply

/-- An answer with the given status word. -/
def ofStatus (d : Bytes) (status : Nat) : Reply :=
  .answer (d ++ Bytes.ofNat 2 status)

/-- What a reply comes to: the data of a successful answer, or an error. -/
def outcome (reply : Reply) : Except Error Bytes :=
  match Link.answered reply with
  | .error fault => .error (.link fault)
  | .ok a => a.check.map fun _ => a.data

theorem answered_ofStatus (d : Bytes) {status : Nat} (h : status < 2 ^ 16) :
    Link.answered (ofStatus d status) = .ok ⟨d, status⟩ := by
  have hlength : (d ++ Bytes.ofNat 2 status).length = d.length + 2 := by simp
  have hmod : status % 256 ^ 2 = status := Nat.mod_eq_of_lt h
  have hofBytes : Answer.ofBytes (d ++ Bytes.ofNat 2 status) = .ok ⟨d, status⟩ := by
    rw [Answer.ofBytes, if_neg (by omega), hlength, Nat.add_sub_cancel, List.take_left,
      List.drop_left, Bytes.toNat_ofNat, hmod]
  simp only [ofStatus, Link.answered, hofBytes]

theorem outcome_ofStatus (d : Bytes) {status : Nat} (h : status < 2 ^ 16)
    (hfails : status ≠ 0x9000) :
    (ofStatus d status).outcome = .error (Answer.toError ⟨d, status⟩) := by
  simp only [outcome, answered_ofStatus d h, Answer.check, Answer.isSuccess, beq_iff_eq, hfails,
    if_false]
  rfl

/-- The errors of replies. -/
inductive Fault : Error → Prop
  | link (fault : LinkFault) : Fault (.link fault)
  | locked : Fault .deviceLocked
  | rejected : Fault .signRejected
  | device (status : Nat) : Fault (.device status (statusMessage status))

theorem fault_of_outcome {reply : Reply} {e : Error} (h : reply.outcome = .error e) : Fault e := by
  unfold outcome at h
  split at h
  next fault _ => exact Except.error.inj h ▸ .link fault
  next a _ =>
    unfold Answer.check at h
    split at h
    next => cases h
    next =>
      obtain rfl : a.toError = e := Except.error.inj h
      unfold Answer.toError
      split
      · exact .locked
      · split
        · exact .rejected
        · exact .device a.status

end Reply

/-! ### Endings -/

namespace Exchange

variable {α β : Type} {g : Error → Error} {own : Error → Prop}

/-- How an operation ends that takes replies from the front: with all of them successes, by a result
or an error of its own; with one that is none; or with no reply left. The errors of replies are
reported by `g`. -/
inductive Ended (g : Error → Error) (own : Error → Prop) (replies rest : List Reply) :
    Except Error α → Prop
  | done {answers : List Bytes} (h : replies = answers.map success ++ rest) (a : α) :
      Ended g own replies rest (.ok a)
  | own {answers : List Bytes} {e : Error} (h : replies = answers.map success ++ rest)
      (he : own e) : Ended g own replies rest (.error e)
  | failed {answers : List Bytes} {reply : Reply} {e : Error}
      (h : replies = answers.map success ++ reply :: rest) (he : reply.outcome = .error e) :
      Ended g own replies rest (.error (g e))
  | gone {answers : List Bytes} (h : replies = answers.map success) (hrest : rest = []) :
      Ended g own replies rest (.error (g (.link .disconnected)))

theorem success_eq (d : Bytes) : success d = .ofStatus d 0x9000 := by
  have hword : Bytes.ofNat 2 0x9000 = [0x90, 0x00] := by decide
  rw [success, Reply.ofStatus, hword]

theorem outcome_success (d : Bytes) : (success d).outcome = .ok d := by
  rw [success_eq, Reply.outcome, Reply.answered_ofStatus d (by decide)]
  rfl

theorem eq_success {reply : Reply} {d : Bytes} (h : reply.outcome = .ok d) : reply = success d := by
  unfold Reply.outcome at h
  split at h
  next => cases h
  next answer hanswered =>
    cases hcheck : answer.check with
    | error e =>
      rw [hcheck] at h
      cases h
    | ok u =>
      rw [hcheck] at h
      obtain rfl : answer.data = d := Except.ok.inj h
      exact Link.answered_success hanswered hcheck

namespace Ended

variable {own' : Error → Prop} {replies rest : List Reply} {r : Except Error α}

/-- Successes in front change nothing. -/
theorem prepend (h : Ended g own replies rest r) (answers : List Bytes) :
    Ended g own (answers.map success ++ replies) rest r := by
  cases h with
  | done h a => exact .done (by rw [h, ← List.append_assoc, ← List.map_append]) a
  | own h he => exact .own (by rw [h, ← List.append_assoc, ← List.map_append]) he
  | failed h he => exact .failed (by rw [h, ← List.append_assoc, ← List.map_append]) he
  | gone h hrest => exact .gone (by rw [h, ← List.map_append]) hrest

theorem mono (h : Ended g own replies rest r) (hown : ∀ e, own e → own' e) :
    Ended g own' replies rest r := by
  cases h with
  | done h a => exact .done h a
  | own h he => exact .own h (hown _ he)
  | failed h he => exact .failed h he
  | gone h hrest => exact .gone h hrest

/-- Errors may be reported in another form. -/
theorem reported (h : Ended id own replies rest r) (g : Error → Error)
    (hown : ∀ e, own e → own' (g e)) : Ended g own' replies rest (r.mapError g) := by
  cases h with
  | done h a => exact .done h a
  | own h he => exact .own h (hown _ he)
  | failed h he => exact .failed h he
  | gone h hrest => exact .gone h hrest

/-- A reply that was taken and is no success is what the operation fails with. -/
theorem taken (h : Ended g own replies rest r) :
    ∃ taken, replies = taken ++ rest ∧
      ∀ reply ∈ taken, ∀ e, reply.outcome = .error e → r = .error (g e) := by
  have hsuccess {answers : List Bytes} {reply : Reply} {e : Error} {P : Prop}
      (hmem : reply ∈ answers.map success) (he : reply.outcome = .error e) : P := by
    obtain ⟨d, -, rfl⟩ := List.mem_map.mp hmem
    rw [outcome_success] at he
    cases he
  cases h with
  | done h a => exact ⟨_, h, fun _ hmem _ he => hsuccess hmem he⟩
  | own h _ => exact ⟨_, h, fun _ hmem _ he => hsuccess hmem he⟩
  | @failed answers last e h hlast =>
    refine ⟨answers.map success ++ [last], by rw [h, List.append_assoc]; rfl, ?_⟩
    intro reply hmem e' he'
    rcases List.mem_append.mp hmem with hmem | hmem
    · exact hsuccess hmem he'
    · obtain rfl := List.mem_singleton.mp hmem
      rw [hlast] at he'
      rw [Except.error.inj he']
  | gone h hrest =>
    exact ⟨_, by rw [h, hrest, List.append_nil], fun _ hmem _ he => hsuccess hmem he⟩

/-- What an operation fails with is an error of its own, or that of a reply. -/
theorem error {e : Error} (h : Ended g own replies rest r) (hr : r = .error e) :
    own e ∨ ∃ e', Reply.Fault e' ∧ e = g e' := by
  cases h with
  | done h a => cases hr
  | own h he => exact .inl (Except.error.inj hr ▸ he)
  | failed h he => exact .inr ⟨_, Reply.fault_of_outcome he, (Except.error.inj hr).symm⟩
  | gone h => exact .inr ⟨_, .link .disconnected, (Except.error.inj hr).symm⟩

end Ended

/-- However the device replies, the operation ends in one of these ways. -/
def Ends (g : Error → Error) (own : Error → Prop) (x : Exchange α) : Prop :=
  ∀ link, Ended g own link.replies (x.on link).2.replies (x.on link).1

theorem Ends.mono {own' : Error → Prop} {x : Exchange α} (h : Ends g own x)
    (hown : ∀ e, own e → own' e) : Ends g own' x :=
  fun link => (h link).mono hown

theorem ends_lift {r : Except Error α} (h : FailsWith own r) : Ends g own (lift r) := by
  intro link
  have hnone : link.replies = [].map success ++ link.replies := rfl
  cases r with
  | ok a => exact .done hnone a
  | error e => exact .own hnone (h e rfl)

theorem ends_pure (a : α) : Ends g own (pure a : Exchange α) := ends_lift (.ok a)

/-- A command comes to what its reply comes to. -/
theorem on_data (a : Apdu) (link : Link) :
    (data a).on link =
      match link.replies with
      | [] => (.error (.link .disconnected), { link with log := link.log ++ [.send a] })
      | reply :: rest =>
        (reply.outcome, { link with log := link.log ++ [.send a], replies := rest }) := by
  unfold data
  rw [on_bind]
  simp only [on, send, Reply.outcome]
  cases hreplies : link.replies with
  | nil => rfl
  | cons reply rest =>
    simp only
    cases Link.answered reply with
    | error fault => rfl
    | ok answer =>
      simp only
      cases hcheck : answer.check with
      | error e => rfl
      | ok u => rfl

theorem ends_data (a : Apdu) : Ends id own (data a) := by
  intro link
  rw [on_data]
  cases hreplies : link.replies with
  | nil =>
    have hnone : ([] : List Reply) = [].map success := rfl
    exact .gone hnone rfl
  | cons reply rest =>
    simp only
    cases houtcome : reply.outcome with
    | error e =>
      have hfirst : reply :: rest = [].map success ++ reply :: rest := rfl
      exact .failed hfirst houtcome
    | ok d =>
      have hone : reply :: rest = [d].map success ++ rest := by
        rw [eq_success houtcome]
        rfl
      exact .done hone d

theorem Ends.bind {x : Exchange α} {f : α → Exchange β} (hx : Ends g own x)
    (hf : ∀ a, Ends g own (f a)) : Ends g own (x >>= f) := by
  intro link
  have h := hx link
  rw [on_bind]
  rcases hrun : x.on link with ⟨e | a, between⟩
  · rw [hrun] at h
    simp only at h ⊢
    cases h with
    | own h he => exact .own h he
    | failed h he => exact .failed h he
    | gone h hrest => exact .gone h hrest
  · rw [hrun] at h
    simp only at h ⊢
    cases h with
    | done h _ =>
      rw [h]
      exact (hf a between).prepend _

theorem ends_dataOfLast (before : Bytes) (as : List Apdu) : Ends id own (dataOfLast before as) := by
  induction as generalizing before with
  | nil => exact ends_pure before
  | cons a as ih => exact (ends_data a).bind fun d => ih d

end Exchange

end Countersign
