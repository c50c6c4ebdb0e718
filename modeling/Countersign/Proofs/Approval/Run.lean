import Countersign.Approval.Desk

/-!
# Runs of a docket

Everything that can happen to a docket, one action at a time and in any order. A wait is a sequence
of looks at a ticket, and its expiry is a look after the deadline followed by a look at what is
pending; other actions may come between the two. The source of ids lies outside and may be exchanged
at any moment, so a run may draw any ids at all.

What the desk does in one go (settling, letting time pass, a wait with a limit) is a run.
-/
namespace Countersign.Approval

/-- What can happen to a docket. -/
inductive Action where
  | request (type : String) (isInternal : Bool) (payload : Json)
  | approve (id : String) (result : Json)
  | reject (id : String)
  | rejectAll (type : String)
  | startWait (number : Nat)
  | poll (number : Nat)
  | drop (number : Nat)
  | pass (ms : Nat)
  | reseed (ids : Entropy)

/-- Actions that neither decide nor take requests. -/
def Action.ofOwners : Action → Bool
  | .startWait _ | .poll _ | .drop _ | .pass _ => true
  | _ => false

namespace Docket

def act (d : Docket) : Action → Docket
  | .request type isInternal payload => (d.request type isInternal payload).2
  | .approve id result => d.approve id result
  | .reject id => d.reject id
  | .rejectAll type => (d.rejectAll type).2
  | .startWait number => d.startWait number
  | .poll number => d.poll number
  | .drop number => d.drop number
  | .pass ms => { d with now := d.now + ms }
  | .reseed ids => { d with ids := ids }

def run (d : Docket) (as : List Action) : Docket := as.foldl act d

@[simp] theorem run_nil (d : Docket) : d.run [] = d := rfl
@[simp] theorem run_cons (d : Docket) (a : Action) (as : List Action) :
    d.run (a :: as) = (d.act a).run as := rfl

theorem run_append (d : Docket) (as bs : List Action) : d.run (as ++ bs) = (d.run as).run bs := by
  simp [run]

/-! ### What the desk does in one go -/

/-- A docket that owners alone can bring about from another one. -/
def OwnersReach (d d' : Docket) : Prop :=
  ∃ as : List Action, (∀ a ∈ as, a.ofOwners = true) ∧ d' = d.run as

theorem OwnersReach.refl (d : Docket) : OwnersReach d d := ⟨[], by simp, rfl⟩

theorem OwnersReach.trans {d₁ d₂ d₃ : Docket} (h : OwnersReach d₁ d₂) (h' : OwnersReach d₂ d₃) :
    OwnersReach d₁ d₃ := by
  obtain ⟨as, has, rfl⟩ := h
  obtain ⟨bs, hbs, rfl⟩ := h'
  refine ⟨as ++ bs, ?_, (run_append d₁ as bs).symm⟩
  intro a ha
  rcases List.mem_append.mp ha with ha | ha
  · exact has a ha
  · exact hbs a ha

theorem OwnersReach.act (d : Docket) (a : Action) (ha : a.ofOwners = true) :
    OwnersReach d (d.act a) :=
  ⟨[a], by simpa using ha, rfl⟩

theorem foldl_ownersReach {α : Type} (f : Docket → α → Docket)
    (hf : ∀ d x, OwnersReach d (f d x)) (xs : List α) (d : Docket) :
    OwnersReach d (xs.foldl f d) := by
  induction xs generalizing d with
  | nil => exact .refl d
  | cons x xs ih => exact (hf d x).trans (ih (f d x))

theorem pollAll_ownersReach (d : Docket) : OwnersReach d d.pollAll :=
  foldl_ownersReach poll (fun d n => .act d (.poll n) rfl) _ d

/-- Settling a docket is a run of what owners do. -/
theorem settle_ownersReach (d : Docket) : OwnersReach d d.settle :=
  foldl_ownersReach _ (fun d _ => pollAll_ownersReach d) _ d

theorem advance_ownersReach (d : Docket) (ms : Nat) : OwnersReach d (d.advance ms) :=
  (OwnersReach.act d (.pass ms) rfl).trans (settle_ownersReach _)

/-- A wait with a limit is a run of owners: it starts, looks, lets time pass, and may end in the
ticket being given up. What it gives is the outcome that it leaves behind. -/
theorem waitWithin_ownersReach (d : Docket) (n limit : Nat) :
    OwnersReach d (d.waitWithin n limit).2 ∧
      ∀ o, (d.waitWithin n limit).1 = some o → (d.waitWithin n limit).2.outcome? n = some o := by
  have hstart : OwnersReach d (d.startWait n).settle :=
    (OwnersReach.act d (.startWait n) rfl).trans (settle_ownersReach _)
  simp only [waitWithin]
  split
  next o ho => exact ⟨hstart, fun _ h => h ▸ ho⟩
  next =>
    have hwait (ms : Nat) := hstart.trans (advance_ownersReach _ ms)
    split
    next o ho => exact ⟨hwait _, fun _ h => h ▸ ho⟩
    next =>
      refine ⟨(hwait _).trans ((OwnersReach.act _ (.drop n) rfl).trans (settle_ownersReach _)), ?_⟩
      intro o h
      cases h

end Docket

/-- The desk takes a request and waits for it by a run of its docket. -/
theorem Desk.requestAndWait_run (d : Desk) (channel type : String) (isInternal : Bool)
    (payload : Json) (limit : Nat) :
    ∃ as : List Action, (∀ a ∈ as, a.ofOwners = true) ∧
      (d.requestAndWait channel type isInternal payload limit).2.docket =
        d.docket.run (.request type isInternal payload :: as) := by
  simp only [requestAndWait, request, Docket.run_cons, Docket.act]
  cases hr : d.docket.request type isInternal payload with
  | mk answer docket =>
    cases answer with
    | error e => exact ⟨[], by simp, rfl⟩
    | ok taken =>
      obtain ⟨as, has, hd⟩ := (Docket.waitWithin_ownersReach docket taken.2 limit).1
      exact ⟨as, has, hd⟩

end Countersign.Approval
