import Countersign.Proofs.Approval.Resolution

/-!
# Tickets that share an id

A source of ids may yield the id of a ticket whose request has been decided while its owner still
holds it. The end of that ticket then takes the request that is pending under the id by now, and the
owner of that request is told that it was abandoned. This is the only way to lose a request: one
that nobody decided, timed out or dropped stays pending exactly as long as no other ticket with its
id ends.
-/
namespace Countersign.Approval.Docket

/-- Some action of a run ends another ticket with the id of the request. -/
def Robbed (q : Request) (n : Nat) (d : Docket) (as : List Action) : Prop :=
  ∃ before a after, as = before ++ a :: after ∧ robs q n (d.run before) a = true

theorem robbed_nil (q : Request) (n : Nat) (d : Docket) : ¬Robbed q n d [] := by
  rintro ⟨before, a, after, h, _⟩
  simp at h

theorem robbed_cons (q : Request) (n : Nat) (d : Docket) (a : Action) (as : List Action) :
    Robbed q n d (a :: as) ↔ robs q n d a = true ∨ Robbed q n (d.act a) as := by
  constructor
  · rintro ⟨before, b, after, h, hr⟩
    cases before with
    | nil =>
      obtain ⟨rfl, rfl⟩ := List.cons.inj h
      exact .inl hr
    | cons c before =>
      obtain ⟨rfl, rfl⟩ := List.cons.inj h
      exact .inr ⟨before, b, after, rfl, hr⟩
  · rintro (hr | ⟨before, b, after, rfl, hr⟩)
    · exact ⟨[], a, as, rfl, hr⟩
    · exact ⟨a :: before, b, after, rfl, hr⟩

/-- Where nobody says a word on a request, all that can be said is that it is lost. -/
theorem first?_wordOrLoss_none {q : Request} {n : Nat} {d : Docket} {as : List Action}
    (h : first? (word q n) d as = none) :
    first? (wordOrLoss q n) d as = none ↔ ¬Robbed q n d as := by
  induction as generalizing d with
  | nil => simp [first?, robbed_nil]
  | cons a as ih =>
    have hw : word q n d a = none := by
      cases hw : word q n d a with
      | none => rfl
      | some f => simp [first?, hw] at h
    have hrest : first? (word q n) (d.act a) as = none := by simpa only [first?, hw] using h
    rw [robbed_cons, not_or]
    by_cases hr : robs q n d a = true
    · simp [first?, wordOrLoss, hr]
    · simpa [first?, wordOrLoss, hr, hw] using ih hrest

/-! ### What is said first, for any source of ids -/

/-- The request has met its fate, except that a wait may have expired over another request with the
same id. -/
def Settled (q : Request) (n : Nat) (d : Docket) (f : Fate) : Prop :=
  Follows q n d (some f) ∨
    ∃ t, d.tickets[n]? = some t ∧ t.id = q.id ∧ t.stage = .ended .timedOut

theorem Settled.decided {q : Request} {n : Nat} {d : Docket} {f : Fate} (h : Settled q n d f) :
    ∃ t, d.tickets[n]? = some t ∧ t.id = q.id ∧ t.undecided = false := by
  rcases h with h | ⟨t, ht, hid, hs⟩
  · exact h.decided
  · exact ⟨t, ht, hid, by simp [Ticket.undecided, Ticket.alive, Stage.alive, hs]⟩

theorem Settled.act {q : Request} {n : Nat} {d : Docket} {f : Fate} (h : Settled q n d f)
    (hc : Coherent d) (a : Action) : Settled q n (d.act a) f := by
  rcases h with h | ⟨t, ht, hid, hs⟩
  · rcases h.act_or_expires hc a with h | ⟨t, _, hid, _, _, ht⟩
    · exact .inl h
    · exact .inr ⟨_, ht, hid, rfl⟩
  · have hdead : t.alive = false := by simp [Ticket.alive, Stage.alive, hs]
    obtain ⟨s, ht', hm⟩ := hc.act_decided ht (by simp [Ticket.undecided, hdead]) a
    exact .inr ⟨_, ht', hid, (hm.dead hdead).trans hs⟩

theorem Settled.run {q : Request} {n : Nat} {d : Docket} {f : Fate} (h : Settled q n d f)
    (hc : Coherent d) (as : List Action) : Settled q n (d.run as) f := by
  induction as generalizing d with
  | nil => exact h
  | cons a as ih => exact ih (h.act hc a) (hc.act a)

/-- The first word or loss settles a pending request, and without one it stays pending. -/
theorem Coherent.first?_settles {d : Docket} (h : Coherent d) {q : Request} {n : Nat}
    (he : ⟨q.id, q, n⟩ ∈ d.pending) (as : List Action) :
    (first? (wordOrLoss q n) d as = none ∧ ⟨q.id, q, n⟩ ∈ (d.run as).pending) ∨
      ∃ f, first? (wordOrLoss q n) d as = some f ∧ Settled q n (d.run as) f := by
  induction as generalizing d with
  | nil => exact .inl ⟨rfl, he⟩
  | cons a as ih =>
    have hact := h.follows_act he a
    cases hw : wordOrLoss q n d a with
    | none =>
      rw [hw] at hact
      simpa only [first?, hw, run_cons] using ih (h.act a) hact
    | some f =>
      rw [hw] at hact
      have hs : Settled q n (d.act a) f := .inl hact
      exact .inr ⟨f, by simp only [first?, hw], hs.run (h.act a) as⟩

/-- A request is still pending exactly if it has met neither a word nor a loss. -/
theorem Coherent.pending_iff {d : Docket} (h : Coherent d) {q : Request} {n : Nat}
    (he : ⟨q.id, q, n⟩ ∈ d.pending) (as : List Action) :
    ⟨q.id, q, n⟩ ∈ (d.run as).pending ↔ first? (wordOrLoss q n) d as = none := by
  rcases h.first?_settles he as with ⟨hnone, hp⟩ | ⟨f, hsome, hs⟩
  · simp [hnone, hp]
  · obtain ⟨t, ht, _, hu⟩ := hs.decided
    have hp : ⟨q.id, q, n⟩ ∉ (d.run as).pending := fun hp => (h.run as).ticket_ne ht hu hp rfl
    simp [hsome, hp]

theorem Settled.result {q : Request} {n : Nat} {d : Docket} {f : Fate} (h : Settled q n d f)
    (hc : Coherent d) {r : Except Error Json} (hr : d.result? n = some r) :
    f = .told r ∨ r = .error (.interactionTimedOut q.id) := by
  rcases h with h | ⟨t, ht, hid, hs⟩
  · exact .inl (Option.some.inj (h.result hc hr))
  · obtain ⟨u, o, hu, ho, rfl⟩ := (result?_some d n r).mp hr
    obtain rfl := ticket_eq ht hu
    rw [hs] at ho
    cases ho
    exact .inr (by rw [hid]; rfl)

/-! ### Who loses a request -/

/-- What the ends of tickets do in a docket that may draw the same id again. -/
structure Losses (d : Docket) : Prop where
  /-- What is pending is kept under its own id. -/
  key : ∀ e ∈ d.pending, e.id = e.request.id
  /-- The end of a ticket whose own request is not pending leaves the docket's requests as they are
  exactly if none of them has its id, and takes that one only. -/
  ended : ∀ a m t, d.ended? a = some m → d.tickets[m]? = some t → (∀ e ∈ d.pending, e.ticket ≠ m) →
    ((d.act a).pending = d.pending ↔ ∀ e ∈ d.pending, e.id ≠ t.id) ∧
      ∀ e, e ∈ (d.act a).pending ↔ e ∈ d.pending ∧ e.id ≠ t.id
  /-- A request that nobody decides, times out or drops stays pending exactly if no other ticket
  with its id ends. -/
  kept : ∀ q n as, ⟨q.id, q, n⟩ ∈ d.pending → first? (word q n) d as = none →
    (⟨q.id, q, n⟩ ∈ (d.run as).pending ↔ ¬Robbed q n d as)
  /-- An owner is told that its request was abandoned only if another ticket with the id ended while
  the request was pending. -/
  abandoned : ∀ q n as id, ⟨q.id, q, n⟩ ∈ d.pending →
    (d.run as).result? n = some (.error (.interactionAbandoned id)) →
    id = q.id ∧ ∃ before a after, as = before ++ a :: after ∧
      ⟨q.id, q, n⟩ ∈ (d.run before).pending ∧
      robs q n (d.run before) a = true
  /-- After such an end that is what its next look gives. -/
  robbed : ∀ q n a, ⟨q.id, q, n⟩ ∈ d.pending → robs q n d a = true →
    (((d.act a).startWait n).poll n).result? n = some (.error (.interactionAbandoned q.id))

/-- The next look of an owner whose request was lost to another ticket says so. -/
theorem Coherent.robbed_next {d : Docket} (h : Coherent d) {q : Request} {n : Nat} {a : Action}
    (he : ⟨q.id, q, n⟩ ∈ d.pending) (hrobs : robs q n d a = true) :
    (((d.act a).startWait n).poll n).result? n = some (.error (.interactionAbandoned q.id)) := by
  obtain ⟨m, t, hend, hn, ht, hid⟩ := (robs_iff q n d a).mp hrobs
  have hends := ended_ends hend ht
  obtain ⟨u, hu, huid, hua, huv⟩ := hends.robbed h he hn hid
  have hfree : (d.act a).find? u.id = none := by
    rw [find?, hends.pending, ← find?, huid, ← hid]
    exact find?_without d t.id
  rw [← huid]
  exact (h.act a).told_free hu hua huv hfree

theorem Coherent.losses {d : Docket} (h : Coherent d) : Losses d where
  key := h.key
  ended := by
    intro a m t hend ht _
    have hp := (ended_ends hend ht).pending
    refine ⟨⟨?_, ?_⟩, fun e => by rw [hp, mem_without]⟩
    · intro hsame e he
      rw [← hsame, hp] at he
      exact ((mem_without d t.id e).mp he).2
    · intro hid
      rw [hp, without_absent d t.id ((find?_none_iff d t.id).mpr hid)]
  kept := by
    intro q n as he hw
    rw [h.pending_iff he as, first?_wordOrLoss_none hw]
  abandoned := by
    intro q n as id he hr
    rcases h.first?_settles he as with ⟨_, hp⟩ | ⟨f, hf, hs⟩
    · have hfollows : Follows q n (d.run as) none := hp
      cases hfollows.result (h.run as) hr
    · rcases hs.result (h.run as) hr with rfl | hr'
      · obtain ⟨before, a, after, rfl, hnone, hw⟩ := first?_some hf
        by_cases hrobs : robs q n (d.run before) a = true
        · simp only [wordOrLoss, hrobs, if_true, Option.some.injEq, Fate.told.injEq,
            Except.error.injEq, Error.interactionAbandoned.injEq] at hw
          exact ⟨hw.symm, before, a, after, rfl, (h.pending_iff he before).mpr hnone, hrobs⟩
        · simp only [wordOrLoss, hrobs, if_false, Bool.false_eq_true] at hw
          rcases word_told hw with ⟨result, h⟩ | h | h <;> cases h
      · cases hr'
  robbed := fun q n a he hrobs => h.robbed_next he hrobs

/-- Requests are lost to tickets that share their ids and in no other way, in every run and for any
source of ids. -/
theorem lost_only_to_shared_ids (ids : Entropy) (timeout : Option Nat) (as : List Action) :
    Losses ((fresh ids timeout).run as) :=
  ((Coherent.fresh ids timeout).run as).losses

/-- The first request is approved, the second one gets the same id, and then the first owner leaves:
nobody has decided the second request, and it is gone. -/
theorem drop_takes_another :
    let id := "000000000000000000000000"
    let d := (fresh (Entropy.ofBytes [0]) none).run
      [.request "sign" true .null, .approve id (.bool true), .request "sign" false .null]
    let q : Request := ⟨id, "sign", false, .null⟩
    d.pending = [⟨q.id, q, 1⟩] ∧ d.ended? (.drop 0) = some 0 ∧ word q 1 d (.drop 0) = none ∧
      (d.act (.drop 0)).pending = [] ∧
      (((d.act (.drop 0)).startWait 1).poll 1).result? 1 =
        some (.error (.interactionAbandoned id)) :=
  ⟨rfl, rfl, rfl, rfl, rfl⟩

end Countersign.Approval.Docket
