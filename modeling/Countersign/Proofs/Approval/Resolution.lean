import Countersign.Proofs.Approval.Distinct

/-!
# Exactly one resolution

In a run with distinct ids the result of a wait is what the first word on the request says: an
approval gives its value, a rejection of the id or of the type gives the refusal, an expired
deadline gives the time-out. Until then the request is pending; after it no decision changes
anything. No owner is told that its request was abandoned.
-/
namespace Countersign.Approval.Docket

/-! ### The next look of an owner -/

/-- After the start of a wait the owner of a live ticket no longer just holds it. -/
theorem startWait_ticket (d : Docket) (n : Nat) (t : Ticket) (ht : d.tickets[n]? = some t)
    (ha : t.alive = true) :
    ∃ s, (d.startWait n).tickets[n]? = some { t with stage := s } ∧ s ≠ .held ∧
      s.alive = true := by
  obtain ⟨id, verdict, stage⟩ := t
  cases stage with
  | held => exact ⟨.waiting (d.patience.map (d.now + ·)), by simp [startWait, ht], by simp, rfl⟩
  | waiting limit => exact ⟨.waiting limit, by simp [startWait, ht], by simp, rfl⟩
  | late => exact ⟨.late, by simp [startWait, ht], by simp, rfl⟩
  | ended o => cases ha
  | dropped => cases ha

/-- A look at a decided ticket on which its owner waits ends the wait, if nothing else is pending
under its id. -/
theorem Coherent.look_verdict {d d' : Docket} (h : Coherent d) {n : Nat} {t : Ticket} {v : Verdict}
    (ht : d.tickets[n]? = some t) (ha : t.alive = true) (hs : t.stage ≠ .held)
    (hv : t.verdict = some v) (hid : ∀ e ∈ d.pending, e.id = t.id → e.ticket = n)
    (hl : Look d n d') : d'.result? n = some (v.outcome.result t.id) := by
  have hu : t.undecided = false := by simp [Ticket.undecided, hv]
  cases hl with
  | idle hlate hwait =>
    have hnone : t.verdict = none := by
      cases hst : t.stage with
      | held => exact absurd hst hs
      | waiting limit => exact (hwait t limit ht hst).1
      | late => exact absurd hst (hlate t ht)
      | ended o => simp [Ticket.alive, Stage.alive, hst] at ha
      | dropped => simp [Ticket.alive, Stage.alive, hst] at ha
    rw [hv] at hnone
    cases hnone
  | verdict u v' hu' ha' hv' hf =>
    obtain rfl := ticket_eq ht hu'
    rw [hv] at hv'
    cases hv'
    rw [result?_some]
    exact ⟨_, v.outcome, h.finish_decided ht hu n _, by simp, by simp⟩
  | passed u deadline hu' hs' hv' hd =>
    obtain rfl := ticket_eq ht hu'
    rw [hv] at hv'
    cases hv'
  | expired u e hu' hs' hf hn =>
    exact absurd hn (h.ticket_ne ht hu (find?_some d u.id e hf).1)
  | mistaken u e hu' hs' hf hn =>
    obtain rfl := ticket_eq ht hu'
    obtain ⟨he, hid'⟩ := find?_some d t.id e hf
    exact absurd (hid e he hid') hn
  | resumed u hu' hs' hv' hf =>
    obtain rfl := ticket_eq ht hu'
    rw [hv] at hv'
    cases hv'

theorem Coherent.told_next {d : Docket} (h : Coherent d) {n : Nat} {t : Ticket} {v : Verdict}
    (ht : d.tickets[n]? = some t) (ha : t.alive = true) (hv : t.verdict = some v)
    (hid : ∀ e ∈ d.pending, e.id = t.id → e.ticket = n) :
    ((d.startWait n).poll n).result? n = some (v.outcome.result t.id) := by
  obtain ⟨s, hs, hheld, halive⟩ := startWait_ticket d n t ht ha
  exact (h.startWait n).look_verdict (t := { t with stage := s }) hs halive hheld hv hid
    (look_poll _ n)

/-- If nothing is pending under its id any more, an owner does not take another entry for its own.
-/
theorem Coherent.told_free {d : Docket} (h : Coherent d) {n : Nat} {t : Ticket} {v : Verdict}
    (ht : d.tickets[n]? = some t) (ha : t.alive = true) (hv : t.verdict = some v)
    (hfree : d.find? t.id = none) :
    ((d.startWait n).poll n).result? n = some (v.outcome.result t.id) :=
  h.told_next ht ha hv fun e he hid => absurd hid ((find?_none_iff d t.id).mp hfree e he)

/-- A pending request whose deadline has passed is timed out by the next two looks. -/
theorem Coherent.expires_next {d : Docket} (h : Coherent d) {q : Request} {n : Nat} {t : Ticket}
    {deadline : Nat} (he : ⟨q.id, q, n⟩ ∈ d.pending) (ht : d.tickets[n]? = some t)
    (hs : t.stage = .waiting (some deadline)) (hd : deadline ≤ d.now) :
    ((d.poll n).poll n).result? n = some (.error (.interactionTimedOut q.id)) := by
  obtain ⟨⟨u, hu, _, hv, hid⟩, hf⟩ := h.of_pending he
  obtain rfl := ticket_eq ht hu
  have hlate : d.poll n = d.update n fun t => { t with stage := .late } := by
    simp [poll, ht, hs, hv, hd]
  rw [hlate, poll_expired _ n { t with stage := .late } ⟨q.id, q, n⟩ (by simp [ht]) rfl
    (by simpa [hid] using hf) rfl, result?_some]
  exact ⟨{ t with stage := .ended .timedOut }, .timedOut, by simp [ht], rfl, by
    simp [Outcome.result, hid]⟩

/-! ### The words of a run -/

/-- No word on a request says that it was abandoned. -/
theorem word_told {q : Request} {n : Nat} {d : Docket} {a : Action} {r : Except Error Json}
    (h : word q n d a = some (.told r)) :
    (∃ result, r = .ok result) ∨ r = .error .rejected ∨ r = .error (.interactionTimedOut q.id) := by
  cases a with
  | approve id result =>
    simp only [word, Option.ite_none_right_eq_some, Option.some.injEq, Fate.told.injEq] at h
    exact .inl ⟨result, h.2.symm⟩
  | reject id =>
    simp only [word, Option.ite_none_right_eq_some, Option.some.injEq, Fate.told.injEq] at h
    exact .inr (.inl h.2.symm)
  | rejectAll type =>
    simp only [word, Option.ite_none_right_eq_some, Option.some.injEq, Fate.told.injEq] at h
    exact .inr (.inl h.2.symm)
  | poll m =>
    simp only [word, Option.ite_none_right_eq_some, Option.some.injEq, Fate.told.injEq] at h
    exact .inr (.inr h.2.symm)
  | drop m => simp [word] at h
  | _ => cases h

/-- The first word of a run is said by one of its actions, and nothing is said before. -/
theorem first?_some {w : Docket → Action → Option Fate} {d : Docket} {as : List Action} {f : Fate}
    (h : first? w d as = some f) :
    ∃ before a after, as = before ++ a :: after ∧ first? w d before = none ∧
      w (d.run before) a = some f := by
  induction as generalizing d with
  | nil => cases h
  | cons a as ih =>
    cases hw : w d a with
    | some f' =>
      simp only [first?, hw, Option.some.injEq] at h
      exact ⟨[], a, as, rfl, rfl, by rw [← h]; exact hw⟩
    | none =>
      simp only [first?, hw] at h
      obtain ⟨before, a', after, rfl, hnone, hf⟩ := ih h
      exact ⟨a :: before, a', after, rfl, by simp only [first?, hw, hnone], hf⟩

theorem Follows.result {q : Request} {n : Nat} {d : Docket} {f : Option Fate}
    (h : Follows q n d f) (hc : Coherent d) {r : Except Error Json} (hr : d.result? n = some r) :
    f = some (.told r) := by
  obtain ⟨t, o, ht, hs, rfl⟩ := (result?_some d n r).mp hr
  have hdead : t.alive = false := by simp [Ticket.alive, Stage.alive, hs]
  cases f with
  | none =>
    obtain ⟨⟨u, hu, ha, _⟩, _⟩ := hc.of_pending h
    rw [ht] at hu
    cases hu
    rw [hdead] at ha
    cases ha
  | some f =>
    cases f with
    | told r' =>
      obtain ⟨u, hu, _, ⟨ha, _⟩ | ⟨o', hs', hr'⟩ | hs'⟩ := h
      · rw [ht] at hu
        cases hu
        rw [hdead] at ha
        cases ha
      · obtain rfl := ticket_eq ht hu
        rw [hs] at hs'
        cases hs'
        rw [hr']
      · obtain rfl := ticket_eq ht hu
        rw [hs] at hs'
        cases hs'
    | left =>
      obtain ⟨u, hu, _, hs'⟩ := h
      obtain rfl := ticket_eq ht hu
      rw [hs] at hs'
      cases hs'

/-! ### Resolution -/

/-- A decision on the id of a request that is no longer pending changes nothing as long as its owner
holds the ticket. -/
theorem Follows.resolve_decided {q : Request} {n : Nat} {d : Docket} {f : Fate}
    (h : Follows q n d (some f)) (hc : Coherent d) (ha : Apart d)
    (hfree : d.lives n = true ∨ ∀ e ∈ d.pending, e.id ≠ q.id) (v : Verdict) :
    d.resolve q.id v = d := by
  apply resolve_absent
  rw [find?_none_iff]
  intro e he hid
  rcases hfree with hlive | hfree
  · obtain ⟨t, ht, htid, hu⟩ := h.decided
    obtain ⟨t', ht', hta⟩ := (lives_iff d n).mp hlive
    obtain rfl := ticket_eq ht ht'
    exact hc.ticket_ne ht hu he (ha.own hc ht hta he (hid.trans htid.symm))
  · exact hfree e he hid

theorem result?_act (d : Docket) (n : Nat) (r : Except Error Json) (h : d.result? n = some r)
    (hc : Coherent d) (a : Action) : (d.act a).result? n = some r := by
  obtain ⟨t, o, ht, hs, rfl⟩ := (result?_some d n r).mp h
  have hdead : t.alive = false := by simp [Ticket.alive, Stage.alive, hs]
  obtain ⟨s, hs', hm⟩ := hc.act_decided ht (by simp [Ticket.undecided, hdead]) a
  rw [hm.dead hdead] at hs'
  rw [result?_some]
  exact ⟨t, o, hs', hs, rfl⟩

/-- The result of a wait does not change any more. -/
theorem result?_run (d : Docket) (n : Nat) (r : Except Error Json) (h : d.result? n = some r)
    (hc : Coherent d) (as : List Action) : (d.run as).result? n = some r := by
  induction as generalizing d with
  | nil => exact h
  | cons a as ih => exact ih (d.act a) (result?_act d n r h hc a) (hc.act a)

/-- What a docket owes to the owner of the request `q` with ticket `n`, which was taken in the
docket `taken`, when `first` is the first word on it. -/
structure Resolved (q : Request) (n : Nat) (taken d : Docket) (first : Option Fate) : Prop where
  /-- The result of the wait is what was said first. -/
  result : ∀ r, d.result? n = some r → first = some (.told r)
  /-- It is final. -/
  final : ∀ r as, d.result? n = some r → (d.run as).result? n = some r
  /-- What was said first is what the owner gets when it next looks. -/
  told : ∀ r, first = some (.told r) → d.lives n = true →
    ((d.startWait n).poll n).result? n = some r
  /-- As long as nothing was said the request is pending, and a deadline that has passed ends the
  wait. -/
  undecided : first = none → ⟨q.id, q, n⟩ ∈ d.pending ∧
    ∀ t deadline, d.tickets[n]? = some t → t.stage = .waiting (some deadline) → deadline ≤ d.now →
      ((d.poll n).poll n).result? n = some (.error (.interactionTimedOut q.id))
  /-- Afterwards it is not, and decisions that name its id change nothing, as long as the owner
  holds the ticket or nobody else has taken the id. -/
  decided : first ≠ none → (∀ e ∈ d.pending, e.ticket ≠ n) ∧
    ((d.lives n = true ∨ ∀ e ∈ d.pending, e.id ≠ q.id) →
      (∀ result, d.approve q.id result = d) ∧ d.reject q.id = d)
  /-- Nobody is told that the request was abandoned. -/
  kept : ∀ id, d.result? n ≠ some (.error (.interactionAbandoned id))
  /-- A wait is timed out no sooner than the patience of the docket allows. -/
  patient : d.result? n = some (.error (.interactionTimedOut q.id)) →
    ∃ ms, taken.patience = some ms ∧ taken.now + ms ≤ d.now

theorem Follows.told_next {q : Request} {n : Nat} {d : Docket} {r : Except Error Json}
    (h : Follows q n d (some (.told r))) (hc : Coherent d) (ha : Apart d) (hl : d.lives n = true) :
    ((d.startWait n).poll n).result? n = some r := by
  obtain ⟨t, ht, _, hr⟩ := h
  obtain ⟨t', ht', hta⟩ := (lives_iff d n).mp hl
  obtain rfl := ticket_eq ht ht'
  rcases hr with ⟨_, v, hv, rfl⟩ | ⟨o, hs, _⟩ | hs
  · exact hc.told_next ht hta hv fun e he hid => ha.own hc ht hta he hid
  · simp [Ticket.alive, Stage.alive, hs] at hta
  · simp [Ticket.alive, Stage.alive, hs] at hta

theorem run_patience (d : Docket) (as : List Action) : (d.run as).patience = d.patience := by
  induction as generalizing d with
  | nil => rfl
  | cons a as ih =>
    rw [run_cons, ih]
    simp only [patience, (act_clock d a).2]

/-- A pending request on which nobody has waited yet is resolved by the first word on it. -/
theorem resolved_from {q : Request} {n : Nat} {taken : Docket} (he : ⟨q.id, q, n⟩ ∈ taken.pending)
    (hc : Coherent taken) (ha : Apart taken)
    (hheld : ∀ t, taken.tickets[n]? = some t → t.stage = .held) (as : List Action)
    (hd : taken.Distinct as) :
    Resolved q n taken (taken.run as) (first? (word q n) taken as) := by
  have hf := follows_first? he hc ha as hd
  have hc' := hc.run as
  have ha' := ha.run as hd
  refine ⟨fun r hr => hf.result hc' hr, fun r bs hr => result?_run _ n r hr hc' bs, ?_, ?_, ?_, ?_,
    ?_⟩
  · intro r hr hl
    rw [hr] at hf
    exact hf.told_next hc' ha' hl
  · intro hnone
    rw [hnone] at hf
    exact ⟨hf, fun t deadline ht hs hdl => hc'.expires_next hf ht hs hdl⟩
  · intro hsome
    obtain ⟨f, hw⟩ := Option.ne_none_iff_exists'.mp hsome
    rw [hw] at hf
    constructor
    · intro e he
      obtain ⟨t, ht, _, hu⟩ := hf.decided
      exact hc'.ticket_ne ht hu he
    · intro hfree
      exact ⟨fun result => hf.resolve_decided hc' ha' hfree _, hf.resolve_decided hc' ha' hfree _⟩
  · intro id hr
    obtain ⟨before, a, after, _, _, hw⟩ := first?_some (hf.result hc' hr)
    rcases word_told hw with ⟨result, h⟩ | h | h <;> cases h
  · intro hr
    have hpunctual : Punctual taken.now n taken := by
      refine ⟨Nat.le_refl _, fun t deadline ht hs => ?_, fun t ht hs => ?_⟩
      · rw [hheld t ht] at hs
        cases hs
      · rw [hheld t ht] at hs
        simp at hs
    obtain ⟨t, o, ht, hs, ho⟩ := (result?_some _ n _).mp hr
    have hout : o = .timedOut := by
      cases o <;> simp [Outcome.result] at ho ⊢
    rw [hout] at hs
    rw [← run_patience taken as]
    exact (hpunctual.run as).elapsed t ht (.inr hs)

/-- A request that is taken is pending, and its owner does not wait yet. -/
theorem pending_taken {d : Docket} {type : String} {isInternal : Bool} {payload : Json}
    {q : Request} {n : Nat} (hq : (d.request type isInternal payload).1 = .ok (q, n)) :
    ⟨q.id, q, n⟩ ∈ (d.act (.request type isInternal payload)).pending ∧
      ∀ t, (d.act (.request type isInternal payload)).tickets[n]? = some t → t.stage = .held := by
  rcases request_cases d type isInternal payload with ⟨e, ids, hr⟩ | ⟨q', _, _, _, _, hr⟩
  · rw [hr] at hq
    cases hq
  · rw [hr] at hq
    cases hq
    simp only [act, hr]
    refine ⟨by simp, ?_⟩
    intro t ht
    simp only [List.getElem?_concat_length, Option.some.injEq] at ht
    rw [← ht]

/-- A wait in one go gives what was said first, before it or by the owner's own looks during it. -/
theorem waitWithin_first_word {q : Request} {n : Nat} {taken : Docket}
    (he : ⟨q.id, q, n⟩ ∈ taken.pending) (hc : Coherent taken) (ha : Apart taken) (as : List Action)
    (hd : taken.Distinct as) (limit : Nat) (o : Outcome)
    (ho : ((taken.run as).waitWithin n limit).1 = some o) :
    ∃ bs : List Action, (∀ b ∈ bs, b.ofOwners = true) ∧
      first? (word q n) taken (as ++ bs) = some (.told (o.result q.id)) := by
  obtain ⟨⟨bs, hbs, hrun⟩, hout⟩ := waitWithin_ownersReach (taken.run as) n limit
  have hd' : taken.Distinct (as ++ bs) :=
    (distinct_append taken as bs).mpr ⟨hd, distinct_ofOwners _ bs hbs⟩
  have hf := follows_first? he hc ha (as ++ bs) hd'
  have hleft := hout o ho
  rw [hrun, ← run_append] at hleft
  refine ⟨bs, hbs, ?_⟩
  obtain ⟨t, ht, hid⟩ := hf.ticket (hc.run (as ++ bs))
  have hr : (taken.run (as ++ bs)).result? n = some (o.result q.id) := by
    simp [result?, ht, hleft, hid]
  exact hf.result (hc.run (as ++ bs)) hr

/-- Every request that a run takes is resolved by the first word on it, if no id is drawn in the run
that a live ticket has. -/
theorem resolved_by_first_word (ids : Entropy) (timeout : Option Nat) (before after : List Action)
    (type : String) (isInternal : Bool) (payload : Json) (q : Request) (n : Nat)
    (hd : (fresh ids timeout).Distinct (before ++ .request type isInternal payload :: after))
    (hq : (((fresh ids timeout).run before).request type isInternal payload).1 = .ok (q, n)) :
    let taken := ((fresh ids timeout).run before).act (.request type isInternal payload)
    Resolved q n taken (taken.run after) (first? (word q n) taken after) := by
  obtain ⟨hdb, hnovel, hda⟩ := (distinct_append _ _ _).mp hd
  have hc := (Coherent.fresh ids timeout).run before
  have ha := (Apart.fresh ids timeout).run before hdb
  obtain ⟨hpending, hheld⟩ := pending_taken hq
  exact resolved_from hpending (hc.act _) (ha.act _ hnovel) hheld after hda

/-- An approval after the deadline, but before the owner looks at what is pending, still counts. -/
theorem late_approval_resolved :
    let ids := Entropy.ofBytes ((List.range 24).map UInt8.ofNat)
    let before : List Action := [.request "sign" true .null]
    let after : List Action :=
      [.startWait 1, .reject "000102030405060708090a0b", .pass 30000, .poll 1,
        .approve "0c0d0e0f1011121314151617" (.bool true), .poll 1]
    let q : Request := ⟨"0c0d0e0f1011121314151617", "sign", false, .null⟩
    let taken := ((fresh ids (some 30)).run before).act (.request "sign" false .null)
    (fresh ids (some 30)).Distinct (before ++ .request "sign" false .null :: after) ∧
      (((fresh ids (some 30)).run before).request "sign" false .null).1 = .ok (q, 1) ∧
      first? (word q 1) taken after = some (.told (.ok (.bool true))) ∧
      Resolved q 1 taken (taken.run after) (first? (word q 1) taken after) := by
  intro ids before after q taken
  have hd : (fresh ids (some 30)).Distinct (before ++ .request "sign" false .null :: after) := by
    refine ⟨?_, ?_, trivial, trivial, trivial, trivial, trivial, trivial, trivial⟩
    · intro _ t ht
      cases ht
    intro _ t ht
    obtain rfl : t = ⟨"000102030405060708090a0b", none, .held⟩ := List.mem_singleton.mp ht
    intro _
    decide
  have hq : (((fresh ids (some 30)).run before).request "sign" false .null).1 = .ok (q, 1) := rfl
  exact ⟨hd, hq, rfl,
    resolved_by_first_word ids (some 30) before after "sign" false .null q 1 hd hq⟩

end Countersign.Approval.Docket
