import Countersign.Proofs.Approval.Coherence

/-!
# What becomes of a request

The fate of a request is read off the actions alone: what the first action that concerns it says to
its owner. An action concerns a request if it names its id or its type, if it is a look of the owner
after the deadline, if it drops the ticket, or if it ends another ticket with the same id. The
docket follows this reading in every run.
-/
namespace Countersign.Approval

/-- What is said to the owner of a request: the result of the wait, or nothing to one who left. -/
inductive Fate where
  | told (result : Except Error Json)
  | left

/-- The deadline has passed, and the owner has yet to look at what is pending. -/
def Ticket.isLate (t : Ticket) : Bool :=
  match t.stage with
  | .late => true
  | _ => false

/-- The owner is told this result by the next look, was told it, or left before that. -/
def Ticket.Answers (t : Ticket) (r : Except Error Json) : Prop :=
  (t.alive = true ∧ ∃ v, t.verdict = some v ∧ v.outcome.result t.id = r) ∨
  (∃ o, t.stage = .ended o ∧ o.result t.id = r) ∨
  t.stage = .dropped

namespace Docket

def lives (d : Docket) (n : Nat) : Bool := (d.tickets[n]?).any Ticket.alive

def isLate (d : Docket) (n : Nat) : Bool := (d.tickets[n]?).any Ticket.isLate

/-- The result of a wait that is over. -/
def result? (d : Docket) (n : Nat) : Option (Except Error Json) :=
  (d.tickets[n]?).bind fun t => (d.outcome? n).map (Outcome.result t.id)

/-- What an action says about the request `q`, whose ticket is `n`. -/
def word (q : Request) (n : Nat) (d : Docket) : Action → Option Fate
  | .approve id result => if id = q.id then some (.told (.ok result)) else none
  | .reject id => if id = q.id then some (.told (.error .rejected)) else none
  | .rejectAll type => if type = q.type then some (.told (.error .rejected)) else none
  | .poll m => if m = n ∧ d.isLate n = true then some (.told (.error (.interactionTimedOut q.id)))
    else none
  | .drop m => if m = n then some .left else none
  | _ => none

/-- The ticket that an action ends: its owner drops it, or its wait is over. -/
def ended? (d : Docket) : Action → Option Nat
  | .drop m => if d.lives m then some m else none
  | .poll m => if d.lives m ∧ (d.poll m).lives m = false then some m else none
  | _ => none

/-- The action ends another ticket with the id of the request. -/
def robs (q : Request) (n : Nat) (d : Docket) (a : Action) : Bool :=
  match d.ended? a with
  | some m => m != n && (d.tickets[m]?).any fun t => t.id == q.id
  | none => false

/-- What an action says about a request when tickets may share their ids. -/
def wordOrLoss (q : Request) (n : Nat) (d : Docket) (a : Action) : Option Fate :=
  if robs q n d a = true then some (.told (.error (.interactionAbandoned q.id))) else word q n d a

/-- The first thing that is said in a run. -/
def first? (w : Docket → Action → Option Fate) : Docket → List Action → Option Fate
  | _, [] => none
  | d, a :: as =>
    match w d a with
    | some f => some f
    | none => first? w (d.act a) as

/-- The docket stands to the request `q` with ticket `n` as its fate says. -/
def Follows (q : Request) (n : Nat) (d : Docket) : Option Fate → Prop
  | none => ⟨q.id, q, n⟩ ∈ d.pending
  | some (.told r) => ∃ t, d.tickets[n]? = some t ∧ t.id = q.id ∧ t.Answers r
  | some .left => ∃ t, d.tickets[n]? = some t ∧ t.id = q.id ∧ t.stage = .dropped

theorem lives_iff (d : Docket) (n : Nat) :
    d.lives n = true ↔ ∃ t, d.tickets[n]? = some t ∧ t.alive = true := by
  simp [lives, Option.any_eq_true]

theorem isLate_iff (d : Docket) (n : Nat) :
    d.isLate n = true ↔ ∃ t, d.tickets[n]? = some t ∧ t.stage = .late := by
  have h (t : Ticket) : t.isLate = true ↔ t.stage = .late := by
    cases hs : t.stage <;> simp [Ticket.isLate, hs]
  simp [isLate, Option.any_eq_true, h]

theorem result?_some (d : Docket) (n : Nat) (r : Except Error Json) :
    d.result? n = some r ↔ ∃ t o, d.tickets[n]? = some t ∧ t.stage = .ended o ∧
      o.result t.id = r := by
  cases ht : d.tickets[n]? with
  | none => simp [result?, ht]
  | some t => cases hs : t.stage <;> simp [result?, outcome?, ht, hs]

/-- A ticket is ended by its owner, who looks at it or drops it. -/
theorem ended?_some {d : Docket} {a : Action} {m : Nat} (h : d.ended? a = some m) :
    (a = .poll m ∨ a = .drop m) ∧ d.lives m = true := by
  cases a with
  | drop k =>
    simp only [ended?, Option.ite_none_right_eq_some, Option.some.injEq] at h
    obtain ⟨hl, rfl⟩ := h
    exact ⟨.inr rfl, hl⟩
  | poll k =>
    simp only [ended?, Option.ite_none_right_eq_some, Option.some.injEq] at h
    obtain ⟨⟨hl, _⟩, rfl⟩ := h
    exact ⟨.inl rfl, hl⟩
  | _ => simp [ended?] at h

theorem robs_iff (q : Request) (n : Nat) (d : Docket) (a : Action) :
    robs q n d a = true ↔
      ∃ m t, d.ended? a = some m ∧ m ≠ n ∧ d.tickets[m]? = some t ∧ t.id = q.id := by
  cases he : d.ended? a <;> simp [robs, he, Option.any_eq_true]

/-! ### A pending request -/

theorem Coherent.of_pending {d : Docket} (h : Coherent d) {q : Request} {n : Nat}
    (he : ⟨q.id, q, n⟩ ∈ d.pending) :
    (∃ t, d.tickets[n]? = some t ∧ t.alive = true ∧ t.verdict = none ∧ t.id = q.id) ∧
      d.find? q.id = some ⟨q.id, q, n⟩ := by
  obtain ⟨t, ht, hu, hid⟩ := h.ticket _ he
  obtain ⟨ha, hv⟩ := (Ticket.undecided_iff t).mp hu
  exact ⟨⟨t, ht, ha, hv, hid⟩, h.find?_of_mem he⟩

/-- A verdict under its own id is left at the ticket of a pending request. -/
theorem Coherent.resolve_own {d : Docket} (h : Coherent d) {q : Request} {n : Nat}
    (he : ⟨q.id, q, n⟩ ∈ d.pending) (v : Verdict) :
    ∃ t, (d.resolve q.id v).tickets[n]? = some t ∧ t.id = q.id ∧ t.alive = true ∧
      t.verdict = some v := by
  obtain ⟨⟨t, ht, ha, _, hid⟩, hf⟩ := h.of_pending he
  refine ⟨{ t with verdict := some v }, ?_, hid, ha, rfl⟩
  rw [tickets_resolve d q.id v _ hf, if_pos rfl, ht]
  rfl

theorem Coherent.follows_resolve {d : Docket} (h : Coherent d) {q : Request} {n : Nat}
    (he : ⟨q.id, q, n⟩ ∈ d.pending) (id : String) (v : Verdict) :
    Follows q n (d.resolve id v)
      (if id = q.id then some (.told (v.outcome.result q.id)) else none) := by
  by_cases hid : id = q.id
  · subst hid
    obtain ⟨t, ht, htid, ha, hv⟩ := h.resolve_own he v
    simp only [if_true]
    exact ⟨t, ht, htid, .inl ⟨ha, v, hv, by rw [htid]⟩⟩
  · simp only [hid, if_false]
    exact (mem_resolve d id v _).mpr ⟨he, fun h' => hid h'.symm⟩

/-- A ticket that is decided or over gets no further verdict. -/
theorem Coherent.resolve_decided {d : Docket} (h : Coherent d) {n : Nat} {t : Ticket}
    (ht : d.tickets[n]? = some t) (hu : t.undecided = false) (id : String) (v : Verdict) :
    (d.resolve id v).tickets[n]? = some t := by
  cases hf : d.find? id with
  | none => rw [resolve_absent d id v hf, ht]
  | some e =>
    have hn := h.ticket_ne ht hu (find?_some d id e hf).1
    rw [tickets_resolve d id v e hf, if_neg hn, ht]

theorem Coherent.rejectEach_decided {d : Docket} (h : Coherent d) {n : Nat} {t : Ticket}
    (ht : d.tickets[n]? = some t) (hu : t.undecided = false) (ids : List String) :
    (ids.foldl Docket.reject d).tickets[n]? = some t := by
  induction ids generalizing d with
  | nil => exact ht
  | cons id ids ih => exact ih (h.resolve id .rejected) (h.resolve_decided ht hu id .rejected)

/-- Rejecting ids one after the other rejects a pending request if its id is among them. -/
theorem Coherent.follows_rejectEach {d : Docket} (h : Coherent d) {q : Request} {n : Nat}
    (he : ⟨q.id, q, n⟩ ∈ d.pending) (ids : List String) :
    Follows q n (ids.foldl Docket.reject d)
      (if q.id ∈ ids then some (.told (.error .rejected)) else none) := by
  induction ids generalizing d with
  | nil => simpa [Follows] using he
  | cons id ids ih =>
    by_cases hid : id = q.id
    · subst hid
      obtain ⟨t, ht, htid, ha, hv⟩ := h.resolve_own he .rejected
      have hu : t.undecided = false := by simp [Ticket.undecided, hv]
      have hrest := (h.resolve q.id .rejected).rejectEach_decided ht hu ids
      simp only [List.mem_cons, true_or, if_true]
      exact ⟨t, hrest, htid, .inl ⟨ha, .rejected, hv, rfl⟩⟩
    · have hp : ⟨q.id, q, n⟩ ∈ (d.resolve id .rejected).pending :=
        (mem_resolve d id .rejected _).mpr ⟨he, fun h' => hid h'.symm⟩
      have hmem : q.id ∈ id :: ids ↔ q.id ∈ ids := by
        simp [show q.id ≠ id from fun h' => hid h'.symm]
      simp only [hmem]
      exact ih (h.resolve id .rejected) hp

/-- The ids that are rejected with a type are those of the pending requests of that type. -/
theorem Coherent.mem_pendingOf {d : Docket} (h : Coherent d) {q : Request} {n : Nat}
    (he : ⟨q.id, q, n⟩ ∈ d.pending) (type : String) :
    q.id ∈ (d.pendingOf type).map Request.id ↔ type = q.type := by
  simp only [pendingOf, List.mem_map, List.mem_filter, beq_iff_eq]
  constructor
  · rintro ⟨q', ⟨⟨e, he', rfl⟩, htype⟩, hid⟩
    rw [h.eq_of_id he' he ((h.key e he').trans hid)] at htype
    exact htype.symm
  · intro htype
    exact ⟨q, ⟨⟨⟨q.id, q, n⟩, he, rfl⟩, htype.symm⟩, rfl⟩

/-- Without another ticket's end, what is said is the word of the action. -/
theorem wordOrLoss_own (q : Request) (n : Nat) (d : Docket) (a : Action)
    (h : ∀ m, d.ended? a = some m → m = n) : wordOrLoss q n d a = word q n d a := by
  have hr : ¬robs q n d a = true := by
    rw [robs_iff]
    rintro ⟨m, t, he, hn, -⟩
    exact hn (h m he)
  simp [wordOrLoss, hr]

theorem lives_update (d : Docket) (n : Nat) (s : Stage) (t : Ticket)
    (ht : d.tickets[n]? = some t) :
    (d.update n fun t => { t with stage := s }).lives n = s.alive := by
  simp [lives, ht, Ticket.alive]

/-- How a docket comes out of the end of a ticket: whatever is pending under its id is lost, or,
when the wait expires, it is the ticket's own request that is removed. -/
inductive Ends (d : Docket) (m : Nat) (t : Ticket) : Docket → Prop where
  | takes (s : Stage) : Ends d m t ((d.resolve t.id .lost).update m fun t => { t with stage := s })
  | expires (e : Entry) (hf : d.find? t.id = some e) (hn : e.ticket = m) :
      Ends d m t ((d.without t.id).update m fun t => { t with stage := .ended .timedOut })

theorem Ends.pending {d d' : Docket} {m : Nat} {t : Ticket} (h : Ends d m t d') :
    d'.pending = (d.without t.id).pending := by
  cases h with
  | takes s => exact pending_resolve d t.id .lost
  | expires e hf hn => rfl

/-- A look of a live ticket's owner goes on with the wait, or ends the ticket. -/
theorem look_ends {d d' : Docket} {m : Nat} {t : Ticket} (hl : Look d m d')
    (ht : d.tickets[m]? = some t) (ha : t.alive = true) :
    d'.lives m = true ∧ d'.pending = d.pending ∨ d'.lives m = false ∧ Ends d m t d' := by
  cases hl with
  | idle hl hw => exact .inl ⟨(lives_iff d m).mpr ⟨t, ht, ha⟩, rfl⟩
  | verdict u v hu ha' hv hf =>
    obtain ⟨w, hw, -, -⟩ := resolve_stage d t.id .lost m t ht
    rw [finish_eq d m _ t ht]
    exact .inr ⟨lives_update _ m _ w hw, .takes _⟩
  | passed u deadline hu hs hv hd => exact .inl ⟨lives_update d m .late u hu, rfl⟩
  | expired u e hu hs hf hn =>
    obtain rfl := ticket_eq ht hu
    exact .inr ⟨lives_update (d.without t.id) m _ t ht, .expires e hf hn⟩
  | mistaken u e hu hs hf hn =>
    obtain rfl := ticket_eq ht hu
    obtain ⟨w, hw, -, -⟩ := resolve_stage d t.id .lost m t ht
    exact .inr ⟨lives_update _ m _ w hw, .takes _⟩
  | resumed u hu hs hv hf => exact .inl ⟨lives_update d m (.waiting none) u hu, rfl⟩

/-- Looking at a ticket or dropping it ends that ticket or leaves everything pending. -/
theorem ends_cases (d : Docket) (m : Nat) (a : Action) (ha : a = .poll m ∨ a = .drop m) :
    d.ended? a = none ∧ (d.act a).pending = d.pending ∨
      d.ended? a = some m ∧ ∃ t, d.tickets[m]? = some t ∧ t.alive = true ∧
        Ends d m t (d.act a) := by
  by_cases hlive : d.lives m = true
  · obtain ⟨t, ht, hta⟩ := (lives_iff d m).mp hlive
    rcases ha with rfl | rfl
    · rcases look_ends (look_poll d m) ht hta with ⟨hl, hp⟩ | ⟨hl, he⟩
      · exact .inl ⟨by simp [ended?, hl], hp⟩
      · exact .inr ⟨by simp [ended?, hlive, hl], t, ht, hta, he⟩
    · refine .inr ⟨by simp [ended?, hlive], t, ht, hta, ?_⟩
      rw [act, drop_alive d m t ht hta, finish_eq d m _ t ht]
      exact .takes _
  · have hdead (t : Ticket) (ht : d.tickets[m]? = some t) : t.alive = false := by
      simpa [lives, ht] using hlive
    rcases ha with rfl | rfl
    · exact .inl ⟨by simp [ended?, hlive], by rw [act, poll_dead d m hdead]⟩
    · exact .inl ⟨by simp [ended?, hlive], by rw [act, drop_dead d m hdead]⟩

theorem ended_ends {d : Docket} {a : Action} {m : Nat} {t : Ticket} (hend : d.ended? a = some m)
    (ht : d.tickets[m]? = some t) : Ends d m t (d.act a) := by
  rcases ends_cases d m a (ended?_some hend).1 with ⟨hnone, _⟩ | ⟨_, u, hu, _, he⟩
  · rw [hend] at hnone
    cases hnone
  · rwa [ticket_eq ht hu]

/-- The owner of a pending request is left the loss when another ticket with the id ends. -/
theorem Ends.robbed {d d' : Docket} {m : Nat} {t : Ticket} (hend : Ends d m t d') (h : Coherent d)
    {q : Request} {n : Nat} (he : ⟨q.id, q, n⟩ ∈ d.pending) (hn : m ≠ n) (hid : t.id = q.id) :
    ∃ u, d'.tickets[n]? = some u ∧ u.id = q.id ∧ u.alive = true ∧ u.verdict = some .lost := by
  cases hend with
  | takes s =>
    obtain ⟨u, hu, hu'⟩ := h.resolve_own he .lost
    exact ⟨u, by rw [tickets_update, if_neg hn, hid, hu], hu'⟩
  | expires e hf hne =>
    rw [hid, h.find?_of_mem he] at hf
    cases hf
    exact absurd hne.symm hn

/-- The end of another ticket takes a pending request with it exactly if they share the id. -/
theorem Coherent.follows_ends {d d' : Docket} (h : Coherent d) {q : Request} {n : Nat}
    (he : ⟨q.id, q, n⟩ ∈ d.pending) {m : Nat} (hn : m ≠ n) {t : Ticket} (hend : Ends d m t d') :
    Follows q n d'
      (if t.id = q.id then some (.told (.error (.interactionAbandoned q.id))) else none) := by
  by_cases hid : t.id = q.id
  · obtain ⟨u, hu, huid, ha, hv⟩ := hend.robbed h he hn hid
    rw [if_pos hid]
    exact ⟨u, hu, huid, .inl ⟨ha, .lost, hv, by rw [huid]; rfl⟩⟩
  · rw [if_neg hid, Follows, hend.pending, mem_without]
    exact ⟨he, fun h' => hid h'.symm⟩

/-- The owner of another ticket looks at it or drops it. -/
theorem Coherent.follows_other {d : Docket} (h : Coherent d) {q : Request} {n m : Nat}
    (he : ⟨q.id, q, n⟩ ∈ d.pending) (hn : m ≠ n) (a : Action) (ha : a = .poll m ∨ a = .drop m) :
    Follows q n (d.act a) (wordOrLoss q n d a) := by
  have hw : word q n d a = none := by
    rcases ha with rfl | rfl <;> simp [word, hn]
  rcases ends_cases d m a ha with ⟨hnone, hp⟩ | ⟨hsome, t, ht, _, hend⟩
  · rw [wordOrLoss_own q n d a (by simp [hnone]), hw, Follows, hp]
    exact he
  · have hf := h.follows_ends he hn hend
    by_cases hid : t.id = q.id <;> simpa [wordOrLoss, robs, hsome, hn, ht, hid, hw] using hf

/-- The owner of a pending request looks at its ticket. -/
theorem Coherent.follows_look {d d' : Docket} (h : Coherent d) {q : Request} {n : Nat}
    (he : ⟨q.id, q, n⟩ ∈ d.pending) (hl : Look d n d') :
    Follows q n d' (if d.isLate n = true then
      some (.told (.error (.interactionTimedOut q.id))) else none) := by
  obtain ⟨⟨u, hu, ha, hv, hid⟩, hf⟩ := h.of_pending he
  cases hl with
  | idle hl hw =>
    have hlate : ¬d.isLate n = true := by
      rw [isLate_iff]
      rintro ⟨t, ht, hs⟩
      exact hl t ht hs
    rw [if_neg hlate]
    exact he
  | verdict t v ht ha' hv' hf' =>
    obtain rfl := ticket_eq ht hu
    rw [hv] at hv'
    cases hv'
  | passed t deadline ht hs hv' hd =>
    have hlate : ¬d.isLate n = true := by
      rw [isLate_iff]
      rintro ⟨t', ht', hs'⟩
      obtain rfl := ticket_eq ht ht'
      rw [hs] at hs'
      cases hs'
    rw [if_neg hlate]
    exact he
  | expired t e ht hs hf' hn =>
    have hlate : d.isLate n = true := (isLate_iff d n).mpr ⟨t, ht, hs⟩
    obtain rfl := ticket_eq ht hu
    rw [if_pos hlate]
    refine ⟨{ t with stage := .ended .timedOut }, by simp [ht], hid,
      .inr (.inl ⟨.timedOut, rfl, ?_⟩)⟩
    simp only [hid, Outcome.result]
  | mistaken t e ht hs hf' hn =>
    obtain rfl := ticket_eq ht hu
    rw [hid, hf] at hf'
    cases hf'
    exact absurd rfl hn
  | resumed t ht hs hv' hf' =>
    obtain rfl := ticket_eq ht hu
    rw [hid, hf] at hf'
    cases hf'

/-- The owner of a pending request drops its ticket. -/
theorem Coherent.follows_drop {d : Docket} (h : Coherent d) {q : Request} {n : Nat}
    (he : ⟨q.id, q, n⟩ ∈ d.pending) : Follows q n (d.drop n) (some .left) := by
  obtain ⟨⟨t, ht, ha, _, hid⟩, _⟩ := h.of_pending he
  obtain ⟨u, hu, huid, _⟩ := resolve_stage d t.id .lost n t ht
  rw [drop_alive d n t ht ha, finish_eq d n _ t ht]
  exact ⟨{ u with stage := .dropped }, by simp [hu], huid.trans hid, rfl⟩

/-- One action does to a pending request what it says about it. -/
theorem Coherent.follows_act {d : Docket} (h : Coherent d) {q : Request} {n : Nat}
    (he : ⟨q.id, q, n⟩ ∈ d.pending) (a : Action) : Follows q n (d.act a) (wordOrLoss q n d a) := by
  by_cases hother : ∃ m, m ≠ n ∧ (a = .poll m ∨ a = .drop m)
  · obtain ⟨m, hn, ha⟩ := hother
    exact h.follows_other he hn a ha
  have hself (m : Nat) (ha : a = .poll m ∨ a = .drop m) : m = n :=
    not_not.mp fun hn => hother ⟨m, hn, ha⟩
  rw [wordOrLoss_own q n d a fun m hend => hself m (ended?_some hend).1]
  cases a with
  | request type isInternal payload =>
    rcases request_cases d type isInternal payload with ⟨e, ids, hr⟩ | ⟨q', _, _, _, _, hr⟩
    · simp only [Docket.act, hr, word]
      exact he
    · simp only [Docket.act, hr, word]
      exact List.mem_append_left _ he
  | approve id result => exact h.follows_resolve he id (.approved result)
  | reject id => exact h.follows_resolve he id .rejected
  | rejectAll type =>
    have hr := h.follows_rejectEach he ((d.pendingOf type).map Request.id)
    simp only [h.mem_pendingOf he type] at hr
    rw [act_rejectAll]
    exact hr
  | poll m =>
    obtain rfl := hself m (.inl rfl)
    simpa only [Docket.act, word, true_and] using h.follows_look he (look_poll d m)
  | drop m =>
    obtain rfl := hself m (.inr rfl)
    simpa only [Docket.act, word, if_true] using h.follows_drop he
  | startWait m => exact he
  | pass ms => exact he
  | reseed ids => exact he

/-! ### A request that is decided or over -/

/-- Where a ticket that is decided or over can go in one action. The last case needs another pending
request with the same id. -/
inductive Moves (d : Docket) (n : Nat) (t : Ticket) : Stage → Prop where
  | stays : Moves d n t t.stage
  | waits (ha : t.alive = true) (limit : Option Nat) : Moves d n t (.waiting limit)
  | ends (ha : t.alive = true) (v : Verdict) (hv : t.verdict = some v) :
      Moves d n t (.ended v.outcome)
  | leaves (ha : t.alive = true) : Moves d n t .dropped
  | expires (ha : t.alive = true) (e : Entry) (he : e ∈ d.pending) (hid : e.id = t.id)
      (hn : e.ticket ≠ n) : Moves d n t (.ended .timedOut)

theorem Moves.dead {d : Docket} {n : Nat} {t : Ticket} {s : Stage} (hm : Moves d n t s)
    (ht : t.alive = false) : s = t.stage := by
  cases hm with
  | stays => rfl
  | waits ha | ends ha | leaves ha | expires ha => rw [ht] at ha; cases ha

theorem Coherent.finish_decided {d : Docket} (h : Coherent d) {n : Nat} {t : Ticket}
    (ht : d.tickets[n]? = some t) (hu : t.undecided = false) (m : Nat) (s : Stage) :
    (d.finish m s).tickets[n]? = some (if m = n then { t with stage := s } else t) := by
  cases hm : d.tickets[m]? with
  | none =>
    have hn : m ≠ n := by
      intro hn
      rw [hn, ht] at hm
      cases hm
    simp [Docket.finish, hm, ht, hn]
  | some u =>
    rw [finish_eq d m s u hm, tickets_update, h.resolve_decided ht hu]
    by_cases hn : m = n <;> simp [hn]

theorem Coherent.look_decided {d d' : Docket} (h : Coherent d) {n m : Nat} {t : Ticket}
    (ht : d.tickets[n]? = some t) (hu : t.undecided = false) (hl : Look d m d') :
    ∃ s, d'.tickets[n]? = some { t with stage := s } ∧ Moves d n t s := by
  by_cases hn : m = n
  · subst hn
    cases hl with
    | idle hl hw => exact ⟨t.stage, ht, .stays⟩
    | verdict u v hm ha hv hf =>
      obtain rfl := ticket_eq ht hm
      exact ⟨.ended v.outcome, by simp [h.finish_decided ht hu], .ends ha v hv⟩
    | passed u deadline hm hs hv hd =>
      obtain rfl := ticket_eq ht hm
      simp [Ticket.undecided, Ticket.alive, Stage.alive, hs, hv] at hu
    | expired u e hm hs hf hne =>
      exact absurd hne (h.ticket_ne ht hu (find?_some d u.id e hf).1)
    | mistaken u e hm hs hf hne =>
      obtain rfl := ticket_eq ht hm
      obtain ⟨he, hid⟩ := find?_some d t.id e hf
      exact ⟨.ended .timedOut, by simp [h.resolve_decided ht hu],
        .expires (by simp [Ticket.alive, Stage.alive, hs]) e he hid hne⟩
    | resumed u hm hs hv hf =>
      obtain rfl := ticket_eq ht hm
      exact ⟨.waiting none, by simp [ht], .waits (by simp [Ticket.alive, Stage.alive, hs]) none⟩
  · refine ⟨t.stage, ?_, .stays⟩
    cases hl with
    | idle hl hw => exact ht
    | verdict u v hm ha hv hf => simp [h.finish_decided ht hu, hn]
    | passed u deadline hm hs hv hd => simp [hn, ht]
    | expired u e hm hs hf hne => simp [hn, ht]
    | mistaken u e hm hs hf hne => simp [hn, h.resolve_decided ht hu]
    | resumed u hm hs hv hf => simp [hn, ht]

/-- One action leaves a ticket that is decided or over as it is, up to its stage. -/
theorem Coherent.act_decided {d : Docket} (h : Coherent d) {n : Nat} {t : Ticket}
    (ht : d.tickets[n]? = some t) (hu : t.undecided = false) (a : Action) :
    ∃ s, (d.act a).tickets[n]? = some { t with stage := s } ∧ Moves d n t s := by
  cases a with
  | request type isInternal payload =>
    refine ⟨t.stage, ?_, .stays⟩
    rcases request_cases d type isInternal payload with ⟨e, ids, hr⟩ | ⟨q', _, _, _, _, hr⟩
    · simpa only [Docket.act, hr] using ht
    · simp only [Docket.act, hr]
      rw [List.getElem?_append_left (List.getElem?_eq_some_iff.mp ht).1]
      exact ht
  | approve id result => exact ⟨t.stage, h.resolve_decided ht hu id _, .stays⟩
  | reject id => exact ⟨t.stage, h.resolve_decided ht hu id _, .stays⟩
  | rejectAll type =>
    rw [act_rejectAll]
    exact ⟨t.stage, h.rejectEach_decided ht hu _, .stays⟩
  | startWait m =>
    by_cases hn : m = n
    · subst hn
      obtain ⟨id, verdict, stage⟩ := t
      cases stage with
      | held =>
        exact ⟨.waiting (d.patience.map (d.now + ·)), by simp [Docket.act, Docket.startWait, ht],
          .waits rfl _⟩
      | _ => exact ⟨_, by simp [Docket.act, Docket.startWait, ht], .stays⟩
    · exact ⟨t.stage, by simp [Docket.act, Docket.startWait, hn, ht], .stays⟩
  | poll m => exact h.look_decided ht hu (look_poll d m)
  | drop m =>
    by_cases ha : ∀ u, d.tickets[m]? = some u → u.alive = false
    · exact ⟨t.stage, by rw [Docket.act, drop_dead d m ha, ht], .stays⟩
    · simp only [not_forall, Bool.not_eq_false] at ha
      obtain ⟨u, hm, ha⟩ := ha
      have hf := h.finish_decided ht hu m .dropped
      rw [← drop_alive d m u hm ha] at hf
      by_cases hn : m = n
      · subst hn
        obtain rfl := ticket_eq ht hm
        exact ⟨.dropped, by simpa [Docket.act] using hf, .leaves ha⟩
      · exact ⟨t.stage, by simpa [Docket.act, hn] using hf, .stays⟩
  | pass ms => exact ⟨t.stage, ht, .stays⟩
  | reseed ids => exact ⟨t.stage, ht, .stays⟩

/-- A verdict is never replaced. -/
theorem Coherent.run_verdict {d : Docket} (h : Coherent d) {n : Nat} {t : Ticket} {v : Verdict}
    (ht : d.tickets[n]? = some t) (hv : t.verdict = some v) (as : List Action) :
    ∃ u, (d.run as).tickets[n]? = some u ∧ u.verdict = some v := by
  induction as generalizing d t with
  | nil => exact ⟨t, ht, hv⟩
  | cons a as ih =>
    obtain ⟨s, hs, -⟩ := h.act_decided ht (by simp [Ticket.undecided, hv]) a
    exact ih (h.act a) hs hv

/-- An answer stays the answer, unless the wait expires over another request with the same id. -/
theorem Moves.answers {d : Docket} {n : Nat} {t : Ticket} {s : Stage} (hm : Moves d n t s)
    {r : Except Error Json} (hr : t.Answers r) :
    Ticket.Answers { t with stage := s } r ∨
      s = .ended .timedOut ∧ t.alive = true ∧
        ∃ e ∈ d.pending, e.id = t.id ∧ e.ticket ≠ n := by
  have hverdict (ha : t.alive = true) : ∃ v, t.verdict = some v ∧ v.outcome.result t.id = r := by
    rcases hr with ⟨-, hv⟩ | ⟨o, hs, -⟩ | hs
    · exact hv
    · simp [Ticket.alive, Stage.alive, hs] at ha
    · simp [Ticket.alive, Stage.alive, hs] at ha
  cases hm with
  | stays => exact .inl hr
  | waits ha limit => exact .inl (.inl ⟨rfl, hverdict ha⟩)
  | ends ha v hv =>
    obtain ⟨v', hv', hr'⟩ := hverdict ha
    rw [hv] at hv'
    cases hv'
    exact .inl (.inr (.inl ⟨v.outcome, rfl, hr'⟩))
  | leaves ha => exact .inl (.inr (.inr rfl))
  | expires ha e he hid hn => exact .inr ⟨rfl, ha, e, he, hid, hn⟩

theorem Follows.decided {q : Request} {n : Nat} {d : Docket} {f : Fate}
    (h : Follows q n d (some f)) :
    ∃ t, d.tickets[n]? = some t ∧ t.id = q.id ∧ t.undecided = false := by
  cases f with
  | told r =>
    obtain ⟨t, ht, hid, ⟨_, v, hv, _⟩ | ⟨o, hs, _⟩ | hs⟩ := h
    · exact ⟨t, ht, hid, by simp [Ticket.undecided, hv]⟩
    · exact ⟨t, ht, hid, by simp [Ticket.undecided, Ticket.alive, Stage.alive, hs]⟩
    · exact ⟨t, ht, hid, by simp [Ticket.undecided, Ticket.alive, Stage.alive, hs]⟩
  | left =>
    obtain ⟨t, ht, hid, hs⟩ := h
    exact ⟨t, ht, hid, by simp [Ticket.undecided, Ticket.alive, Stage.alive, hs]⟩

theorem Follows.ticket {q : Request} {n : Nat} {d : Docket} {f : Option Fate}
    (h : Follows q n d f) (hc : Coherent d) : ∃ t, d.tickets[n]? = some t ∧ t.id = q.id := by
  cases f with
  | none =>
    obtain ⟨⟨t, ht, _, _, hid⟩, _⟩ := hc.of_pending h
    exact ⟨t, ht, hid⟩
  | some f =>
    obtain ⟨t, ht, hid, _⟩ := h.decided
    exact ⟨t, ht, hid⟩

/-- A decided request stays as it was decided, unless its wait expires over another one with the
same id. -/
theorem Follows.act_or_expires {q : Request} {n : Nat} {d : Docket} {f : Fate}
    (h : Follows q n d (some f)) (hc : Coherent d) (a : Action) :
    Follows q n (d.act a) (some f) ∨
      ∃ t, d.tickets[n]? = some t ∧ t.id = q.id ∧ t.alive = true ∧
        (∃ e ∈ d.pending, e.id = t.id ∧ e.ticket ≠ n) ∧
        (d.act a).tickets[n]? = some { t with stage := .ended .timedOut } := by
  obtain ⟨t, ht, hid, hu⟩ := h.decided
  obtain ⟨s, hs, hm⟩ := hc.act_decided ht hu a
  cases f with
  | told r =>
    obtain ⟨t', ht', _, hr⟩ := h
    obtain rfl := ticket_eq ht ht'
    rcases hm.answers hr with hr | ⟨rfl, hta, he⟩
    · exact .inl ⟨_, hs, hid, hr⟩
    · exact .inr ⟨t, ht, hid, hta, he, hs⟩
  | left =>
    obtain ⟨t', ht', _, hd⟩ := h
    obtain rfl := ticket_eq ht ht'
    rw [hm.dead (by simp [Ticket.alive, Stage.alive, hd])] at hs
    exact .inl ⟨_, hs, hid, hd⟩

end Docket

end Countersign.Approval
