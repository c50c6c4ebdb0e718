import Countersign.Proofs.Approval.Coherence

/-!
# Progress of tickets

A ticket is held, waited on, late perhaps, and then over for good. Every action takes each ticket at
most one change further, and only a request adds a ticket. The clock never goes back, so a wait runs
out no sooner than its patience after any instant before it. This needs no invariant of the docket.
-/
namespace Countersign.Approval.Docket

/-- How the stage of a ticket can change in one action. -/
inductive Progress (d : Docket) : Stage → Stage → Prop where
  | stays (s : Stage) : Progress d s s
  | starts : Progress d .held (.waiting (d.patience.map (d.now + ·)))
  | passes (deadline : Nat) (hd : deadline ≤ d.now) : Progress d (.waiting (some deadline)) .late
  | expires : Progress d .late (.ended .timedOut)
  | resumes : Progress d .late (.waiting none)
  | ends (s : Stage) (hs : s.alive = true) (v : Verdict) : Progress d s (.ended v.outcome)
  | leaves (s : Stage) (hs : s.alive = true) : Progress d s .dropped

/-- The tickets of the second docket are those of the first, each at most one change further. -/
def Advances (d d' : Docket) : Prop :=
  ∀ (m : Nat) (u : Ticket), d'.tickets[m]? = some u →
    ∃ t : Ticket, d.tickets[m]? = some t ∧ u.id = t.id ∧ Progress d t.stage u.stage

/-- The tickets of the second docket are those of the first, up to verdicts. -/
def SameStages (d d' : Docket) : Prop :=
  ∀ (m : Nat) (u : Ticket), d'.tickets[m]? = some u →
    ∃ t : Ticket, d.tickets[m]? = some t ∧ u.id = t.id ∧ u.stage = t.stage

theorem Progress.alive {d : Docket} {s s' : Stage} (h : Progress d s s') (hs : s'.alive = true) :
    s.alive = true := by
  cases h with
  | stays s => exact hs
  | ends s hs' v => exact hs'
  | leaves s hs' => exact hs'
  | _ => rfl

/-- A deadline is set when the wait starts. -/
theorem Progress.to_waiting {d : Docket} {s s' : Stage} (h : Progress d s s') {deadline : Nat}
    (hs : s' = .waiting (some deadline)) :
    s = s' ∨ ∃ ms, d.patience = some ms ∧ d.now + ms = deadline := by
  cases h with
  | stays s => exact .inl rfl
  | starts =>
    simp only [Stage.waiting.injEq, Option.map_eq_some_iff] at hs
    exact .inr hs
  | _ => cases hs

/-- A wait runs out after its deadline has passed. -/
theorem Progress.to_over {d : Docket} {s s' : Stage} (h : Progress d s s')
    (hs : s' = .late ∨ s' = .ended .timedOut) :
    s = s' ∨ s = .late ∨ ∃ deadline, s = .waiting (some deadline) ∧ deadline ≤ d.now := by
  cases h with
  | stays s => exact .inl rfl
  | passes deadline hd => exact .inr (.inr ⟨deadline, rfl, hd⟩)
  | expires => exact .inr (.inl rfl)
  | resumes => exact .inr (.inl rfl)
  | starts => simp at hs
  | ends s hs' v => cases v <;> simp [Verdict.outcome] at hs
  | leaves s hs' => simp at hs

theorem SameStages.refl (d : Docket) : SameStages d d := fun _ u hu => ⟨u, hu, rfl, rfl⟩

theorem SameStages.advances {d d' : Docket} (h : SameStages d d') : Advances d d' := by
  intro m u hu
  obtain ⟨t, ht, hid, hs⟩ := h m u hu
  exact ⟨t, ht, hid, hs ▸ .stays _⟩

theorem sameStages_resolve (d : Docket) (id : String) (v : Verdict) :
    SameStages d (d.resolve id v) := by
  intro m u hu
  cases ht : d.tickets[m]? with
  | none =>
    cases hf : d.find? id with
    | none => rw [resolve_absent d id v hf, ht] at hu; cases hu
    | some e => rw [tickets_resolve d id v e hf, ht] at hu; simp at hu
  | some t =>
    obtain ⟨u', hu', hid, hs⟩ := resolve_stage d id v m t ht
    rw [hu] at hu'
    cases hu'
    exact ⟨t, rfl, hid, hs⟩

theorem sameStages_rejectEach (d : Docket) (ids : List String) :
    SameStages d (ids.foldl reject d) := by
  induction ids generalizing d with
  | nil => exact .refl d
  | cons id ids ih =>
    intro m w hw
    obtain ⟨u, hu, hid, hs⟩ := ih (d.resolve id .rejected) m w hw
    obtain ⟨t, ht, hid', hs'⟩ := sameStages_resolve d id .rejected m u hu
    exact ⟨t, ht, hid.trans hid', hs.trans hs'⟩

/-- One ticket changes its stage, after verdicts at most. -/
theorem advances_update {d d' : Docket} (h : SameStages d d') (n : Nat) (s : Stage)
    (hp : ∀ t, d.tickets[n]? = some t → Progress d t.stage s) :
    Advances d (d'.update n fun t => { t with stage := s }) := by
  intro m u hu
  by_cases hn : n = m
  · subst hn
    simp only [tickets_update, if_true, Option.map_eq_some_iff] at hu
    obtain ⟨u', hu', rfl⟩ := hu
    obtain ⟨t, ht, hid, _⟩ := h n u' hu'
    exact ⟨t, ht, hid, hp t ht⟩
  · simp only [tickets_update, hn, if_false] at hu
    exact h.advances m u hu

theorem advances_finish (d : Docket) (n : Nat) (s : Stage)
    (hp : ∀ t, d.tickets[n]? = some t → Progress d t.stage s) : Advances d (d.finish n s) := by
  cases ht : d.tickets[n]? with
  | none =>
    simp only [finish, ht]
    exact (SameStages.refl d).advances
  | some t =>
    rw [finish_eq d n s t ht]
    exact advances_update (sameStages_resolve d t.id .lost) n s hp

theorem advances_look (d d' : Docket) (n : Nat) (hl : Look d n d') : Advances d d' := by
  cases hl with
  | idle hl hw => exact (SameStages.refl d).advances
  | verdict t v ht ha hv hf =>
    apply advances_finish
    intro u hu
    obtain rfl := ticket_eq ht hu
    exact .ends t.stage ha v
  | passed t deadline ht hs hv hd =>
    apply advances_update (.refl d)
    intro u hu
    obtain rfl := ticket_eq ht hu
    rw [hs]
    exact .passes deadline hd
  | expired t e ht hs hf hn =>
    have hw : SameStages d (d.without t.id) := fun m u hu => ⟨u, hu, rfl, rfl⟩
    apply advances_update hw
    intro u hu
    obtain rfl := ticket_eq ht hu
    rw [hs]
    exact .expires
  | mistaken t e ht hs hf hn =>
    apply advances_update (sameStages_resolve d t.id .lost)
    intro u hu
    obtain rfl := ticket_eq ht hu
    rw [hs]
    exact .expires
  | resumed t ht hs hv hf =>
    apply advances_update (.refl d)
    intro u hu
    obtain rfl := ticket_eq ht hu
    rw [hs]
    exact .resumes

theorem advances_drop (d : Docket) (n : Nat) : Advances d (d.drop n) := by
  by_cases ha : ∀ t, d.tickets[n]? = some t → t.alive = false
  · rw [drop_dead d n ha]
    exact (SameStages.refl d).advances
  · simp only [not_forall, Bool.not_eq_false] at ha
    obtain ⟨t, ht, ha⟩ := ha
    rw [drop_alive d n t ht ha]
    apply advances_finish
    intro u hu
    obtain rfl := ticket_eq ht hu
    exact .leaves t.stage ha

theorem advances_startWait (d : Docket) (n : Nat) : Advances d (d.startWait n) := by
  intro m u hu
  by_cases hn : n = m
  · subst hn
    simp only [startWait, tickets_update, if_true, Option.map_eq_some_iff] at hu
    obtain ⟨⟨id, verdict, stage⟩, ht, rfl⟩ := hu
    refine ⟨_, ht, ?_⟩
    cases stage with
    | held => exact ⟨rfl, .starts⟩
    | _ => exact ⟨rfl, .stays _⟩
  · simp only [startWait, tickets_update, hn, if_false] at hu
    exact ⟨u, hu, rfl, .stays _⟩

/-- Only a request adds a ticket, and every other action takes tickets one change further. -/
theorem advances_act (d : Docket) (a : Action) :
    Advances d (d.act a) ∨ ∃ (type : String) (isInternal : Bool) (payload : Json) (q : Request),
      a = .request type isInternal payload ∧ type.isEmpty = false ∧ q.id = (nextId d.ids).1 ∧
      (d.act a).tickets = d.tickets ++ [⟨q.id, none, .held⟩] := by
  cases a with
  | request type isInternal payload =>
    rcases request_cases d type isInternal payload with ⟨e, ids, hr⟩ | ⟨q, hq, _, ht, _, hr⟩
    · left
      simp only [act, hr]
      exact fun m u hu => ⟨u, hu, rfl, .stays _⟩
    · right
      exact ⟨type, isInternal, payload, q, rfl, ht, hq, by simp only [act, hr]⟩
  | approve id result => exact .inl (sameStages_resolve d id _).advances
  | reject id => exact .inl (sameStages_resolve d id _).advances
  | rejectAll type =>
    rw [act_rejectAll]
    exact .inl (sameStages_rejectEach d _).advances
  | startWait n => exact .inl (advances_startWait d n)
  | poll n => exact .inl (advances_look d _ n (look_poll d n))
  | drop n => exact .inl (advances_drop d n)
  | pass ms => exact .inl fun m u hu => ⟨u, hu, rfl, .stays _⟩
  | reseed ids => exact .inl fun m u hu => ⟨u, hu, rfl, .stays _⟩

/-! ### The source of ids and the clock -/

/-- Two dockets with the same source of ids, the same clock and the same timeout. -/
structure SameFrame (d d' : Docket) : Prop where
  ids : d'.ids = d.ids
  now : d'.now = d.now
  timeout : d'.timeout = d.timeout

theorem SameFrame.refl (d : Docket) : SameFrame d d := ⟨rfl, rfl, rfl⟩

theorem SameFrame.trans {d d' d₁ : Docket} (h : SameFrame d d') (h' : SameFrame d' d₁) :
    SameFrame d d₁ :=
  ⟨h'.ids.trans h.ids, h'.now.trans h.now, h'.timeout.trans h.timeout⟩

theorem resolve_frame (d : Docket) (id : String) (v : Verdict) : SameFrame d (d.resolve id v) := by
  unfold resolve
  split <;> exact ⟨rfl, rfl, rfl⟩

theorem rejectEach_frame (d : Docket) (ids : List String) : SameFrame d (ids.foldl reject d) := by
  induction ids generalizing d with
  | nil => exact .refl d
  | cons id ids ih => exact (resolve_frame d id .rejected).trans (ih (d.reject id))

theorem finish_frame (d : Docket) (n : Nat) (s : Stage) : SameFrame d (d.finish n s) := by
  cases ht : d.tickets[n]? with
  | none => simpa only [finish, ht] using SameFrame.refl d
  | some t =>
    have h := resolve_frame d t.id .lost
    rw [finish_eq d n s t ht]
    exact ⟨h.ids, h.now, h.timeout⟩

theorem look_frame {d d' : Docket} {n : Nat} (hl : Look d n d') : SameFrame d d' := by
  cases hl with
  | verdict t v ht ha hv hf => exact finish_frame d n _
  | mistaken t e ht hs hf hn =>
    have h := resolve_frame d t.id .lost
    exact ⟨h.ids, h.now, h.timeout⟩
  | _ => exact ⟨rfl, rfl, rfl⟩

theorem drop_frame (d : Docket) (n : Nat) : SameFrame d (d.drop n) := by
  unfold drop
  split
  · exact finish_frame d n _
  · exact finish_frame d n _
  · exact finish_frame d n _
  · exact .refl d

/-- The clock does not go back, and the timeout of a docket does not change. -/
theorem act_clock (d : Docket) (a : Action) :
    d.now ≤ (d.act a).now ∧ (d.act a).timeout = d.timeout := by
  have same {d' : Docket} (h : SameFrame d d') : d.now ≤ d'.now ∧ d'.timeout = d.timeout :=
    ⟨Nat.le_of_eq h.now.symm, h.timeout⟩
  cases a with
  | request type isInternal payload =>
    rcases request_cases d type isInternal payload with ⟨e, ids, hr⟩ | ⟨q, _, _, _, _, hr⟩
    · simp only [act, hr, Nat.le_refl, and_self]
    · simp only [act, hr, Nat.le_refl, and_self]
  | approve id result => exact same (resolve_frame d id _)
  | reject id => exact same (resolve_frame d id _)
  | rejectAll type =>
    rw [act_rejectAll]
    exact same (rejectEach_frame d _)
  | startWait n => exact same ⟨rfl, rfl, rfl⟩
  | poll n => exact same (look_frame (look_poll d n))
  | drop n => exact same (drop_frame d n)
  | pass ms => exact ⟨Nat.le_add_right _ _, rfl⟩
  | reseed ids => exact ⟨Nat.le_refl _, rfl⟩

/-- The wait on a ticket runs out no sooner than the patience of the docket after an instant. -/
structure Punctual (since n : Nat) (d : Docket) : Prop where
  now : since ≤ d.now
  waiting : ∀ t deadline, d.tickets[n]? = some t → t.stage = .waiting (some deadline) →
    ∃ ms, d.patience = some ms ∧ since + ms ≤ deadline
  elapsed : ∀ t, d.tickets[n]? = some t → t.stage = .late ∨ t.stage = .ended .timedOut →
    ∃ ms, d.patience = some ms ∧ since + ms ≤ d.now

/-- The ticket of a docket after one action is an old one, one change further, or has just been
given out. -/
theorem act_ticket (d : Docket) (a : Action) (n : Nat) (u : Ticket)
    (hu : (d.act a).tickets[n]? = some u) :
    (∃ t, d.tickets[n]? = some t ∧ u.id = t.id ∧ Progress d t.stage u.stage) ∨
      u.stage = .held := by
  rcases advances_act d a with hadv | ⟨type, isInternal, payload, q, _, _, _, htickets⟩
  · exact .inl (hadv n u hu)
  · rw [htickets] at hu
    rcases Nat.lt_or_ge n d.tickets.length with hn | hn
    · rw [List.getElem?_append_left hn] at hu
      exact .inl ⟨u, hu, rfl, .stays _⟩
    · rw [List.getElem?_append_right hn] at hu
      have hmem := List.mem_of_getElem? hu
      rw [List.mem_singleton] at hmem
      exact .inr (by rw [hmem])

theorem Punctual.act {since n : Nat} {d : Docket} (h : Punctual since n d) (a : Action) :
    Punctual since n (d.act a) := by
  obtain ⟨hnow, htimeout⟩ := act_clock d a
  have hpatience : (d.act a).patience = d.patience := by simp only [patience, htimeout]
  refine ⟨Nat.le_trans h.now hnow, ?_, ?_⟩
  · intro u deadline hu hs
    rw [hpatience]
    rcases act_ticket d a n u hu with ⟨t, ht, _, hp⟩ | hheld
    · rcases hp.to_waiting hs with hsame | ⟨ms, hms, rfl⟩
      · exact h.waiting t deadline ht (hsame.trans hs)
      · have hsince := h.now
        exact ⟨ms, hms, by omega⟩
    · rw [hs] at hheld
      cases hheld
  · intro u hu hs
    rw [hpatience]
    have helapsed : ∃ ms, d.patience = some ms ∧ since + ms ≤ d.now := by
      rcases act_ticket d a n u hu with ⟨t, ht, _, hp⟩ | hheld
      · rcases hp.to_over hs with hsame | hlate | ⟨deadline, hwait, hd⟩
        · rw [← hsame] at hs
          exact h.elapsed t ht hs
        · exact h.elapsed t ht (.inl hlate)
        · obtain ⟨ms, hms, hle⟩ := h.waiting t deadline ht hwait
          exact ⟨ms, hms, by omega⟩
      · simp [hheld] at hs
    obtain ⟨ms, hms, hle⟩ := helapsed
    exact ⟨ms, hms, by omega⟩

theorem Punctual.run {since n : Nat} {d : Docket} (h : Punctual since n d) (as : List Action) :
    Punctual since n (d.run as) := by
  induction as generalizing d with
  | nil => exact h
  | cons a as ih => exact ih (h.act a)

end Countersign.Approval.Docket
