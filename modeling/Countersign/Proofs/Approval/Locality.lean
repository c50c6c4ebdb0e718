import Countersign.Proofs.Approval.Distinct

/-!
# What concerns one id

A pending request depends on little else than what bears its id. As long as it is pending, actions
say the same about it in any two dockets that have the same clock, the same entry under its id and
the same tickets with that id, whatever else is pending in the one or the other.
-/
namespace Countersign.Approval.Docket

/-- Two dockets are the same under an id: the clock, what is pending under the id, and the tickets
that have it. -/
structure SameUnder (id : String) (d d' : Docket) : Prop where
  now : d'.now = d.now
  timeout : d'.timeout = d.timeout
  entry : d'.find? id = d.find? id
  ticket : ∀ (n : Nat) (t : Ticket), t.id = id → (d'.tickets[n]? = some t ↔ d.tickets[n]? = some t)

/-- There is a ticket of this number, and it has the id. -/
def HasId (d : Docket) (n : Nat) (id : String) : Prop :=
  (d.tickets[n]?).map Ticket.id = some id

theorem hasId_iff {d : Docket} {n : Nat} {id : String} :
    d.HasId n id ↔ ∃ t, d.tickets[n]? = some t ∧ t.id = id :=
  Option.map_eq_some_iff

theorem hasId_update {d : Docket} {n m : Nat} {id : String} {f : Ticket → Ticket}
    (hf : ∀ t, (f t).id = t.id) : (d.update m f).HasId n id ↔ d.HasId n id := by
  rw [HasId, tickets_update]
  split
  next =>
    have hid : Ticket.id ∘ f = Ticket.id := funext hf
    rw [Option.map_map, hid, HasId]
  next => exact .rfl

theorem find?_without_other {d : Docket} {id other : String} (h : other ≠ id) :
    (d.without other).find? id = d.find? id := by
  rw [find?, without, List.find?_filter, find?]
  congr 1
  funext e
  by_cases he : e.id = id
  · simp [he, h.symm]
  · simp [he]

namespace SameUnder

variable {id : String} {d d' d₁ : Docket}

theorem refl (id : String) (d : Docket) : SameUnder id d d :=
  ⟨rfl, rfl, rfl, fun _ _ _ => .rfl⟩

theorem symm (h : SameUnder id d d') : SameUnder id d' d :=
  ⟨h.now.symm, h.timeout.symm, h.entry.symm, fun n t ht => (h.ticket n t ht).symm⟩

theorem trans (h : SameUnder id d d') (h' : SameUnder id d' d₁) : SameUnder id d d₁ :=
  ⟨h'.now.trans h.now, h'.timeout.trans h.timeout, h'.entry.trans h.entry,
    fun n t ht => (h'.ticket n t ht).trans (h.ticket n t ht)⟩

theorem hasId (h : SameUnder id d d') {n : Nat} : d'.HasId n id ↔ d.HasId n id := by
  rw [hasId_iff, hasId_iff]
  exact exists_congr fun t => and_congr_left fun ht => h.ticket n t ht

theorem lives (h : SameUnder id d d') {n : Nat} (hn : d.HasId n id) : d'.lives n = d.lives n := by
  obtain ⟨t, ht, hid⟩ := hasId_iff.mp hn
  rw [Docket.lives, Docket.lives, ht, (h.ticket n t hid).mpr ht]

/-! ### Operations on the id -/

theorem without (h : SameUnder id d d') : SameUnder id (d.without id) (d'.without id) :=
  ⟨h.now, h.timeout, by rw [find?_without, find?_without], h.ticket⟩

theorem update (h : SameUnder id d d') (n : Nat) {f : Ticket → Ticket} (hf : ∀ t, (f t).id = t.id) :
    SameUnder id (d.update n f) (d'.update n f) := by
  refine ⟨h.now, h.timeout, h.entry, fun m t ht => ?_⟩
  rw [tickets_update, tickets_update]
  split
  next =>
    rw [Option.map_eq_some_iff, Option.map_eq_some_iff]
    refine exists_congr fun u => and_congr_left fun hu => h.ticket m u ?_
    rw [← hf u, hu, ht]
  next => exact h.ticket m t ht

theorem resolve (h : SameUnder id d d') (v : Verdict) :
    SameUnder id (d.resolve id v) (d'.resolve id v) := by
  cases he : d.find? id with
  | none =>
    rw [resolve_absent d id v he, resolve_absent d' id v (h.entry.trans he)]
    exact h
  | some e =>
    simp only [Docket.resolve, he, h.entry]
    exact h.without.update e.ticket fun _ => rfl

theorem finish (h : SameUnder id d d') {n : Nat} (hn : d.HasId n id) (s : Stage) :
    SameUnder id (d.finish n s) (d'.finish n s) := by
  obtain ⟨t, ht, rfl⟩ := hasId_iff.mp hn
  rw [finish_eq d n s t ht, finish_eq d' n s t ((h.ticket n t rfl).mpr ht)]
  exact (h.resolve .lost).update n fun _ => rfl

/-! ### Operations elsewhere -/

theorem without_other {other : String} (h : other ≠ id) : SameUnder id d (d.without other) :=
  ⟨rfl, rfl, find?_without_other h, fun _ _ _ => .rfl⟩

theorem update_other {n : Nat} (hn : ¬d.HasId n id) {f : Ticket → Ticket}
    (hf : ∀ t, (f t).id = t.id) : SameUnder id d (d.update n f) := by
  refine ⟨rfl, rfl, rfl, fun m t ht => ?_⟩
  have hid : (d.update n f).HasId n id ↔ d.HasId n id := hasId_update hf
  by_cases hm : n = m
  · subst hm
    exact ⟨fun hnew => absurd (hid.mp (hasId_iff.mpr ⟨t, hnew, ht⟩)) hn,
      fun hold => absurd (hasId_iff.mpr ⟨t, hold, ht⟩) hn⟩
  · rw [tickets_update, if_neg hm]

/-- The ticket of an entry has the id of the entry. -/
theorem resolve_other (hc : Coherent d) {other : String} (h : other ≠ id) (v : Verdict) :
    SameUnder id d (d.resolve other v) := by
  cases he : d.find? other with
  | none =>
    rw [resolve_absent d other v he]
    exact .refl id d
  | some e =>
    obtain ⟨hmem, rfl⟩ := find?_some d other e he
    obtain ⟨t, ht, -, hid⟩ := hc.ticket e hmem
    have hticket : ¬(d.without e.id).HasId e.ticket id := by
      intro hhas
      obtain ⟨u, hu, hid'⟩ := hasId_iff.mp hhas
      obtain rfl := ticket_eq ht hu
      exact h (hid.symm.trans hid')
    simp only [Docket.resolve, he]
    exact (without_other h).trans (update_other hticket fun _ => rfl)

theorem finish_other (hc : Coherent d) {n : Nat} (hn : ¬d.HasId n id) (s : Stage) :
    SameUnder id d (d.finish n s) := by
  cases ht : d.tickets[n]? with
  | none => simpa only [Docket.finish, ht] using refl id d
  | some t =>
    have hne : t.id ≠ id := fun hid => hn (hasId_iff.mpr ⟨t, ht, hid⟩)
    have hresolve : SameUnder id d (d.resolve t.id .lost) := resolve_other hc hne .lost
    rw [finish_eq d n s t ht]
    exact hresolve.trans (update_other (fun hnew => hn (hresolve.hasId.mp hnew)) fun _ => rfl)

/-! ### Looks and drops -/

theorem poll (h : SameUnder id d d') {n : Nat} (hn : d.HasId n id) :
    SameUnder id (d.poll n) (d'.poll n) := by
  obtain ⟨t, ht, rfl⟩ := hasId_iff.mp hn
  have ht' : d'.tickets[n]? = some t := (h.ticket n t rfl).mpr ht
  cases hs : t.stage with
  | held | ended | dropped => simpa only [Docket.poll, ht, ht', hs] using h
  | waiting limit =>
    cases hv : t.verdict with
    | some v => simpa only [Docket.poll, ht, ht', hs, hv] using h.finish hn (.ended v.outcome)
    | none =>
      cases limit with
      | none => simpa only [Docket.poll, ht, ht', hs, hv] using h
      | some deadline =>
        simp only [Docket.poll, ht, ht', hs, hv, h.now]
        split
        next => exact h.update n fun _ => rfl
        next => exact h
  | late =>
    cases he : d.find? t.id with
    | some e =>
      simp only [Docket.poll, ht, ht', hs, he, h.entry]
      split
      next => exact h.without.finish hn _
      next =>
        have hlost : ∀ u : Ticket, ({ u with verdict := some .lost } : Ticket).id = u.id :=
          fun _ => rfl
        exact (h.without.update e.ticket hlost).finish ((hasId_update hlost).mpr hn) _
    | none =>
      cases hv : t.verdict with
      | some v =>
        simpa only [Docket.poll, ht, ht', hs, hv, he, h.entry] using h.finish hn (.ended v.outcome)
      | none =>
        simp only [Docket.poll, ht, ht', hs, hv, he, h.entry]
        exact h.update n fun _ => rfl

theorem look_other (hc : Coherent d) {n : Nat} (hn : ¬d.HasId n id) (hl : Look d n d') :
    SameUnder id d d' := by
  have hne {t : Ticket} (ht : d.tickets[n]? = some t) : t.id ≠ id :=
    fun hid => hn (hasId_iff.mpr ⟨t, ht, hid⟩)
  cases hl with
  | idle => exact .refl id d
  | verdict t v => exact finish_other hc hn _
  | passed => exact update_other hn fun _ => rfl
  | expired t e ht =>
    have hwithout : SameUnder id d (d.without t.id) := without_other (hne ht)
    exact hwithout.trans (update_other (fun hnew => hn (hwithout.hasId.mp hnew)) fun _ => rfl)
  | mistaken t e ht =>
    have hresolve : SameUnder id d (d.resolve t.id .lost) := resolve_other hc (hne ht) .lost
    exact hresolve.trans (update_other (fun hnew => hn (hresolve.hasId.mp hnew)) fun _ => rfl)
  | resumed => exact update_other hn fun _ => rfl

theorem drop (h : SameUnder id d d') {n : Nat} (hn : d.HasId n id) :
    SameUnder id (d.drop n) (d'.drop n) := by
  obtain ⟨t, ht, hid⟩ := hasId_iff.mp hn
  have ht' : d'.tickets[n]? = some t := (h.ticket n t hid).mpr ht
  cases hs : t.stage with
  | held | waiting | late =>
    simpa only [Docket.drop, ht, ht', Option.map_some, hs] using h.finish hn .dropped
  | ended | dropped => simpa only [Docket.drop, ht, ht', Option.map_some, hs] using h

theorem drop_other (hc : Coherent d) {n : Nat} (hn : ¬d.HasId n id) :
    SameUnder id d (d.drop n) := by
  unfold Docket.drop
  split
  next => exact finish_other hc hn .dropped
  next => exact finish_other hc hn .dropped
  next => exact finish_other hc hn .dropped
  next => exact refl id d

theorem startWait (h : SameUnder id d d') (n : Nat) :
    SameUnder id (d.startWait n) (d'.startWait n) := by
  have hpatience : d'.patience = d.patience := by rw [patience, patience, h.timeout]
  simp only [Docket.startWait, hpatience, h.now]
  refine h.update n fun t => ?_
  split <;> rfl

/-! ### Actions -/

/-- A request is refused under an id that is pending, and has another id otherwise. -/
theorem request_other (hp : d.find? id ≠ none) (type : String) (isInternal : Bool)
    (payload : Json) : SameUnder id d (d.request type isInternal payload).2 := by
  rcases request_cases d type isInternal payload with ⟨e, ids, hr⟩ | ⟨q, -, -, -, hfree, hr⟩
  · rw [hr]
    exact ⟨rfl, rfl, rfl, fun _ _ _ => .rfl⟩
  · have hne : q.id ≠ id := by
      rintro rfl
      exact hp hfree
    obtain ⟨e, he⟩ := Option.ne_none_iff_exists'.mp hp
    rw [hr]
    refine ⟨rfl, rfl, ?_, fun n t ht => ?_⟩
    · have hfound : d.pending.find? (fun e => e.id == id) = some e := he
      rw [he, find?, List.find?_append, hfound, Option.some_or]
    · rw [List.getElem?_append]
      split
      next => exact .rfl
      next hlt =>
        rw [List.getElem?_singleton, List.getElem?_eq_none (Nat.not_lt.mp hlt)]
        split
        next =>
          constructor
          · intro hnew
            exact absurd ((congrArg Ticket.id (Option.some.inj hnew)).trans ht) hne
          · intro hold
            cases hold
        next => exact .rfl

/-- Of ids that are rejected one after the other only the id itself makes a difference. -/
theorem rejectEach (hc : Coherent d) (ids : List String) :
    SameUnder id (if id ∈ ids then d.reject id else d) (ids.foldl reject d) := by
  induction ids generalizing d with
  | nil => exact .refl id d
  | cons other ids ih =>
    have hrest := ih (hc.resolve other .rejected)
    by_cases hother : other = id
    · subst hother
      have hagain : (d.reject other).reject other = d.reject other :=
        resolve_absent _ _ _ (find?_resolve d other .rejected)
      have hsame : (if other ∈ ids then (d.reject other).reject other else d.reject other) =
          d.reject other := by
        rw [hagain, ite_self]
      rw [if_pos List.mem_cons_self, ← hsame]
      exact hrest
    · have hmem : id ∈ other :: ids ↔ id ∈ ids := by
        simp [Ne.symm hother]
      have hreject : SameUnder id d (d.reject other) := resolve_other hc hother .rejected
      refine trans ?_ hrest
      simp only [hmem]
      split
      next => exact hreject.resolve .rejected
      next => exact hreject

theorem conj {d₁' : Docket} (h : SameUnder id d d') (hd : SameUnder id d d₁)
    (hd' : SameUnder id d' d₁') : SameUnder id d₁ d₁' :=
  hd.symm.trans (h.trans hd')

theorem rejectAll (h : SameUnder id d d') (hc : Coherent d) (hc' : Coherent d')
    (hp : d.find? id ≠ none) (type : String) :
    SameUnder id (d.act (.rejectAll type)) (d'.act (.rejectAll type)) := by
  obtain ⟨e, he⟩ := Option.ne_none_iff_exists'.mp hp
  obtain ⟨hmem, rfl⟩ := find?_some d id _ he
  obtain ⟨q, n, rfl⟩ := hc.entry_eq hmem
  have hmem' := (find?_some d' q.id _ (h.entry.trans he)).1
  rw [act_rejectAll, act_rejectAll]
  refine conj ?_ (rejectEach hc _) (rejectEach hc' _)
  simp only [hc.mem_pendingOf hmem, hc'.mem_pendingOf hmem']
  split
  next => exact h.resolve .rejected
  next => exact h

/-- As long as something is pending under an id, dockets that are the same under it remain so. -/
theorem act (h : SameUnder id d d') (hc : Coherent d) (hc' : Coherent d') (hp : d.find? id ≠ none)
    (a : Action) : SameUnder id (d.act a) (d'.act a) := by
  have hresolve (other : String) (v : Verdict) :
      SameUnder id (d.resolve other v) (d'.resolve other v) := by
    by_cases hother : other = id
    · subst hother
      exact h.resolve v
    · exact h.conj (resolve_other hc hother v) (resolve_other hc' hother v)
  cases a with
  | request type isInternal payload =>
    have hp' : d'.find? id ≠ none := by rwa [h.entry]
    exact h.conj (request_other hp type isInternal payload)
      (request_other hp' type isInternal payload)
  | approve other result => exact hresolve other (.approved result)
  | reject other => exact hresolve other .rejected
  | rejectAll type => exact h.rejectAll hc hc' hp type
  | startWait n => exact h.startWait n
  | poll n =>
    by_cases hn : d.HasId n id
    · exact h.poll hn
    · exact h.conj (look_other hc hn (look_poll d n))
        (look_other hc' (mt h.hasId.mp hn) (look_poll d' n))
  | drop n =>
    by_cases hn : d.HasId n id
    · exact h.drop hn
    · exact h.conj (drop_other hc hn) (drop_other hc' (mt h.hasId.mp hn))
  | pass ms => exact ⟨by simp only [Docket.act, h.now], h.timeout, h.entry, h.ticket⟩
  | reseed ids => exact ⟨h.now, h.timeout, h.entry, h.ticket⟩

/-! ### What is said -/

theorem isLate_eq (h : SameUnder id d d') {n : Nat} (hn : d.HasId n id) :
    d'.isLate n = d.isLate n := by
  obtain ⟨t, ht, hid⟩ := hasId_iff.mp hn
  rw [isLate, isLate, ht, (h.ticket n t hid).mpr ht]

/-- A look ends a ticket that has the id in both dockets or in neither. -/
theorem lives_poll (h : SameUnder id d d') {n : Nat} (hn : d.HasId n id) :
    (d'.poll n).lives n = (d.poll n).lives n := by
  have hpoll := h.poll hn
  have himp {d d' : Docket} (h : SameUnder id d d') (hpoll : SameUnder id (d.poll n) (d'.poll n))
      (hn : d.HasId n id) (hlive : (d.poll n).lives n = true) : (d'.poll n).lives n = true := by
    obtain ⟨u, hu, ha⟩ := (lives_iff _ n).mp hlive
    obtain ⟨t, ht, hid, -⟩ := advances_look d _ n (look_poll d n) n u hu
    obtain ⟨t', ht', hid'⟩ := hasId_iff.mp hn
    obtain rfl := ticket_eq ht ht'
    exact (lives_iff _ n).mpr ⟨u, (hpoll.ticket n u (hid.trans hid')).mpr hu, ha⟩
  exact Bool.eq_iff_iff.mpr ⟨himp h.symm hpoll.symm (h.hasId.mpr hn), himp h hpoll hn⟩

theorem ended_eq (h : SameUnder id d d') {n : Nat} (hn : d.HasId n id) {a : Action} :
    d'.ended? a = some n ↔ d.ended? a = some n := by
  have hlives := h.lives hn
  have hpoll := h.lives_poll hn
  cases a with
  | drop m =>
    by_cases hm : m = n
    · subst hm
      simp only [ended?, hlives]
    · simp [ended?, hm]
  | poll m =>
    by_cases hm : m = n
    · subst hm
      simp only [ended?, hlives, hpoll]
    · simp [ended?, hm]
  | _ => rfl

/-- The same is said about the request of the id. -/
theorem wordOrLoss_eq {q : Request} (h : SameUnder q.id d d') {n : Nat} (hn : d.HasId n q.id)
    (a : Action) : wordOrLoss q n d' a = wordOrLoss q n d a := by
  have hword : word q n d' a = word q n d a := by
    cases a with
    | poll m => simp only [word, h.isLate_eq hn]
    | _ => rfl
  have hrobs {d d' : Docket} (h : SameUnder q.id d d') (hr : robs q n d a = true) :
      robs q n d' a = true := by
    obtain ⟨m, t, hend, hm, ht, hid⟩ := (robs_iff q n d a).mp hr
    have hhas : d.HasId m q.id := hasId_iff.mpr ⟨t, ht, hid⟩
    exact (robs_iff q n d' a).mpr ⟨m, t, (h.ended_eq hhas).mpr hend, hm, (h.ticket m t hid).mpr ht,
      hid⟩
  have hrobs_eq : robs q n d' a = robs q n d a := Bool.eq_iff_iff.mpr ⟨hrobs h.symm, hrobs h⟩
  rw [wordOrLoss, wordOrLoss, hrobs_eq, hword]

/-- In all runs the same is said first about a pending request. Until then it is pending, and
dockets that are the same under its id remain so. -/
theorem run {q : Request} {n : Nat} (h : SameUnder q.id d d') (hc : Coherent d) (hc' : Coherent d')
    (he : ⟨q.id, q, n⟩ ∈ d.pending) (as : List Action) :
    first? (wordOrLoss q n) d' as = first? (wordOrLoss q n) d as ∧
      (first? (wordOrLoss q n) d as = none →
        ⟨q.id, q, n⟩ ∈ (d.run as).pending ∧ SameUnder q.id (d.run as) (d'.run as)) := by
  induction as generalizing d d' with
  | nil => exact ⟨rfl, fun _ => ⟨he, h⟩⟩
  | cons a as ih =>
    obtain ⟨⟨t, ht, -, -, hid⟩, hfound⟩ := hc.of_pending he
    have hsaid := h.wordOrLoss_eq (hasId_iff.mpr ⟨t, ht, hid⟩) a
    have hfollows := hc.follows_act he a
    simp only [first?, hsaid]
    cases hw : wordOrLoss q n d a with
    | some f =>
      refine ⟨rfl, fun hnone => ?_⟩
      cases hnone
    | none =>
      rw [hw] at hfollows
      have hp : d.find? q.id ≠ none := by
        rw [hfound]
        exact Option.some_ne_none _
      exact ih (h.act hc hc' hp a) (hc.act a) (hc'.act a) hfollows

end SameUnder

end Countersign.Approval.Docket
