import Countersign.Proofs.Approval.Run
import Mathlib.Data.List.Nodup

/-!
# Coherence of a docket

A ticket is alive until its wait ends or its owner gives it up. In every run the pending entries are
exactly the tickets that are alive and undecided, and no id is pending twice. This holds for any
source of ids: a ticket may share its id with others, but at most one of them is pending.
-/
namespace Countersign.Approval

/-- The owner still holds the ticket, waiting or not. -/
def Stage.alive : Stage → Bool
  | .held | .waiting _ | .late => true
  | .ended _ | .dropped => false

namespace Ticket

def alive (t : Ticket) : Bool := t.stage.alive

def undecided (t : Ticket) : Bool := t.alive && t.verdict.isNone

theorem undecided_iff (t : Ticket) : t.undecided = true ↔ t.alive = true ∧ t.verdict = none := by
  simp [undecided]

end Ticket

namespace Docket

/-- Every request is kept under its own id, and under no id are there two. The tickets that are
alive and undecided are the ones with a pending entry. -/
structure Coherent (d : Docket) : Prop where
  key : ∀ e ∈ d.pending, e.id = e.request.id
  nodup : (d.pending.map Entry.id).Nodup
  ticket : ∀ e ∈ d.pending, ∃ t, d.tickets[e.ticket]? = some t ∧ t.undecided = true ∧ t.id = e.id
  entry : ∀ n t, d.tickets[n]? = some t → t.undecided = true → ∃ e ∈ d.pending, e.ticket = n

theorem Coherent.fresh (ids : Entropy) (timeout : Option Nat) : Coherent (fresh ids timeout) where
  key := by simp [Docket.fresh]
  nodup := by simp [Docket.fresh]
  ticket := by simp [Docket.fresh]
  entry := by simp [Docket.fresh]

theorem ticket_eq {d : Docket} {n : Nat} {t u : Ticket} (ht : d.tickets[n]? = some t)
    (hu : d.tickets[n]? = some u) : t = u :=
  Option.some.inj (ht.symm.trans hu)

/-! ### Entries and tickets under the single operations -/

@[simp] theorem tickets_update (d : Docket) (n m : Nat) (f : Ticket → Ticket) :
    (d.update n f).tickets[m]? = if n = m then d.tickets[m]?.map f else d.tickets[m]? := by
  by_cases h : n = m <;> simp [update, h]

@[simp] theorem pending_update (d : Docket) (n : Nat) (f : Ticket → Ticket) :
    (d.update n f).pending = d.pending := rfl

@[simp] theorem find?_update (d : Docket) (n : Nat) (f : Ticket → Ticket) (id : String) :
    (d.update n f).find? id = d.find? id := rfl

@[simp] theorem tickets_without (d : Docket) (id : String) :
    (d.without id).tickets = d.tickets := rfl

theorem mem_without (d : Docket) (id : String) (e : Entry) :
    e ∈ (d.without id).pending ↔ e ∈ d.pending ∧ e.id ≠ id := by
  simp [without]

theorem find?_some (d : Docket) (id : String) (e : Entry) (h : d.find? id = some e) :
    e ∈ d.pending ∧ e.id = id := by
  refine ⟨List.mem_of_find?_eq_some h, ?_⟩
  simpa using List.find?_some h

theorem find?_none_iff (d : Docket) (id : String) :
    d.find? id = none ↔ ∀ e ∈ d.pending, e.id ≠ id := by
  simp [find?]

theorem without_absent (d : Docket) (id : String) (h : d.find? id = none) : d.without id = d := by
  have hall := (find?_none_iff d id).mp h
  have hp : d.pending.filter (fun e => e.id != id) = d.pending := by
    rw [List.filter_eq_self]
    intro e he
    simpa using hall e he
  simp only [without, hp]

theorem resolve_absent (d : Docket) (id : String) (v : Verdict) (h : d.find? id = none) :
    d.resolve id v = d := by
  simp [resolve, h]

theorem pending_resolve (d : Docket) (id : String) (v : Verdict) :
    (d.resolve id v).pending = (d.without id).pending := by
  cases h : d.find? id with
  | none => rw [resolve_absent d id v h, without_absent d id h]
  | some e => simp [resolve, h]

theorem mem_resolve (d : Docket) (id : String) (v : Verdict) (e : Entry) :
    e ∈ (d.resolve id v).pending ↔ e ∈ d.pending ∧ e.id ≠ id := by
  rw [pending_resolve, mem_without]

/-- A verdict is left at the ticket of the entry and nowhere else. -/
theorem tickets_resolve (d : Docket) (id : String) (v : Verdict) (e : Entry)
    (h : d.find? id = some e) (m : Nat) :
    (d.resolve id v).tickets[m]? =
      if e.ticket = m then d.tickets[m]?.map fun t => { t with verdict := some v }
      else d.tickets[m]? := by
  simp only [resolve, h, tickets_update, tickets_without]

/-- A resolved id changes neither the id of a ticket nor its stage. -/
theorem resolve_stage (d : Docket) (id : String) (v : Verdict) (m : Nat) (t : Ticket)
    (ht : d.tickets[m]? = some t) :
    ∃ u, (d.resolve id v).tickets[m]? = some u ∧ u.id = t.id ∧ u.stage = t.stage := by
  cases hf : d.find? id with
  | none => exact ⟨t, by rw [resolve_absent d id v hf, ht], rfl, rfl⟩
  | some e =>
    rw [tickets_resolve d id v e hf, ht]
    by_cases hn : e.ticket = m
    · exact ⟨{ t with verdict := some v }, by simp [hn], rfl, rfl⟩
    · exact ⟨t, by simp [hn], rfl, rfl⟩

/-- Ending a ticket takes what is pending under its id and then changes its stage. -/
theorem finish_eq (d : Docket) (n : Nat) (s : Stage) (t : Ticket) (ht : d.tickets[n]? = some t) :
    d.finish n s = (d.resolve t.id .lost).update n fun t => { t with stage := s } := by
  simp only [finish, ht, resolve, find?_update]
  cases d.find? t.id with
  | none => rfl
  | some e =>
    simp only [update, without, Docket.mk.injEq, true_and]
    apply List.ext_getElem?
    intro m
    simp only [List.getElem?_modify]
    by_cases h₁ : e.ticket = m <;> by_cases h₂ : n = m <;> cases d.tickets[m]? <;> simp [h₁, h₂]

/-! ### One id is pending once -/

theorem Coherent.eq_of_id {d : Docket} (h : Coherent d) {e e' : Entry} (he : e ∈ d.pending)
    (he' : e' ∈ d.pending) (hid : e.id = e'.id) : e = e' :=
  List.inj_on_of_nodup_map h.nodup he he' hid

/-- An entry is made of a request and the number of a ticket. -/
theorem Coherent.entry_eq {d : Docket} (h : Coherent d) {e : Entry} (he : e ∈ d.pending) :
    ∃ q n, e = ⟨q.id, q, n⟩ :=
  ⟨e.request, e.ticket, by rw [← h.key e he]⟩

/-- The ids of the pending requests are the ids they are kept under. -/
theorem Coherent.map_id {d : Docket} (h : Coherent d) :
    (d.pending.map Entry.request).map Request.id = d.pending.map Entry.id := by
  rw [List.map_map]
  exact List.map_congr_left fun e he => (h.key e he).symm

theorem Coherent.nodup_pendingIds {d : Docket} (h : Coherent d) :
    ((d.pending.map Entry.request).map Request.id).Nodup := by
  rw [h.map_id]
  exact h.nodup

theorem Coherent.eq_of_ticket {d : Docket} (h : Coherent d) {e e' : Entry} (he : e ∈ d.pending)
    (he' : e' ∈ d.pending) (hn : e.ticket = e'.ticket) : e = e' := by
  obtain ⟨t, ht, _, hid⟩ := h.ticket e he
  obtain ⟨t', ht', _, hid'⟩ := h.ticket e' he'
  rw [hn, ht'] at ht
  cases ht
  exact h.eq_of_id he he' (hid.symm.trans hid')

theorem Coherent.find?_of_mem {d : Docket} (h : Coherent d) {e : Entry} (he : e ∈ d.pending) :
    d.find? e.id = some e := by
  cases hf : d.find? e.id with
  | none => exact absurd rfl ((find?_none_iff d _).mp hf e he)
  | some e' =>
    obtain ⟨he', hid⟩ := find?_some d _ e' hf
    rw [h.eq_of_id he' he hid]

/-- A ticket that is decided or over has no entry. -/
theorem Coherent.ticket_ne {d : Docket} (h : Coherent d) {n : Nat} {t : Ticket}
    (ht : d.tickets[n]? = some t) (hu : t.undecided = false) {e : Entry} (he : e ∈ d.pending) :
    e.ticket ≠ n := by
  rintro rfl
  obtain ⟨u, hu', hud, _⟩ := h.ticket e he
  obtain rfl := ticket_eq ht hu'
  rw [hu] at hud
  cases hud

/-! ### Every action keeps a docket coherent -/

/-- Taking an entry keeps a docket coherent if its ticket is undecided no more. -/
theorem Coherent.take {d : Docket} (h : Coherent d) {id : String} {e : Entry}
    (hf : d.find? id = some e) (f : Ticket → Ticket) (hu : ∀ t, (f t).undecided = false) :
    Coherent ((d.without id).update e.ticket f) := by
  obtain ⟨he, hid⟩ := find?_some d id e hf
  constructor
  · intro e' he'
    exact h.key e' ((mem_without d id e').mp he').1
  · exact h.nodup.sublist (List.filter_sublist.map _)
  · intro e' he'
    obtain ⟨hp, hne⟩ := (mem_without d id e').mp he'
    have hother : e.ticket ≠ e'.ticket := by
      intro hn
      rw [h.eq_of_ticket he hp hn] at hid
      exact hne hid
    simpa [hother] using h.ticket e' hp
  · intro n t ht hut
    by_cases hn : e.ticket = n
    · simp only [tickets_update, hn, if_true, Option.map_eq_some_iff] at ht
      obtain ⟨u, _, rfl⟩ := ht
      rw [hu u] at hut
      cases hut
    · simp only [tickets_update, hn, if_false, tickets_without] at ht
      obtain ⟨e', he', hn'⟩ := h.entry n t ht hut
      refine ⟨e', (mem_without d id e').mpr ⟨he', ?_⟩, hn'⟩
      intro hid'
      exact hn (by rw [h.eq_of_id he he' (hid.trans hid'.symm), hn'])

theorem Coherent.resolve {d : Docket} (h : Coherent d) (id : String) (v : Verdict) :
    Coherent (d.resolve id v) := by
  cases hf : d.find? id with
  | none => rwa [resolve_absent d id v hf]
  | some e =>
    simp only [Docket.resolve, hf]
    exact h.take hf _ (by simp [Ticket.undecided])

/-- Changing a ticket keeps a docket coherent if it stays as undecided as it was. -/
theorem Coherent.update {d : Docket} (h : Coherent d) (n : Nat) (f : Ticket → Ticket)
    (hf : ∀ t, d.tickets[n]? = some t → (f t).id = t.id ∧ (f t).undecided = t.undecided) :
    Coherent (d.update n f) := by
  refine ⟨h.key, h.nodup, ?_, ?_⟩
  · intro e he
    obtain ⟨t, ht, hu, hid⟩ := h.ticket e he
    by_cases hn : n = e.ticket
    · subst hn
      obtain ⟨hid', hu'⟩ := hf t ht
      exact ⟨f t, by simp [ht], hu'.trans hu, hid'.trans hid⟩
    · exact ⟨t, by simp [hn, ht], hu, hid⟩
  · intro m t ht hu
    by_cases hn : n = m
    · subst hn
      simp only [tickets_update, if_true, Option.map_eq_some_iff] at ht
      obtain ⟨u, hu', rfl⟩ := ht
      exact h.entry n u hu' ((hf u hu').2 ▸ hu)
    · simp only [tickets_update, hn, if_false] at ht
      exact h.entry m t ht hu

/-- Once its id has been resolved a ticket is decided. -/
theorem Coherent.resolve_decides {d : Docket} (h : Coherent d) {n : Nat} {t u : Ticket}
    (ht : d.tickets[n]? = some t) (v : Verdict) (hu : (d.resolve t.id v).tickets[n]? = some u) :
    u.undecided = false := by
  cases hd : u.undecided with
  | false => rfl
  | true =>
    obtain ⟨e, he, hn⟩ := (h.resolve t.id v).entry n u hu hd
    obtain ⟨hp, hne⟩ := (mem_resolve d t.id v e).mp he
    obtain ⟨t', ht', _, hid⟩ := h.ticket e hp
    rw [hn, ht] at ht'
    cases ht'
    exact absurd hid.symm hne

theorem Coherent.finish {d : Docket} (h : Coherent d) (n : Nat) (s : Stage)
    (hs : s.alive = false) : Coherent (d.finish n s) := by
  cases ht : d.tickets[n]? with
  | none => simpa [Docket.finish, ht] using h
  | some t =>
    rw [finish_eq d n s t ht]
    apply (h.resolve t.id .lost).update
    intro u hu
    refine ⟨rfl, ?_⟩
    rw [h.resolve_decides ht .lost hu]
    simp [Ticket.undecided, Ticket.alive, hs]

/-- The docket behind its next id. -/
def drawn (d : Docket) : Docket :=
  { d with ids := (nextId d.ids).2 }

section

variable {d : Docket} {type : String}

theorem request_blank (h : type.isEmpty = true) (isInternal : Bool) (payload : Json) :
    d.request type isInternal payload = (.error .emptyInteractionType, d) := by
  rw [request, if_pos h]

theorem request_pending (h : type.isEmpty = false) {e : Entry}
    (he : d.find? (nextId d.ids).1 = some e) (isInternal : Bool) (payload : Json) :
    d.request type isInternal payload =
      (.error (.duplicateInteractionId (nextId d.ids).1), d.drawn) := by
  simp only [request, h, Bool.false_eq_true, if_false]
  rw [show ({ d with ids := (nextId d.ids).2 } : Docket).find? (nextId d.ids).1 = some e from he]
  rfl

theorem request_free (h : type.isEmpty = false) (hfree : d.find? (nextId d.ids).1 = none)
    (isInternal : Bool) (payload : Json) :
    d.request type isInternal payload =
      (.ok (⟨(nextId d.ids).1, type, isInternal, payload⟩, d.tickets.length),
        { d.drawn with
          pending := d.pending ++
            [⟨(nextId d.ids).1, ⟨(nextId d.ids).1, type, isInternal, payload⟩, d.tickets.length⟩]
          tickets := d.tickets ++ [⟨(nextId d.ids).1, none, .held⟩] }) := by
  simp only [request, h, Bool.false_eq_true, if_false]
  rw [show ({ d with ids := (nextId d.ids).2 } : Docket).find? (nextId d.ids).1 = none from hfree]
  rfl

end

/-- A request is refused, or appends a pending entry and a ticket under an id that is not pending.
-/
theorem request_cases (d : Docket) (type : String) (isInternal : Bool) (payload : Json) :
    (∃ e ids, d.request type isInternal payload = (.error e, { d with ids := ids })) ∨
    (∃ q, q.id = (nextId d.ids).1 ∧ q.type = type ∧ type.isEmpty = false ∧ d.find? q.id = none ∧
      d.request type isInternal payload = (.ok (q, d.tickets.length),
        { d with
          ids := (nextId d.ids).2
          pending := d.pending ++ [⟨q.id, q, d.tickets.length⟩]
          tickets := d.tickets ++ [⟨q.id, none, .held⟩] })) := by
  cases ht : type.isEmpty with
  | true => exact .inl ⟨.emptyInteractionType, d.ids, request_blank ht isInternal payload⟩
  | false =>
    cases hf : d.find? (nextId d.ids).1 with
    | some e =>
      exact .inl ⟨.duplicateInteractionId (nextId d.ids).1, (nextId d.ids).2,
        request_pending ht hf isInternal payload⟩
    | none =>
      exact .inr ⟨⟨(nextId d.ids).1, type, isInternal, payload⟩, rfl, rfl, rfl, hf,
        request_free ht hf isInternal payload⟩

/-- The record of a request that is taken is made of what was asked for. -/
theorem request_record {d : Docket} {type : String} {isInternal : Bool} {payload : Json}
    {q : Request} {n : Nat} (h : (d.request type isInternal payload).1 = .ok (q, n)) :
    q = ⟨(nextId d.ids).1, type, isInternal, payload⟩ := by
  cases ht : type.isEmpty with
  | true =>
    rw [request_blank ht] at h
    cases h
  | false =>
    cases hf : d.find? (nextId d.ids).1 with
    | some e =>
      rw [request_pending ht hf] at h
      cases h
    | none =>
      rw [request_free ht hf] at h
      cases h
      rfl

theorem Coherent.request {d : Docket} (h : Coherent d) (type : String) (isInternal : Bool)
    (payload : Json) : Coherent (d.request type isInternal payload).2 := by
  rcases request_cases d type isInternal payload with ⟨e, ids, hr⟩ | ⟨q, hq, _, _, hf, hr⟩
  · rw [hr]
    exact ⟨h.key, h.nodup, h.ticket, h.entry⟩
  · rw [hr]
    constructor
    · intro e he
      rcases List.mem_append.mp he with he | he
      · exact h.key e he
      · rw [List.mem_singleton.mp he]
    · simp only [List.map_append, List.map_cons, List.map_nil]
      refine List.nodup_append.mpr ⟨h.nodup, by simp, ?_⟩
      simpa using (find?_none_iff d q.id).mp hf
    · intro e he
      rcases List.mem_append.mp he with he | he
      · obtain ⟨t, ht, hu, hid⟩ := h.ticket e he
        exact ⟨t, by rw [List.getElem?_append_left (List.getElem?_eq_some_iff.mp ht).1]; exact ht,
          hu, hid⟩
      · rw [List.mem_singleton.mp he]
        exact ⟨⟨q.id, none, .held⟩, by simp, rfl, rfl⟩
    · intro n t ht hu
      by_cases hn : n < d.tickets.length
      · rw [List.getElem?_append_left hn] at ht
        obtain ⟨e, he, hen⟩ := h.entry n t ht hu
        exact ⟨e, List.mem_append_left _ he, hen⟩
      · have hlen : n = d.tickets.length := by
          have := (List.getElem?_eq_some_iff.mp ht).1
          simp at this; omega
        exact ⟨⟨q.id, q, d.tickets.length⟩, by simp, hlen.symm⟩

theorem Coherent.startWait {d : Docket} (h : Coherent d) (n : Nat) : Coherent (d.startWait n) := by
  apply h.update
  intro t _
  cases hs : t.stage <;> simp [Ticket.undecided, Ticket.alive, Stage.alive, hs]

theorem drop_alive (d : Docket) (n : Nat) (t : Ticket) (ht : d.tickets[n]? = some t)
    (ha : t.alive = true) : d.drop n = d.finish n .dropped := by
  cases hs : t.stage <;> simp_all [Docket.drop, Ticket.alive, Stage.alive]

theorem drop_dead (d : Docket) (n : Nat) (h : ∀ t, d.tickets[n]? = some t → t.alive = false) :
    d.drop n = d := by
  cases ht : d.tickets[n]? with
  | none => simp [Docket.drop, ht]
  | some t =>
    have ha := h t ht
    cases hs : t.stage <;> simp_all [Docket.drop, Ticket.alive, Stage.alive]

theorem Coherent.drop {d : Docket} (h : Coherent d) (n : Nat) : Coherent (d.drop n) := by
  by_cases ha : ∀ t, d.tickets[n]? = some t → t.alive = false
  · rwa [drop_dead d n ha]
  · simp only [not_forall, Bool.not_eq_false] at ha
    obtain ⟨t, ht, ha⟩ := ha
    rw [drop_alive d n t ht ha]
    exact h.finish n .dropped rfl

@[simp] theorem find?_without (d : Docket) (id : String) : (d.without id).find? id = none := by
  rw [find?_none_iff]
  intro e he
  exact ((mem_without d id e).mp he).2

@[simp] theorem find?_resolve (d : Docket) (id : String) (v : Verdict) :
    (d.resolve id v).find? id = none := by
  rw [find?_none_iff]
  intro e he
  exact ((mem_resolve d id v e).mp he).2

/-- What a look at a ticket comes to: nothing, the end of the wait with the verdict, the passing of
the deadline, the expiry of the ticket's own request, the expiry by mistake of a request with the
same id, or the return to waiting when neither request nor verdict is left. -/
inductive Look (d : Docket) (n : Nat) : Docket → Prop where
  | idle (hl : ∀ t, d.tickets[n]? = some t → t.stage ≠ .late)
      (hw : ∀ t limit, d.tickets[n]? = some t → t.stage = .waiting limit →
        t.verdict = none ∧ ∀ deadline, limit = some deadline → d.now < deadline) : Look d n d
  | verdict (t : Ticket) (v : Verdict) (ht : d.tickets[n]? = some t) (ha : t.alive = true)
      (hv : t.verdict = some v) (hf : t.stage = .late → d.find? t.id = none) :
      Look d n (d.finish n (.ended v.outcome))
  | passed (t : Ticket) (deadline : Nat) (ht : d.tickets[n]? = some t)
      (hs : t.stage = .waiting (some deadline)) (hv : t.verdict = none) (hd : deadline ≤ d.now) :
      Look d n (d.update n fun t => { t with stage := .late })
  | expired (t : Ticket) (e : Entry) (ht : d.tickets[n]? = some t) (hs : t.stage = .late)
      (hf : d.find? t.id = some e) (hn : e.ticket = n) :
      Look d n ((d.without t.id).update n fun t => { t with stage := .ended .timedOut })
  | mistaken (t : Ticket) (e : Entry) (ht : d.tickets[n]? = some t) (hs : t.stage = .late)
      (hf : d.find? t.id = some e) (hn : e.ticket ≠ n) :
      Look d n ((d.resolve t.id .lost).update n fun t => { t with stage := .ended .timedOut })
  | resumed (t : Ticket) (ht : d.tickets[n]? = some t) (hs : t.stage = .late)
      (hv : t.verdict = none) (hf : d.find? t.id = none) :
      Look d n (d.update n fun t => { t with stage := .waiting none })

/-- A look at a ticket whose owner does not wait comes to nothing. -/
theorem look_idle (d : Docket) (n : Nat)
    (h : ∀ t, d.tickets[n]? = some t → t.stage ≠ .late ∧ ∀ limit, t.stage ≠ .waiting limit) :
    Look d n d :=
  .idle (fun t ht => (h t ht).1) (fun t limit ht hs => absurd hs ((h t ht).2 limit))

theorem look_waiting (d : Docket) (n : Nat) (t : Ticket) (limit : Option Nat)
    (ht : d.tickets[n]? = some t) (hs : t.stage = .waiting limit) : Look d n (d.poll n) := by
  cases hv : t.verdict with
  | some v =>
    simpa [poll, ht, hs, hv] using
      Look.verdict t v ht (by simp [Ticket.alive, Stage.alive, hs]) hv (by simp [hs])
  | none =>
    have hidle (hd : ∀ deadline, limit = some deadline → d.now < deadline) : Look d n d := by
      apply Look.idle
      · intro u hu
        obtain rfl := ticket_eq ht hu
        simp [hs]
      · intro u limit' hu hs'
        obtain rfl := ticket_eq ht hu
        rw [hs] at hs'
        cases hs'
        exact ⟨hv, hd⟩
    cases limit with
    | none => simpa [poll, ht, hs, hv] using hidle (by simp)
    | some deadline =>
      by_cases hd : deadline ≤ d.now
      · simpa [poll, ht, hs, hv, hd] using Look.passed t deadline ht hs hv hd
      · have hlt : ∀ x, some deadline = some x → d.now < x := by
          intro x hx
          cases hx
          omega
        simpa [poll, ht, hs, hv, hd] using hidle hlt

theorem poll_expired (d : Docket) (n : Nat) (t : Ticket) (e : Entry) (ht : d.tickets[n]? = some t)
    (hs : t.stage = .late) (hf : d.find? t.id = some e) (hn : e.ticket = n) :
    d.poll n = (d.without t.id).update n fun t => { t with stage := .ended .timedOut } := by
  have hfin := finish_eq (d.without t.id) n (.ended .timedOut) t ht
  rw [resolve_absent _ _ _ (find?_without d t.id)] at hfin
  rw [← hfin]
  simp [poll, ht, hs, hf, hn]

theorem look_late (d : Docket) (n : Nat) (t : Ticket) (ht : d.tickets[n]? = some t)
    (hs : t.stage = .late) : Look d n (d.poll n) := by
  cases hf : d.find? t.id with
  | none =>
    cases hv : t.verdict with
    | some v =>
      simpa [poll, ht, hs, hv, hf] using
        Look.verdict t v ht (by simp [Ticket.alive, Stage.alive, hs]) hv (fun _ => hf)
    | none => simpa [poll, ht, hs, hv, hf] using Look.resumed t ht hs hv hf
  | some e =>
    by_cases hn : e.ticket = n
    · rw [poll_expired d n t e ht hs hf hn]
      exact .expired t e ht hs hf hn
    · have ht' : (d.resolve t.id .lost).tickets[n]? = some t := by
        rw [tickets_resolve d t.id .lost e hf, if_neg hn, ht]
      have hfin := finish_eq (d.resolve t.id .lost) n (.ended .timedOut) t ht'
      rw [resolve_absent _ _ _ (find?_resolve d t.id .lost)] at hfin
      have hp : d.poll n = (d.resolve t.id .lost).finish n (.ended .timedOut) := by
        simp [poll, ht, hs, hf, hn, Docket.resolve]
      rw [hp, hfin]
      exact .mistaken t e ht hs hf hn

theorem look_poll (d : Docket) (n : Nat) : Look d n (d.poll n) := by
  cases ht : d.tickets[n]? with
  | none => simpa [poll, ht] using look_idle d n (by simp [ht])
  | some t =>
    cases hs : t.stage with
    | held => simpa [poll, ht, hs] using look_idle d n (by simp [ht, hs])
    | ended o => simpa [poll, ht, hs] using look_idle d n (by simp [ht, hs])
    | dropped => simpa [poll, ht, hs] using look_idle d n (by simp [ht, hs])
    | waiting limit => exact look_waiting d n t limit ht hs
    | late => exact look_late d n t ht hs

theorem poll_dead (d : Docket) (n : Nat) (h : ∀ t, d.tickets[n]? = some t → t.alive = false) :
    d.poll n = d := by
  cases ht : d.tickets[n]? with
  | none => simp [poll, ht]
  | some t =>
    have ha := h t ht
    cases hs : t.stage <;> simp_all [poll, Ticket.alive, Stage.alive]

theorem Coherent.look {d d' : Docket} (h : Coherent d) (n : Nat) (hl : Look d n d') :
    Coherent d' := by
  cases hl with
  | idle hl hw => exact h
  | verdict t v ht ha hv hf => exact h.finish n _ rfl
  | passed t deadline ht hs hv hd =>
    apply h.update
    intro u hu
    obtain rfl := ticket_eq ht hu
    simp [Ticket.undecided, Ticket.alive, Stage.alive, hs]
  | expired t e ht hs hf hn =>
    subst hn
    exact h.take hf _ (by simp [Ticket.undecided, Ticket.alive, Stage.alive])
  | mistaken t e ht hs hf hn =>
    apply (h.resolve t.id .lost).update
    intro u hu
    refine ⟨rfl, ?_⟩
    rw [h.resolve_decides ht .lost hu]
    simp [Ticket.undecided, Ticket.alive, Stage.alive]
  | resumed t ht hs hv hf =>
    apply h.update
    intro u hu
    obtain rfl := ticket_eq ht hu
    simp [Ticket.undecided, Ticket.alive, Stage.alive, hs]

/-! ### Rejection of a type -/

theorem reject_found {d : Docket} {id : String} {e : Entry} (h : d.find? id = some e) :
    d.reject id = leave .rejected (d.without id) e := by
  simp only [reject, resolve, h, leave]

/-- What is taken out does not depend on the tickets. -/
theorem takeOut_update (d : Docket) (n : Nat) (f : Ticket → Ticket) (ids : List String) :
    (d.update n f).takeOut ids = ((d.takeOut ids).1, (d.takeOut ids).2.update n f) := by
  induction ids generalizing d with
  | nil => rfl
  | cons id ids ih =>
    simp only [takeOut, find?_update]
    cases d.find? id with
    | none => exact ih d
    | some e =>
      have hwithout : (d.update n f).without id = (d.without id).update n f := rfl
      simp only [hwithout, ih]

/-- Taking out entries first and telling their owners afterwards comes to the same as doing both for
one id after the other. -/
theorem foldl_leave_takeOut (d : Docket) (ids : List String) :
    (d.takeOut ids).1.foldl (leave .rejected) (d.takeOut ids).2 = ids.foldl reject d := by
  induction ids generalizing d with
  | nil => rfl
  | cons id ids ih =>
    rw [List.foldl_cons, ← ih]
    cases hf : d.find? id with
    | none =>
      rw [reject, resolve_absent d id _ hf]
      simp only [takeOut, hf]
    | some e =>
      rw [reject_found hf, leave, takeOut_update]
      simp only [takeOut, hf, List.foldl_cons]
      rfl

theorem rejectAll_eq (d : Docket) (type : String) :
    (d.rejectAll type).2 = ((d.pendingOf type).map Request.id).foldl reject d :=
  foldl_leave_takeOut d _

theorem act_rejectAll (d : Docket) (type : String) :
    d.act (.rejectAll type) = ((d.pendingOf type).map Request.id).foldl reject d :=
  d.rejectAll_eq type

theorem Coherent.rejectEach {d : Docket} (h : Coherent d) (ids : List String) :
    Coherent (ids.foldl Docket.reject d) := by
  induction ids generalizing d with
  | nil => exact h
  | cons id ids ih => exact ih (h.resolve id .rejected)

/-! ### Actions and runs -/

theorem Coherent.act {d : Docket} (h : Coherent d) (a : Action) : Coherent (d.act a) := by
  cases a with
  | request type isInternal payload => exact h.request type isInternal payload
  | approve id result => exact h.resolve id (.approved result)
  | reject id => exact h.resolve id .rejected
  | rejectAll type =>
    rw [act_rejectAll]
    exact h.rejectEach _
  | startWait n => exact h.startWait n
  | poll n => exact h.look n (look_poll d n)
  | drop n => exact h.drop n
  | pass ms => exact ⟨h.key, h.nodup, h.ticket, h.entry⟩
  | reseed ids => exact ⟨h.key, h.nodup, h.ticket, h.entry⟩

/-- Every run from a coherent docket ends in one, whatever ids are drawn. -/
theorem Coherent.run {d : Docket} (h : Coherent d) (as : List Action) : Coherent (d.run as) := by
  induction as generalizing d with
  | nil => exact h
  | cons a as ih => exact ih (h.act a)

end Docket

end Countersign.Approval
