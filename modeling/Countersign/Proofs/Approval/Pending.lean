import Countersign.Proofs.Approval.Resolution

/-!
# What is pending

In a run with distinct ids the requests that are pending are those that the run has taken and on
which nothing was said yet: no decision, no expiry, and the owner has not left. They are told from
the actions alone, with the type, the flag and the payload that were handed in. In the docket they
are the tickets that are open: the owner holds them, and no decision was left there.
-/
namespace Countersign.Approval

/-- A decision was left at the ticket. -/
def Ticket.decided (t : Ticket) : Bool :=
  match t.verdict with
  | some (.approved _) | some .rejected => true
  | some .lost | none => false

/-- The owner holds the ticket, and there is no decision. -/
def Ticket.isOpen (t : Ticket) : Bool := t.alive && !t.decided

namespace Docket

/-- The numbers of the open tickets. -/
def openTickets (d : Docket) : List Nat :=
  (List.range d.tickets.length).filter fun n => (d.tickets[n]?).any Ticket.isOpen

/-- What an action asks for, if it is taken, with the number of its ticket. -/
def entered? (d : Docket) : Action → Option Entry
  | .request type isInternal payload =>
    match (d.request type isInternal payload).1 with
    | .ok (q, n) => some ⟨q.id, ⟨q.id, type, isInternal, payload⟩, n⟩
    | .error _ => none
  | _ => none

/-- Nothing is said about an entry in a run. -/
def silent (d : Docket) (as : List Action) (e : Entry) : Bool :=
  (first? (word e.request e.ticket) d as).isNone

/-- What a run takes without saying anything about it afterwards, in its order. -/
def unanswered (d : Docket) : List Action → List Entry
  | [] => []
  | a :: as =>
    ((d.entered? a).toList.filter fun e => (d.act a).silent as e) ++ (d.act a).unanswered as

/-! ### One action -/

theorem request_entered (d : Docket) (type : String) (isInternal : Bool) (payload : Json) :
    (d.act (.request type isInternal payload)).pending =
      d.pending ++ (d.entered? (.request type isInternal payload)).toList := by
  simp only [act, entered?, request]
  cases type.isEmpty with
  | true => simp
  | false =>
    simp only [Bool.false_eq_true, if_false]
    cases find? _ _ with
    | some e => simp
    | none => simp

/-- If no request is taken, pending entries are taken away at most, and the others keep their order.
-/
theorem act_filters {d : Docket} {a : Action} (h : d.entered? a = none) :
    ∃ p, (d.act a).pending = d.pending.filter p := by
  have hsame : ∃ p, d.pending = d.pending.filter p := ⟨fun _ => true, by simp⟩
  have hwithout (id : String) : ∃ p, (d.without id).pending = d.pending.filter p := ⟨_, rfl⟩
  have hend (m : Nat) (ha : a = .poll m ∨ a = .drop m) :
      ∃ p, (d.act a).pending = d.pending.filter p := by
    rcases ends_cases d m a ha with ⟨-, hp⟩ | ⟨-, t, -, -, he⟩
    · rw [hp]
      exact hsame
    · rw [he.pending]
      exact hwithout t.id
  have heach (ids : List String) (d : Docket) :
      ∃ p, (ids.foldl reject d).pending = d.pending.filter p := by
    induction ids generalizing d with
    | nil => exact ⟨fun _ => true, by simp⟩
    | cons id ids ih =>
      obtain ⟨p, hp⟩ := ih (d.reject id)
      rw [List.foldl_cons, hp, reject, pending_resolve, without, List.filter_filter]
      exact ⟨_, rfl⟩
  cases a with
  | request type isInternal payload =>
    rw [request_entered, h, Option.toList_none, List.append_nil]
    exact hsame
  | approve id result =>
    rw [act, approve, pending_resolve]
    exact hwithout id
  | reject id =>
    rw [act, reject, pending_resolve]
    exact hwithout id
  | rejectAll type =>
    rw [act_rejectAll]
    exact heach _ d
  | poll m => exact hend m (.inl rfl)
  | drop m => exact hend m (.inr rfl)
  | startWait m | pass ms | reseed ids => exact hsame

/-- A pending entry stays pending if nothing is said about it. -/
theorem Coherent.stays_iff {d : Docket} (h : Coherent d) (ha : Apart d) (a : Action) {e : Entry}
    (he : e ∈ d.pending) :
    e ∈ (d.act a).pending ↔ (word e.request e.ticket d a).isNone := by
  obtain ⟨q, n, rfl⟩ := h.entry_eq he
  have hact := h.follows_act he a
  rw [ha.wordOrLoss_eq h he a] at hact
  cases hw : word q n d a with
  | none =>
    rw [hw] at hact
    exact ⟨fun _ => rfl, fun _ => hact⟩
  | some f =>
    rw [hw] at hact
    obtain ⟨t, ht, -, hu⟩ := hact.decided
    exact ⟨fun hp => absurd rfl ((h.act a).ticket_ne ht hu hp), fun hnone => by cases hnone⟩

/-- An action leaves pending what it says nothing about, and adds what it takes. -/
theorem Coherent.pending_act {d : Docket} (h : Coherent d) (ha : Apart d) (a : Action) :
    (d.act a).pending =
      (d.pending.filter fun e => (word e.request e.ticket d a).isNone) ++
        (d.entered? a).toList := by
  cases hentered : d.entered? a with
  | none =>
    obtain ⟨p, hp⟩ := act_filters hentered
    rw [hp, Option.toList_none, List.append_nil]
    refine List.filter_congr fun e he => ?_
    have hstays := h.stays_iff ha a he
    rw [hp, List.mem_filter] at hstays
    rw [Bool.eq_iff_iff]
    simpa only [he, true_and] using hstays
  | some e =>
    cases a with
    | request type isInternal payload =>
      have hall : d.pending.filter (fun e => (word e.request e.ticket d
          (.request type isInternal payload)).isNone) = d.pending :=
        List.filter_eq_self.mpr fun _ _ => rfl
      rw [hall, request_entered, hentered]
    | _ => cases hentered

/-! ### Runs -/

/-- A run leaves pending what it says nothing about, and adds what it takes and does not answer. -/
theorem Coherent.pending_run {d : Docket} (h : Coherent d) (ha : Apart d) (as : List Action)
    (hd : d.Distinct as) :
    (d.run as).pending = d.pending.filter (d.silent as) ++ d.unanswered as := by
  induction as generalizing d with
  | nil =>
    have hall : d.pending.filter (d.silent []) = d.pending := List.filter_eq_self.mpr fun _ _ => rfl
    rw [run_nil, hall, unanswered, List.append_nil]
  | cons a as ih =>
    have hsilent : d.silent (a :: as) = fun e =>
        (d.act a).silent as e && (word e.request e.ticket d a).isNone := by
      funext e
      simp only [silent, first?]
      cases word e.request e.ticket d a <;> simp
    rw [run_cons, ih (h.act a) (ha.act a hd.1) hd.2, h.pending_act ha a, List.filter_append,
      List.filter_filter, unanswered, List.append_assoc, hsilent]

/-! ### Open tickets -/

/-- No owner is left a loss as long as live tickets have different ids. -/
def NoneLost (d : Docket) : Prop :=
  ∀ (n : Nat) (t : Ticket), d.tickets[n]? = some t → t.alive = true → t.verdict ≠ some .lost

/-- An owner of whom something is said is left a loss only if a loss is what is said. -/
theorem Follows.not_lost {q : Request} {n : Nat} {d : Docket} {f : Fate}
    (h : Follows q n d (some f)) (hf : f ≠ .told (.error (.interactionAbandoned q.id)))
    {t : Ticket} (ht : d.tickets[n]? = some t) (ha : t.alive = true) : t.verdict ≠ some .lost := by
  intro hlost
  cases f with
  | told r =>
    obtain ⟨u, hu, hid, hr⟩ := h
    obtain rfl := ticket_eq ht hu
    rcases hr with ⟨-, v, hv, rfl⟩ | ⟨o, hs, -⟩ | hs
    · obtain rfl := Option.some.inj (hlost.symm.trans hv)
      exact hf (by rw [hid]; rfl)
    · simp [Ticket.alive, Stage.alive, hs] at ha
    · simp [Ticket.alive, Stage.alive, hs] at ha
  | left =>
    obtain ⟨u, hu, -, hs⟩ := h
    obtain rfl := ticket_eq ht hu
    simp [Ticket.alive, Stage.alive, hs] at ha

theorem NoneLost.act {d : Docket} (hl : NoneLost d) (h : Coherent d) (ha : Apart d) (a : Action) :
    NoneLost (d.act a) := by
  intro n u hu hua
  rcases advances_act d a with hadv | ⟨type, isInternal, payload, q, rfl, -, -, htickets⟩
  · obtain ⟨t, ht, -, hp⟩ := hadv n u hu
    cases hut : t.undecided with
    | false =>
      obtain ⟨s, hs, -⟩ := h.act_decided ht hut a
      obtain rfl := ticket_eq hu hs
      exact hl n t ht (hp.alive hua)
    | true =>
      obtain ⟨e, he, rfl⟩ := h.entry n t ht hut
      obtain ⟨q, n, rfl⟩ := h.entry_eq he
      have hact := h.follows_act he a
      rw [ha.wordOrLoss_eq h he a] at hact
      cases hw : word q n d a with
      | none =>
        rw [hw] at hact
        obtain ⟨⟨v, hv, -, hnone, -⟩, -⟩ := (h.act a).of_pending hact
        obtain rfl := ticket_eq hu hv
        rw [hnone]
        nofun
      | some f =>
        rw [hw] at hact
        refine hact.not_lost ?_ hu hua
        rintro rfl
        rcases word_told hw with ⟨result, hr⟩ | hr | hr <;> cases hr
  · rw [htickets, List.getElem?_append] at hu
    split at hu
    next => exact hl n u hu hua
    next =>
      rw [List.getElem?_singleton] at hu
      split at hu
      next =>
        obtain rfl := Option.some.inj hu
        nofun
      next => cases hu

theorem NoneLost.run {d : Docket} (hl : NoneLost d) (h : Coherent d) (ha : Apart d)
    (as : List Action) (hd : d.Distinct as) : NoneLost (d.run as) := by
  induction as generalizing d with
  | nil => exact hl
  | cons a as ih => exact ih (hl.act h ha a) (h.act a) (ha.act a hd.1) hd.2

theorem NoneLost.isOpen_eq {d : Docket} (hl : NoneLost d) {n : Nat} {t : Ticket}
    (ht : d.tickets[n]? = some t) : t.isOpen = t.undecided := by
  cases ha : t.alive with
  | false => simp [Ticket.isOpen, Ticket.undecided, ha]
  | true =>
    have hkept := hl n t ht ha
    rw [Ticket.isOpen, Ticket.undecided, ha, Bool.true_and, Bool.true_and]
    cases hv : t.verdict with
    | none => simp [Ticket.decided, hv]
    | some v =>
      cases v with
      | approved result => simp [Ticket.decided, hv]
      | rejected => simp [Ticket.decided, hv]
      | lost => exact absurd hv hkept

theorem mem_openTickets {d : Docket} {n : Nat} :
    n ∈ d.openTickets ↔ ∃ t, d.tickets[n]? = some t ∧ t.isOpen = true := by
  simp only [openTickets, List.mem_filter, List.mem_range, Option.any_eq_true]
  constructor
  · exact fun h => h.2
  · rintro ⟨t, ht, ho⟩
    exact ⟨(List.getElem?_eq_some_iff.mp ht).1, t, ht, ho⟩

theorem nodup_openTickets (d : Docket) : d.openTickets.Nodup :=
  List.nodup_range.filter _

/-- The tickets of the pending entries are the open ones, each once. -/
theorem Coherent.tickets_perm {d : Docket} (h : Coherent d) (hl : NoneLost d) :
    (d.pending.map Entry.ticket).Perm d.openTickets := by
  have hpending : d.pending.Nodup := h.nodup.of_map
  have htickets : (d.pending.map Entry.ticket).Nodup :=
    hpending.map_on fun e he e' he' => h.eq_of_ticket he he'
  rw [List.perm_ext_iff_of_nodup htickets d.nodup_openTickets]
  intro n
  rw [List.mem_map, mem_openTickets]
  constructor
  · rintro ⟨e, he, rfl⟩
    obtain ⟨t, ht, hu, -⟩ := h.ticket e he
    exact ⟨t, ht, (hl.isOpen_eq ht).trans hu⟩
  · rintro ⟨t, ht, ho⟩
    exact h.entry n t ht ((hl.isOpen_eq ht).symm.trans ho)

/-! ### Every docket that a run leads to -/

/-- If no id is drawn that a live ticket has, every pending request is kept under its own id, and
under no id are there two. Exactly one request is pending for each open ticket, under the id of that
ticket: they are the requests that the run took and on which it said nothing afterwards. The list of
a type has those of that type, each once and with all that was handed in. -/
theorem pending_of_run (ids : Entropy) (timeout : Option Nat) (as : List Action)
    (hd : (fresh ids timeout).Distinct as) :
    let d := (fresh ids timeout).run as
    let taken := (fresh ids timeout).unanswered as
    (∀ e ∈ d.pending, e.id = e.request.id) ∧ (d.pending.map Entry.id).Nodup ∧
    (∀ id e, d.find? id = some e ↔ e ∈ d.pending ∧ e.request.id = id) ∧
    (∀ e ∈ d.pending, ∃ t, d.tickets[e.ticket]? = some t ∧ t.id = e.request.id) ∧
    (d.pending.map Entry.ticket).Perm d.openTickets ∧ d.openTickets.Nodup ∧
    d.count = d.openTickets.length ∧
    d.pending = taken ∧
    ∀ type, (d.pendingOf type).Nodup ∧
      d.pendingOf type = (taken.map Entry.request).filter fun q => q.type == type := by
  intro d taken
  have hfresh := Coherent.fresh ids timeout
  have hapart := Apart.fresh ids timeout
  have hnone : NoneLost (fresh ids timeout) := fun n t ht => by cases ht
  have h : Coherent d := hfresh.run as
  have hperm := h.tickets_perm (hnone.run hfresh hapart as hd)
  have htaken : d.pending = taken := hfresh.pending_run hapart as hd
  refine ⟨h.key, h.nodup, ?keys, ?tickets, hperm, d.nodup_openTickets, ?count, htaken,
    fun type => ⟨?once, ?list⟩⟩
  case keys =>
    intro id e
    constructor
    · intro hf
      obtain ⟨he, hid⟩ := find?_some d id e hf
      exact ⟨he, (h.key e he).symm.trans hid⟩
    · rintro ⟨he, rfl⟩
      rw [← h.key e he]
      exact h.find?_of_mem he
  case tickets =>
    intro e he
    obtain ⟨t, ht, -, hid⟩ := h.ticket e he
    exact ⟨t, ht, hid.trans (h.key e he)⟩
  case count =>
    rw [← hperm.length_eq, List.length_map]
    rfl
  case once =>
    exact (h.nodup_pendingIds).of_map.filter _
  case list => rw [pendingOf, htaken]

theorem novel_of_unused {d : Docket} (h : (nextId d.ids).1 ∉ d.tickets.map Ticket.id)
    (type : String) (isInternal : Bool) (payload : Json) :
    d.Novel (.request type isInternal payload) :=
  fun _ _ ht _ hid => h (hid ▸ List.mem_map_of_mem ht)

/-- Octets for three ids. -/
def threeIds : Entropy := .ofBytes ((List.range 36).map UInt8.ofNat)

/-- Three requests, of which one is rejected and one expires. -/
def threeRequests : List Action :=
  [.request "sign" true .null, .request "login" false .null, .startWait 1, .pass 30000,
    .request "sign" false (.bool true), .reject "000102030405060708090a0b", .poll 1, .poll 1]

/-- Only the third one is pending. -/
theorem third_request_pending :
    let d := (fresh threeIds (some 30)).run threeRequests
    let third : Request := ⟨"18191a1b1c1d1e1f20212223", "sign", false, .bool true⟩
    (fresh threeIds (some 30)).Distinct threeRequests ∧
      (fresh threeIds (some 30)).unanswered threeRequests = [⟨third.id, third, 2⟩] ∧
      d.pendingOf "sign" = [third] ∧ d.pendingOf "login" = [] ∧ d.openTickets = [2] ∧
      d.count = 1 := by
  intro d third
  have hd : (fresh threeIds (some 30)).Distinct threeRequests :=
    ⟨novel_of_unused (by decide) _ _ _, novel_of_unused (by decide) _ _ _, trivial, trivial,
      novel_of_unused (by decide) _ _ _, trivial, trivial, trivial, trivial⟩
  obtain ⟨-, -, -, -, -, -, hcount, hpending, hlists⟩ :=
    pending_of_run threeIds (some 30) threeRequests hd
  have hleft : d.pending = [⟨third.id, third, 2⟩] := rfl
  have hopen : d.openTickets = [2] := rfl
  rw [hopen] at hcount
  rw [← hpending, hleft] at hlists
  exact ⟨hd, hpending.symm.trans hleft, (hlists "sign").2, (hlists "login").2, hopen, hcount⟩

end Docket

end Countersign.Approval
