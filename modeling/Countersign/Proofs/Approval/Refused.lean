import Countersign.Proofs.Approval.Listening
import Countersign.Proofs.Approval.Rejection

/-!
# Requests that are refused

A request without a type is as if it had not been made. A request whose id is pending has drawn its
id and has done nothing else: the earlier request of the id is left and is decided as if there had
been no other. All other requests are taken. So the ids that are given are read off the source of
ids and the requests that have a type.
-/
namespace Countersign

/-! ### Octets in their order -/

namespace Entropy

/-- The octet that is drawn behind so many others: first what is left, then all octets over and
over. -/
def octetAt (e : Entropy) (i : Nat) : UInt8 :=
  e.left[i]?.getD (e.all.getD ((i - e.left.length) % e.all.length) 0)

/-- The source behind its next octet. -/
def tail (e : Entropy) : Entropy :=
  match e.left, e.all with
  | _ :: left, all => ⟨left, all⟩
  | [], o :: left => ⟨left, o :: left⟩
  | [], [] => e

theorem octetAt_tail (e : Entropy) (i : Nat) : e.tail.octetAt i = e.octetAt (i + 1) := by
  obtain ⟨left, all⟩ := e
  cases left with
  | cons o left => simp [tail, octetAt]
  | nil =>
    cases all with
    | nil => simp [tail, octetAt]
    | cons o left =>
      simp only [tail, octetAt, List.length_nil, List.getElem?_nil, Option.getD_none, Nat.sub_zero]
      by_cases hi : i < left.length
      · have hmod : (i + 1) % (o :: left).length = i + 1 := Nat.mod_eq_of_lt (by simpa using hi)
        rw [hmod]
        simp [hi]
      · have hlen : (o :: left).length = left.length + 1 := rfl
        have hmod : (i - left.length) % (o :: left).length = (i + 1) % (o :: left).length := by
          have hi' : i + 1 = (i - left.length) + (left.length + 1) := by omega
          rw [hi', hlen, Nat.add_mod_right]
        rw [List.getElem?_eq_none (Nat.not_lt.mp hi), Option.getD_none, hmod]

theorem draw_succ (n : Nat) (e : Entropy) :
    e.draw (n + 1) = (e.octetAt 0 :: (e.tail.draw n).1, (e.tail.draw n).2) := by
  obtain ⟨left, all⟩ := e
  cases left with
  | cons o left => rfl
  | nil => cases all <;> rfl

/-- What is drawn are the next octets in their order, and the source goes on behind them. -/
theorem draw_eq (n : Nat) (e : Entropy) :
    (e.draw n).1 = (List.range n).map e.octetAt ∧ ∀ i, (e.draw n).2.octetAt i =
      e.octetAt (n + i) := by
  induction n generalizing e with
  | zero => exact ⟨rfl, fun i => by rw [Nat.zero_add]; rfl⟩
  | succ n ih =>
    obtain ⟨hdrawn, hrest⟩ := ih e.tail
    rw [draw_succ]
    constructor
    · have hshift : e.tail.octetAt = e.octetAt ∘ Nat.succ := funext e.octetAt_tail
      rw [hdrawn, List.range_succ_eq_map, List.map_cons, List.map_map, hshift]
    · intro i
      rw [hrest, octetAt_tail]
      congr 1
      omega

end Entropy

namespace Approval

/-! ### The source of ids -/

namespace Docket

/-- An id is the next twelve octets in hexadecimal. -/
theorem nextId_eq (ids : Entropy) :
    nextId ids = (Hex.encode ((List.range 12).map ids.octetAt), (ids.draw 12).2) := by
  rw [nextId, ← (Entropy.draw_eq 12 ids).1]

end Docket

/-- The source is exchanged. -/
def Action.reseeds : Action → Bool
  | .reseed _ => true
  | _ => false

namespace Docket

/-- Only requests draw from the source. -/
theorem act_ids (d : Docket) {a : Action} (ha : a.takes = false) (hr : a.reseeds = false) :
    (d.act a).ids = d.ids := by
  cases a with
  | request type isInternal payload => cases ha
  | reseed ids => cases hr
  | approve id result => exact (resolve_frame d id _).ids
  | reject id => exact (resolve_frame d id _).ids
  | rejectAll type =>
    rw [act_rejectAll]
    exact (rejectEach_frame d _).ids
  | startWait n => rfl
  | poll n => exact (look_frame (look_poll d n)).ids
  | drop n => exact (drop_frame d n).ids
  | pass ms => rfl

/-! ### What becomes of a request -/

variable {d : Docket} {type : String}

/-- A request that has a type draws an id, whatever becomes of it. -/
theorem request_ids (h : type.isEmpty = false) (isInternal : Bool) (payload : Json) :
    (d.request type isInternal payload).2.ids = d.drawn.ids := by
  cases he : d.find? (nextId d.ids).1 with
  | some e => rw [request_pending h he]
  | none => rw [request_free h he]

/-! ### The request that was there before -/

/-- A pending request that is decided is told so by the next look of its owner. -/
theorem Coherent.decided_next {q : Request} {n : Nat} (h : Coherent d)
    (he : ⟨q.id, q, n⟩ ∈ d.pending) (v : Verdict) :
    (((d.resolve q.id v).startWait n).poll n).result? n = some (v.outcome.result q.id) := by
  obtain ⟨t, ht, hid, ha, hv⟩ := h.resolve_own he v
  have hfree : (d.resolve q.id v).find? t.id = none := by
    rw [hid]
    exact find?_resolve d q.id v
  have hnext := (h.resolve q.id v).told_free ht ha hv hfree
  rwa [hid] at hnext

/-- An entry is pending under its id as before: whatever becomes of it becomes of it as well in the
docket before, and its owner is told of the decision on it. -/
structure StillPending (d d' : Docket) (e : Entry) : Prop where
  found : d'.find? e.request.id = some e
  untouched : Untouched d d' e
  approved : ∀ result,
    (((d'.approve e.request.id result).startWait e.ticket).poll e.ticket).result? e.ticket =
      some (.ok result)
  rejected : (((d'.reject e.request.id).startWait e.ticket).poll e.ticket).result? e.ticket =
    some (.error .rejected)

theorem Coherent.stillPending (h : Coherent d) {id : String} {e : Entry}
    (he : d.find? id = some e) : StillPending d d.drawn e := by
  obtain ⟨hmem, rfl⟩ := find?_some d id e he
  obtain ⟨q, n, rfl⟩ := h.entry_eq hmem
  have hc : Coherent d.drawn := ⟨h.key, h.nodup, h.ticket, h.entry⟩
  have hsame : SameUnder q.id d d.drawn := ⟨rfl, rfl, rfl, fun _ _ _ => .rfl⟩
  exact ⟨he, hsame.untouched h hc hmem, fun result => hc.decided_next hmem (.approved result),
    hc.decided_next hmem .rejected⟩

end Docket

/-! ### Runs -/

namespace Event

/-- A request without a type. -/
def isBlank : Event → Bool
  | ask _ type _ _ => type.isEmpty
  | _ => false

/-- A request that has a type. -/
def isTyped : Event → Bool
  | ask _ type _ _ => !type.isEmpty
  | _ => false

/-- The source of ids is exchanged. -/
def reseeds : Event → Bool
  | act a _ => a.reseeds
  | _ => false

end Event

namespace Desk

theorem docket_request (d : Desk) (channel type : String) (isInternal : Bool) (payload : Json) :
    (d.request channel type isInternal payload).2.docket =
      (d.docket.request type isInternal payload).2 := by
  unfold Desk.request
  rcases d.docket.request type isInternal payload with ⟨e | taken, docket⟩ <;> rfl

theorem docket_event (d : Desk) (channel type : String) (payload : Json) :
    (d.event channel type payload).2.docket = d.docket := by
  unfold event
  split <;> rfl

theorem request_blank {type : String} (h : type.isEmpty = true) (d : Desk) (channel : String)
    (isInternal : Bool) (payload : Json) :
    d.request channel type isInternal payload = (.error .emptyInteractionType, d) := by
  rw [Desk.request, Docket.request_blank h]

theorem coherent_step {d : Desk} (h : d.docket.Coherent) (e : Event) :
    (d.step e).docket.Coherent := by
  cases e with
  | ask channel type isInternal payload =>
    rw [step, docket_request]
    exact h.request type isInternal payload
  | tell channel type payload =>
    rw [step, docket_event]
    exact h
  | act a ha => exact h.act a
  | register | unregister | leave | take => exact h

theorem coherent_run {d : Desk} (h : d.docket.Coherent) (es : List Event) :
    (d.run es).docket.Coherent := by
  induction es generalizing d with
  | nil => exact h
  | cons e es ih => exact ih (coherent_step h e)

/-- A request without a type is as if it had not been made. -/
theorem run_without_blanks (d : Desk) (es : List Event) :
    d.run es = d.run (es.filter fun e => !e.isBlank) := by
  induction es generalizing d with
  | nil => rfl
  | cons e es ih =>
    cases hblank : e.isBlank with
    | false => rw [List.filter_cons_of_pos (by simp [hblank]), run_cons, run_cons, ih]
    | true =>
      have hstep : d.step e = d := by
        cases e with
        | ask channel type isInternal payload => rw [step, request_blank hblank]
        | _ => cases hblank
      rw [List.filter_cons_of_neg (by simp [hblank]), run_cons, hstep, ih]

/-- A request that has a type takes the next twelve octets; nothing else that leaves the source in
its place takes any. -/
theorem octetAt_step (d : Desk) {e : Event} (he : e.reseeds = false) (i : Nat) :
    (d.step e).docket.ids.octetAt i = d.docket.ids.octetAt ((if e.isTyped then 12 else 0) + i) := by
  have hsame (h : (d.step e).docket.ids = d.docket.ids) (hf : e.isTyped = false) :
      (d.step e).docket.ids.octetAt i =
        d.docket.ids.octetAt ((if e.isTyped then 12 else 0) + i) := by
    rw [h, hf, if_neg Bool.false_ne_true, Nat.zero_add]
  cases e with
  | ask channel type isInternal payload =>
    cases ht : type.isEmpty with
    | true => exact hsame (by rw [step, request_blank ht]) (by rw [Event.isTyped, ht]; rfl)
    | false =>
      have htyped : (Event.ask channel type isInternal payload).isTyped = true := by
        rw [Event.isTyped, ht]; rfl
      rw [step, docket_request, Docket.request_ids ht, htyped, if_pos rfl]
      exact (Entropy.draw_eq 12 d.docket.ids).2 i
  | tell channel type payload => exact hsame (by rw [step, docket_event]) rfl
  | act a ha => exact hsame (Docket.act_ids d.docket ha he) rfl
  | register | unregister | leave | take => exact hsame rfl rfl

theorem octetAt_run (d : Desk) {es : List Event} (hes : ∀ e ∈ es, e.reseeds = false) (i : Nat) :
    (d.run es).docket.ids.octetAt i = d.docket.ids.octetAt (12 * es.countP Event.isTyped + i) := by
  induction es generalizing d with
  | nil => rw [List.countP_nil, Nat.mul_zero, Nat.zero_add, run_nil]
  | cons e es ih =>
    obtain ⟨he, hes⟩ := List.forall_mem_cons.mp hes
    rw [run_cons, ih (d.step e) hes, octetAt_step d he, List.countP_cons]
    congr 1
    split <;> omega

/-- In every state of a desk a request without a type is refused and changes nothing, and no notice
is given. A request that has a type draws the next twelve octets of the source. If they are the id
of a pending request it is refused, and that request is still pending and can be decided as before;
nothing is told to a channel, and no notice is given. Otherwise the request is taken under them, its
channel is told, and then notice is given. What happens later is the same without the requests that
have no type, and each of the others takes the twelve octets behind those of the last. -/
theorem requests_taken_or_refused (ids : Entropy) (timeout : Option Nat) (channels : Channels)
    (es : List Event) :
    let d := (⟨.fresh ids timeout, channels⟩ : Desk).run es
    let id := Hex.encode ((List.range 12).map d.docket.ids.octetAt)
    (∀ (channel type : String) (isInternal : Bool) (payload : Json) (σ : Type)
      (notice : Desk × σ → Desk × σ) (s : σ),
      let answer := d.requestWithNotice channel type isInternal payload notice s
      let q : Request := ⟨id, type, isInternal, payload⟩
      let number := d.docket.tickets.length
      (type = "" → answer = (.error .emptyInteractionType, d, s)) ∧
      (∀ e, type ≠ "" → d.docket.find? id = some e →
        answer = (.error (.duplicateInteractionId id), { d with docket := d.docket.drawn }, s) ∧
          d.docket.StillPending d.docket.drawn e) ∧
      (type ≠ "" → d.docket.find? id = none →
        answer = (.ok (q, number),
          notice (⟨{ d.docket.drawn with
            pending := d.docket.pending ++ [⟨id, q, number⟩]
            tickets := d.docket.tickets ++ [⟨id, none, .held⟩] },
            d.channels.trySend channel (.asked q)⟩, s)))) ∧
    ∀ later : List Event,
      d.run later = d.run (later.filter fun e => !e.isBlank) ∧
      ((∀ e ∈ later, e.reseeds = false) → ∀ i,
        (d.run later).docket.ids.octetAt i =
          d.docket.ids.octetAt (12 * later.countP Event.isTyped + i)) := by
  intro d id
  have hid : (Docket.nextId d.docket.ids).1 = id := by rw [Docket.nextId_eq]
  have hc : d.docket.Coherent := coherent_run (.fresh ids timeout) es
  refine ⟨fun channel type isInternal payload σ notice s => ?_,
    fun later => ⟨d.run_without_blanks later, fun hlater => d.octetAt_run hlater⟩⟩
  intro answer q number
  refine ⟨fun ht => ?_, fun e ht he => ⟨?_, hc.stillPending he⟩, fun ht hfree => ?_⟩
  · have hblank := request_blank (String.isEmpty_iff.mpr ht) d channel isInternal payload
    simp only [answer, requestWithNotice, hblank]
  · have htyped : type.isEmpty = false := by simpa using ht
    have hrequest := Docket.request_pending htyped (hid ▸ he) isInternal payload
    simp only [answer, requestWithNotice, Desk.request, hrequest, hid]
  · have htyped : type.isEmpty = false := by simpa using ht
    have hrequest := Docket.request_free htyped (hid ▸ hfree) isInternal payload
    simp only [answer, requestWithNotice, Desk.request, hrequest, hid]
    rfl

/-- A source that gives one id over and over. -/
def oneId : Entropy := .ofBytes ((List.range 12).map UInt8.ofNat)

/-- The first request is taken with a notice, one without a type is refused, and so is a second one,
as it has the id of the first. The first one is approved afterwards. -/
theorem second_of_one_id_refused :
    let start : Desk := ⟨.fresh oneId (some 30), Channels.none.register "popup"⟩
    let asked : Event := .ask "popup" "sign" true .null
    let d := start.run [asked]
    let first : Request := ⟨"000102030405060708090a0b", "sign", true, .null⟩
    let notice (s : Desk × Nat) : Desk × Nat := (s.1, s.2 + 1)
    start.requestWithNotice "popup" "sign" true .null notice 0 = (.ok (first, 0), d, 1) ∧
      d.requestWithNotice "popup" "" true .null notice 0 = (.error .emptyInteractionType, d, 0) ∧
      d.requestWithNotice "popup" "login" false .null notice 0 =
        (.error (.duplicateInteractionId first.id), { d with docket := d.docket.drawn }, 0) ∧
      d.docket.drawn.find? first.id = some ⟨first.id, first, 0⟩ ∧
      (((d.docket.drawn.approve first.id (.bool true)).startWait 0).poll 0).result? 0 =
        some (.ok (.bool true)) ∧
      d.run [.ask "popup" "" true .null, asked] = d.run [asked] ∧
      ∀ i, (d.run [asked]).docket.ids.octetAt i = d.docket.ids.octetAt (12 + i) := by
  intro start asked d first notice
  obtain ⟨hstart, -⟩ :=
    requests_taken_or_refused oneId (some 30) (Channels.none.register "popup") []
  obtain ⟨hrequest, hlater⟩ :=
    requests_taken_or_refused oneId (some 30) (Channels.none.register "popup") [asked]
  obtain ⟨-, -, htaken⟩ := hstart "popup" "sign" true .null Nat notice 0
  obtain ⟨hblank, -, -⟩ := hrequest "popup" "" true .null Nat notice 0
  obtain ⟨-, hpending, -⟩ := hrequest "popup" "login" false .null Nat notice 0
  have hid : Hex.encode ((List.range 12).map d.docket.ids.octetAt) = first.id := by decide
  rw [hid] at hpending
  obtain ⟨hrefused, hstill⟩ := hpending ⟨first.id, first, 0⟩ (by decide) rfl
  exact ⟨htaken (by decide) rfl, hblank rfl, hrefused, hstill.found, hstill.approved (.bool true),
    (hlater [.ask "popup" "" true .null, asked]).1, (hlater [asked]).2 (by decide)⟩

end Desk

end Approval

end Countersign
