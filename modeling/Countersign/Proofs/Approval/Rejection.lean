import Countersign.Proofs.Approval.Locality
import Countersign.Proofs.Approval.Pending
import Mathlib.Data.List.Perm.Basic

/-!
# Rejection of a type

Rejecting a type takes all entries of that type out and tells their owners afterwards. It comes to
the same as rejecting the ids of that type one by one, in any order. Each of the owners is told
once, and whatever becomes of a request of another type becomes of it as well without the rejection.
-/
namespace Countersign.Approval.Docket

/-! ### One by one -/

theorem find?_resolve_other (d : Docket) {id other : String} (v : Verdict) (h : other ≠ id) :
    (d.resolve other v).find? id = d.find? id := by
  rw [find?, pending_resolve, ← find?, find?_without_other h]

/-- The order of two rejections makes no difference. -/
theorem reject_comm (d : Docket) (a b : String) :
    (d.reject a).reject b = (d.reject b).reject a := by
  by_cases hab : a = b
  · rw [hab]
  have hb : (d.reject a).find? b = d.find? b := find?_resolve_other d .rejected hab
  have ha : (d.reject b).find? a = d.find? a := find?_resolve_other d .rejected (Ne.symm hab)
  cases hfa : d.find? a with
  | none =>
    have hnone : d.reject a = d := resolve_absent d a .rejected hfa
    rw [hnone]
    exact (resolve_absent _ a .rejected (ha.trans hfa)).symm
  | some e =>
    cases hfb : d.find? b with
    | none =>
      have hnone : d.reject b = d := resolve_absent d b .rejected hfb
      rw [hnone]
      exact resolve_absent _ b .rejected (hb.trans hfb)
    | some e' =>
      rw [reject_found (hb.trans hfb), reject_found (ha.trans hfa), reject_found hfa,
        reject_found hfb]
      simp only [leave, without, update, Docket.mk.injEq, true_and]
      constructor
      · rw [List.filter_filter, List.filter_filter]
        simp only [Bool.and_comm]
      · apply List.ext_getElem?
        intro m
        simp only [List.getElem?_modify]
        by_cases he : e.ticket = m <;> by_cases he' : e'.ticket = m <;> cases d.tickets[m]? <;>
          simp [he, he']

theorem foldl_reject_perm {ids order : List String} (h : order.Perm ids) (d : Docket) :
    order.foldl reject d = ids.foldl reject d := by
  have hcomm : RightCommutative reject := ⟨reject_comm⟩
  exact h.foldl_eq d

theorem pending_rejectEach (d : Docket) (ids : List String) :
    (ids.foldl reject d).pending = d.pending.filter fun e => e.id ∉ ids := by
  induction ids generalizing d with
  | nil => simp
  | cons id ids ih =>
    rw [List.foldl_cons, ih, reject, pending_resolve, without, List.filter_filter]
    refine List.filter_congr fun e _ => ?_
    by_cases hid : e.id = id <;> simp [hid]

/-- Tickets of other entries, and those without one, stay as they are. -/
theorem tickets_rejectEach {d : Docket} {ids : List String} {n : Nat}
    (h : ∀ e ∈ d.pending, e.id ∈ ids → e.ticket ≠ n) :
    (ids.foldl reject d).tickets[n]? = d.tickets[n]? := by
  induction ids generalizing d with
  | nil => rfl
  | cons id ids ih =>
    have hrest : (ids.foldl reject (d.reject id)).tickets[n]? = (d.reject id).tickets[n]? := by
      apply ih
      intro e he hmem
      exact h e ((mem_resolve d id .rejected e).mp he).1 (List.mem_cons_of_mem id hmem)
    rw [List.foldl_cons, hrest]
    cases hf : d.find? id with
    | none => rw [reject, resolve_absent d id .rejected hf]
    | some e =>
      obtain ⟨he, rfl⟩ := find?_some d id e hf
      rw [reject, tickets_resolve d _ .rejected e hf, if_neg (h e he List.mem_cons_self)]

/-- Different ids with something pending under each give an entry each. -/
theorem length_takeOut {d : Docket} {ids : List String} (hids : ids.Nodup)
    (h : ∀ id ∈ ids, d.find? id ≠ none) : (d.takeOut ids).1.length = ids.length := by
  induction ids generalizing d with
  | nil => rfl
  | cons id ids ih =>
    obtain ⟨hnew, hids⟩ := List.nodup_cons.mp hids
    obtain ⟨hid, hrest⟩ := List.forall_mem_cons.mp h
    obtain ⟨e, he⟩ := Option.ne_none_iff_exists'.mp hid
    have hlength : ((d.without id).takeOut ids).1.length = ids.length := by
      apply ih hids
      intro other hother
      rw [find?_without_other (ne_of_mem_of_not_mem hother hnew).symm]
      exact hrest other hother
    simp only [takeOut, he, List.length_cons, hlength]

/-! ### A type -/

/-- The pending entries of a type. -/
def entriesOf (d : Docket) (type : String) : List Entry :=
  d.pending.filter fun e => e.request.type = type

/-- The owner of an entry is told that it was rejected: nothing was left at its ticket before, the
rejection is afterwards and for ever, and it is what the next look gives. -/
structure ToldOnce (d d' : Docket) (e : Entry) : Prop where
  left : ∃ t, d.tickets[e.ticket]? = some t ∧ t.alive = true ∧ t.verdict = none ∧
    d'.tickets[e.ticket]? = some { t with verdict := some .rejected }
  kept : ∀ as, ∃ t, (d'.run as).tickets[e.ticket]? = some t ∧ t.verdict = some .rejected
  next : ((d'.startWait e.ticket).poll e.ticket).result? e.ticket = some (.error .rejected)

/-- The request of an entry is pending as before. In any later run the same is said about it first,
and up to the action that says it, its ticket is the same. -/
structure Untouched (d d' : Docket) (e : Entry) : Prop where
  pending : e ∈ d'.pending
  said : ∀ as, first? (wordOrLoss e.request e.ticket) d' as =
      first? (wordOrLoss e.request e.ticket) d as
  ticket : ∀ as, first? (wordOrLoss e.request e.ticket) d as = none → ∀ a,
    (d'.run (as ++ [a])).tickets[e.ticket]? = (d.run (as ++ [a])).tickets[e.ticket]?

/-- A pending request is untouched by what leaves the docket the same under its id. -/
theorem SameUnder.untouched {d d' : Docket} {q : Request} {n : Nat} (hsame : SameUnder q.id d d')
    (h : Coherent d) (hc : Coherent d') (he : ⟨q.id, q, n⟩ ∈ d.pending) :
    Untouched d d' ⟨q.id, q, n⟩ := by
  refine ⟨?_, fun as => (hsame.run h hc he as).1, fun as hnone a => ?_⟩
  · exact (find?_some _ q.id _ (hsame.entry.trans (h.find?_of_mem he))).1
  · obtain ⟨hpending, hrun⟩ := (hsame.run h hc he as).2 hnone
    obtain ⟨t, ht, hid⟩ := ((h.run as).follows_act hpending a).ticket ((h.run as).act a)
    have hfound : (d.run as).find? q.id ≠ none := by
      rw [(h.run as).find?_of_mem hpending]
      exact Option.some_ne_none _
    have hact := hrun.act (h.run as) (hc.run as) hfound a
    rw [run_append, run_append, run_cons, run_cons, run_nil, run_nil, ht]
    exact (hact.ticket n t hid).mpr ht

section

variable {d : Docket} (h : Coherent d) (type : String)

include h

theorem Coherent.nodup_pendingOf : ((d.pendingOf type).map Request.id).Nodup :=
  h.nodup_pendingIds.sublist (List.filter_sublist.map _)

theorem Coherent.find?_pendingOf : ∀ id ∈ (d.pendingOf type).map Request.id, d.find? id ≠ none := by
  intro id hid
  obtain ⟨q, hq, rfl⟩ := List.mem_map.mp hid
  obtain ⟨e, he, rfl⟩ := List.mem_map.mp (List.mem_filter.mp hq).1
  rw [← h.key e he, h.find?_of_mem he]
  exact Option.some_ne_none e

theorem Coherent.count_rejectAll : (d.rejectAll type).1 = (d.pendingOf type).length := by
  have hlength := length_takeOut (h.nodup_pendingOf type) (h.find?_pendingOf type)
  rwa [List.length_map] at hlength

theorem Coherent.pending_rejectAll :
    (d.rejectAll type).2.pending = d.pending.filter fun e => e.request.type ≠ type := by
  rw [rejectAll_eq, pending_rejectEach]
  refine List.filter_congr fun e he => decide_eq_decide.mpr (not_congr ?_)
  obtain ⟨q, n, rfl⟩ := h.entry_eq he
  rw [h.mem_pendingOf he type, eq_comm]

theorem Coherent.tickets_rejectAll {n : Nat} (hn : ∀ e ∈ d.entriesOf type, e.ticket ≠ n) :
    (d.rejectAll type).2.tickets[n]? = d.tickets[n]? := by
  rw [rejectAll_eq]
  apply tickets_rejectEach
  intro e he hid
  obtain ⟨q, n, rfl⟩ := h.entry_eq he
  have htype : type = q.type := (h.mem_pendingOf he type).mp hid
  exact hn _ (List.mem_filter.mpr ⟨he, by simp [htype]⟩)

theorem Coherent.nodup_entriesOf : ((d.entriesOf type).map Entry.ticket).Nodup := by
  have hentries : (d.entriesOf type).Nodup := h.nodup.of_map.filter _
  refine hentries.map_on fun e he e' he' => ?_
  exact h.eq_of_ticket (List.mem_filter.mp he).1 (List.mem_filter.mp he').1

/-- To an entry the rejection of a type is the rejection of its own id, or nothing at all. -/
theorem Coherent.sameUnder_rejectAll {q : Request} {n : Nat} (he : ⟨q.id, q, n⟩ ∈ d.pending) :
    SameUnder q.id (if type = q.type then d.reject q.id else d) (d.rejectAll type).2 := by
  have heach :
      SameUnder q.id (if q.id ∈ (d.pendingOf type).map Request.id then d.reject q.id else d)
      (((d.pendingOf type).map Request.id).foldl reject d) := SameUnder.rejectEach h _
  simp only [h.mem_pendingOf he type] at heach
  rwa [rejectAll_eq]

theorem Coherent.toldOnce {e : Entry} (he : e ∈ d.entriesOf type) :
    ToldOnce d (d.rejectAll type).2 e := by
  obtain ⟨hp, htype⟩ := List.mem_filter.mp he
  obtain ⟨q, n, rfl⟩ := h.entry_eq hp
  obtain ⟨⟨t, ht, ha, hv, hid⟩, hf⟩ := h.of_pending hp
  have hsame := h.sameUnder_rejectAll type hp
  rw [if_pos (of_decide_eq_true htype).symm] at hsame
  have hown : (d.reject q.id).tickets[n]? = some { t with verdict := some .rejected } := by
    rw [reject, tickets_resolve d q.id .rejected _ hf, if_pos rfl, ht, Option.map_some]
  have hleft : (d.rejectAll type).2.tickets[n]? = some { t with verdict := some .rejected } :=
    (hsame.ticket n { t with verdict := some .rejected } hid).mpr hown
  have hc : Coherent (d.rejectAll type).2 := h.act (.rejectAll type)
  refine ⟨⟨t, ht, ha, hv, hleft⟩, hc.run_verdict hleft rfl, ?_⟩
  have hfree : (d.rejectAll type).2.find? q.id = none := by
    rw [hsame.entry]
    exact find?_resolve d q.id .rejected
  exact hc.told_free hleft ha rfl (hid ▸ hfree)

theorem Coherent.untouched {e : Entry} (he : e ∈ d.pending) (htype : e.request.type ≠ type) :
    Untouched d (d.rejectAll type).2 e := by
  obtain ⟨q, n, rfl⟩ := h.entry_eq he
  have hsame := h.sameUnder_rejectAll type he
  rw [if_neg (Ne.symm htype)] at hsame
  exact hsame.untouched h (h.act (.rejectAll type)) he

theorem Coherent.rejectAll_again :
    (d.rejectAll type).2.rejectAll type = (0, (d.rejectAll type).2) := by
  have hnone : (d.rejectAll type).2.pendingOf type = [] := by
    rw [pendingOf, h.pending_rejectAll type, List.filter_eq_nil_iff]
    intro q hq
    obtain ⟨e, he, rfl⟩ := List.mem_map.mp hq
    simpa using (List.mem_filter.mp he).2
  rw [rejectAll, hnone]
  rfl

end

/-- Whatever was done to a docket, the rejection of a type leaves it as the rejection of the pending
ids of that type one by one does, in any order, be they all taken out first or not. It gives their
number. Each of their owners is told once, and no other ticket changes. The entries of other types
are left, and what becomes of them is the same with and without it. A second rejection finds
nothing. -/
theorem rejectAll_one_by_one (ids : Entropy) (timeout : Option Nat) (as : List Action)
    (type : String) :
    let d := (fresh ids timeout).run as
    let d' := (d.rejectAll type).2
    (∀ order : List String, order.Perm ((d.pendingOf type).map Request.id) →
      order.foldl reject d = d' ∧
        (d.takeOut order).1.foldl (leave .rejected) (d.takeOut order).2 = d') ∧
    (d.rejectAll type).1 = (d.pendingOf type).length ∧
    ((d.entriesOf type).map Entry.request = d.pendingOf type ∧
      ((d.entriesOf type).map Entry.ticket).Nodup) ∧
    (∀ e ∈ d.entriesOf type, ToldOnce d d' e) ∧
    (∀ n, (∀ e ∈ d.entriesOf type, e.ticket ≠ n) → d'.tickets[n]? = d.tickets[n]?) ∧
    (d'.pending = d.pending.filter fun e => e.request.type ≠ type) ∧
    (∀ e ∈ d.pending, e.request.type ≠ type → Untouched d d' e) ∧
    d'.rejectAll type = (0, d') := by
  intro d d'
  have h : Coherent d := (Coherent.fresh ids timeout).run as
  refine ⟨fun order horder => ?_, h.count_rejectAll type, ⟨?_, h.nodup_entriesOf type⟩,
    fun e he => h.toldOnce type he, fun n hn => h.tickets_rejectAll type hn,
    h.pending_rejectAll type, fun e he htype => h.untouched type he htype, h.rejectAll_again type⟩
  · have hfold : order.foldl reject d = d' := by rw [foldl_reject_perm horder, ← rejectAll_eq]
    exact ⟨hfold, (foldl_leave_takeOut d order).trans hfold⟩
  · rw [pendingOf, List.filter_map, entriesOf]
    rfl

/-- Of three requests the first one and the third are rejected with their type, as their ids would
be in the other order. The second one is left, and is approved afterwards. -/
theorem signing_rejected :
    let as : List Action := [.request "sign" true .null, .request "login" false .null,
      .request "sign" false (.bool true), .startWait 0, .startWait 1]
    let d := (fresh threeIds (some 30)).run as
    let d' := (d.rejectAll "sign").2
    let login : Request := ⟨"0c0d0e0f1011121314151617", "login", false, .null⟩
    let approval : Action := .approve login.id (.bool true)
    (d.rejectAll "sign").1 = 2 ∧
      ["18191a1b1c1d1e1f20212223", "000102030405060708090a0b"].foldl reject d = d' ∧
      ((d'.startWait 0).poll 0).result? 0 = some (.error .rejected) ∧
      ((d'.startWait 2).poll 2).result? 2 = some (.error .rejected) ∧
      d'.pending = [⟨login.id, login, 1⟩] ∧ d'.rejectAll "sign" = (0, d') ∧
      first? (wordOrLoss login 1) d' [approval] = some (.told (.ok (.bool true))) ∧
      (d'.run [approval]).tickets[1]? = (d.run [approval]).tickets[1]? := by
  intro as d d' login approval
  obtain ⟨horder, hcount, -, htold, -, hpending, huntouched, hagain⟩ :=
    rejectAll_one_by_one threeIds (some 30) as "sign"
  have hids : (d.pendingOf "sign").map Request.id =
      ["000102030405060708090a0b", "18191a1b1c1d1e1f20212223"] := rfl
  have hentries : d.entriesOf "sign" = [
      ⟨"000102030405060708090a0b", ⟨"000102030405060708090a0b", "sign", true, .null⟩, 0⟩,
      ⟨"18191a1b1c1d1e1f20212223",
        ⟨"18191a1b1c1d1e1f20212223", "sign", false, .bool true⟩, 2⟩] := rfl
  rw [hentries] at htold
  obtain ⟨hfirst, hthird, -⟩ := List.forall_mem_cons.mp htold |>.imp_right List.forall_mem_cons.mp
  have hlogin : Untouched d d' ⟨login.id, login, 1⟩ :=
    huntouched ⟨login.id, login, 1⟩ (.tail _ (.head _)) (by decide)
  have hsaid : first? (wordOrLoss login 1) d [approval] = some (.told (.ok (.bool true))) := rfl
  exact ⟨hcount, (horder _ (hids ▸ .swap _ _ [])).1, hfirst.next, hthird.next, hpending, hagain,
    (hlogin.said [approval]).trans hsaid, hlogin.ticket [] rfl approval⟩

end Countersign.Approval.Docket
