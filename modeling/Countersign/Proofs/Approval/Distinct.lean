import Countersign.Proofs.Approval.Fate
import Countersign.Proofs.Approval.Progress

/-!
# Runs with distinct ids

When no id is drawn that a live ticket has, live tickets have different ids throughout the run. Then
no request is lost to the end of another ticket, and the first word on a request decides its fate.
-/
namespace Countersign.Approval.Docket

/-- Live tickets have different ids. -/
def Apart (d : Docket) : Prop :=
  ∀ (m n : Nat) (t u : Ticket), d.tickets[m]? = some t → d.tickets[n]? = some u → t.alive = true →
    u.alive = true → t.id = u.id → m = n

/-- The id that an action draws is the id of no live ticket. -/
def Novel (d : Docket) : Action → Prop
  | .request type _ _ => type.isEmpty = false →
    ∀ t ∈ d.tickets, t.alive = true → t.id ≠ (nextId d.ids).1
  | _ => True

/-- In a run of these actions no id is drawn that a live ticket has. -/
def Distinct : Docket → List Action → Prop
  | _, [] => True
  | d, a :: as => d.Novel a ∧ Distinct (d.act a) as

/-- Live tickets stay apart as long as no live id is drawn again. -/
theorem Apart.act {d : Docket} (h : Apart d) (a : Action) (hn : d.Novel a) : Apart (d.act a) := by
  rcases advances_act d a with hadv | ⟨type, isInternal, payload, q, rfl, htype, hq, htickets⟩
  · intro m n t u ht hu hta hua hid
    obtain ⟨t', ht', hid', hp⟩ := hadv m t ht
    obtain ⟨u', hu', hid'', hp'⟩ := hadv n u hu
    exact h m n t' u' ht' hu' (hp.alive hta) (hp'.alive hua) (by rw [← hid', ← hid'', hid])
  · have hnew := hn htype
    have hold (m : Nat) (t : Ticket) (ht : (d.tickets ++ [⟨q.id, none, .held⟩])[m]? = some t) :
        d.tickets[m]? = some t ∨ m = d.tickets.length ∧ t.id = (nextId d.ids).1 := by
      rcases Nat.lt_or_ge m d.tickets.length with hm | hm
      · rw [List.getElem?_append_left hm] at ht
        exact .inl ht
      · have hlt := (List.getElem?_eq_some_iff.mp ht).1
        simp only [List.length_append, List.length_singleton] at hlt
        obtain rfl : m = d.tickets.length := by omega
        simp only [List.getElem?_concat_length, Option.some.injEq] at ht
        exact .inr ⟨rfl, by rw [← ht, hq]⟩
    intro m n t u ht hu hta hua hid
    rw [htickets] at ht hu
    rcases hold m t ht with ht | ⟨rfl, hti⟩ <;> rcases hold n u hu with hu | ⟨rfl, hui⟩
    · exact h m n t u ht hu hta hua hid
    · exact absurd (hid.trans hui) (hnew t (List.mem_of_getElem? ht) hta)
    · exact absurd (hid.symm.trans hti) (hnew u (List.mem_of_getElem? hu) hua)
    · rfl

theorem Apart.fresh (ids : Entropy) (timeout : Option Nat) : Apart (fresh ids timeout) := by
  simp [Apart, Docket.fresh]

theorem Apart.run {d : Docket} (h : Apart d) (as : List Action) (hd : d.Distinct as) :
    Apart (d.run as) := by
  induction as generalizing d with
  | nil => exact h
  | cons a as ih => exact ih (h.act a hd.1) hd.2

theorem distinct_append (d : Docket) (as bs : List Action) :
    d.Distinct (as ++ bs) ↔ d.Distinct as ∧ (d.run as).Distinct bs := by
  induction as generalizing d with
  | nil => simp [Distinct]
  | cons a as ih => simp [Distinct, ih, and_assoc]

/-- Owners draw no ids. -/
theorem distinct_ofOwners (d : Docket) (as : List Action) (h : ∀ a ∈ as, a.ofOwners = true) :
    d.Distinct as := by
  induction as generalizing d with
  | nil => trivial
  | cons a as ih =>
    have ha := h a List.mem_cons_self
    refine ⟨?_, ih (d.act a) fun b hb => h b (List.mem_cons_of_mem a hb)⟩
    cases a with
    | startWait m | poll m | drop m | pass ms => trivial
    | request | approve | reject | rejectAll | reseed => cases ha

/-! ### The first word decides -/

/-- What is pending under the id of a live ticket is its own request. -/
theorem Apart.own {d : Docket} (h : Apart d) (hc : Coherent d) {n : Nat} {t : Ticket}
    (ht : d.tickets[n]? = some t) (ha : t.alive = true) {e : Entry} (he : e ∈ d.pending)
    (hid : e.id = t.id) : e.ticket = n := by
  obtain ⟨u, hu, hud, huid⟩ := hc.ticket e he
  have hua := ((Ticket.undecided_iff u).mp hud).1
  exact h e.ticket n u t hu ht hua ha (huid.trans hid)

/-- A pending request is not lost to another ticket when live tickets have different ids. -/
theorem Apart.wordOrLoss_eq {d : Docket} (h : Apart d) (hc : Coherent d) {q : Request} {n : Nat}
    (he : ⟨q.id, q, n⟩ ∈ d.pending) (a : Action) : wordOrLoss q n d a = word q n d a := by
  have hr : ¬robs q n d a = true := by
    rw [robs_iff]
    rintro ⟨m, t, hend, hn, ht, hid⟩
    obtain ⟨t', ht', ha⟩ := (lives_iff d m).mp (ended?_some hend).2
    obtain rfl := ticket_eq ht ht'
    exact hn (h.own hc ht ha he hid.symm).symm
  simp only [wordOrLoss, hr, if_false, Bool.false_eq_true]

/-- A decided request stays as it was decided. -/
theorem Follows.act {q : Request} {n : Nat} {d : Docket} {f : Fate}
    (h : Follows q n d (some f)) (hc : Coherent d) (ha : Apart d) (a : Action) :
    Follows q n (d.act a) (some f) := by
  rcases h.act_or_expires hc a with h | ⟨t, ht, _, hta, ⟨e, he, hid, hn⟩, _⟩
  · exact h
  · exact absurd (ha.own hc ht hta he hid) hn

theorem Follows.run {q : Request} {n : Nat} {d : Docket} {f : Fate}
    (h : Follows q n d (some f)) (hc : Coherent d) (ha : Apart d) (as : List Action)
    (hd : d.Distinct as) : Follows q n (d.run as) (some f) := by
  induction as generalizing d with
  | nil => exact h
  | cons a as ih => exact ih (h.act hc ha a) (hc.act a) (ha.act a hd.1) hd.2

/-- In a run with distinct ids a pending request meets the fate that the first word on it says. -/
theorem follows_first? {q : Request} {n : Nat} {d : Docket} (he : ⟨q.id, q, n⟩ ∈ d.pending)
    (hc : Coherent d) (ha : Apart d) (as : List Action) (hd : d.Distinct as) :
    Follows q n (d.run as) (first? (word q n) d as) := by
  induction as generalizing d with
  | nil => exact he
  | cons a as ih =>
    have hact := hc.follows_act he a
    rw [ha.wordOrLoss_eq hc he a] at hact
    cases hw : word q n d a with
    | none =>
      rw [hw] at hact
      simp only [first?, hw, run_cons]
      exact ih hact (hc.act a) (ha.act a hd.1) hd.2
    | some f =>
      rw [hw] at hact
      simp only [first?, hw, run_cons]
      exact hact.run (hc.act a) (ha.act a hd.1) as hd.2

end Countersign.Approval.Docket
