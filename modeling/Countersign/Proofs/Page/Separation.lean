import Countersign.Wallet

/-!
# Pages and approvals are apart

A web page neither influences nor observes what concerns approvals. A trace mixes requests of pages
and of the wallet, as values or as texts, with anything that happens at the desk or in the messaging
service on its own. Without the requests of web pages the desk goes through the same states and the
wallet's own pages get the same answers about approvals; and a web page gets the same answers
whatever is at the desk.
-/
namespace Countersign.Wallet

open Json Approval

/-- What can happen to a wallet. The desk and the messaging service also move by themselves:
requests are taken, looked at, timed out and dropped, keys are registered, suspended calls go on. -/
inductive Event where
  | ask (caller : Caller) (q : PageRequest)
  | askText (caller : Caller) (text : String)
  | desk (op : Desk → Desk)
  | messaging (s : Messaging.Service) (random : Entropy)

namespace Event

/-- A request of a web page. -/
def isExternal : Event → Bool
  | .ask caller _ | .askText caller _ => !caller.isInternal
  | _ => false

def request? : Event → Option PageRequest
  | .ask _ q => some q
  | .askText _ text => (decodeText PageRequest.decode text).toOption
  | _ => none

/-- A request about approvals. -/
def isDecision (e : Event) : Bool := e.request?.any PageRequest.needsWallet

/-- A request of the wallet's own pages about approvals. -/
def isOwnDecision (e : Event) : Bool := e.isDecision && !e.isExternal

/-- The event concerns the desk alone. -/
def ofDesk : Event → Bool
  | .desk _ => true
  | e => e.isOwnDecision

end Event

/-- One event: the answer, if it is a request, and the wallet after it. -/
def step (w : Wallet) : Event → Option PageAnswer × Wallet
  | .ask caller q => (some (w.handle caller q).1, (w.handle caller q).2)
  | .askText caller text => (some (w.handleText caller text).1, (w.handleText caller text).2)
  | .desk op => (none, { w with desk := op w.desk })
  | .messaging s random => (none, { w with messaging := s, random := random })

def run (w : Wallet) (es : List Event) : Wallet := es.foldl (fun w e => (w.step e).2) w

/-- The answers to the requests of one kind, in their order. -/
def answers (p : Event → Bool) : Wallet → List Event → List PageAnswer
  | _, [] => []
  | w, e :: es => (if p e then (w.step e).1.toList else []) ++ answers p (w.step e).2 es

@[simp] theorem run_nil (w : Wallet) : w.run [] = w := rfl
@[simp] theorem run_cons (w : Wallet) (e : Event) (es : List Event) :
    w.run (e :: es) = (w.step e).2.run es := rfl

/-! ### Single requests -/

theorem dispatch_page (w : Wallet) (caller : Caller) (q : PageRequest)
    (hc : caller.isInternal = false) (hq : q.needsWallet = true) :
    w.dispatch caller q =
      (.error (.permissionDenied (q.kind ++ " is only accepted from the wallet")), w) := by
  simp [dispatch, hc, hq]

theorem dispatch_perform (w : Wallet) (caller : Caller) (q : PageRequest)
    (h : q.needsWallet = false ∨ caller.isInternal = true) :
    w.dispatch caller q = w.perform caller q := by
  rcases h with h | h <;> simp [dispatch, h]

/-- Requests about messaging leave the desk alone. -/
theorem perform_desk (w : Wallet) (caller : Caller) (q : PageRequest)
    (hq : q.needsWallet = false) : (w.perform caller q).2.desk = w.desk := by
  cases q with
  | approve id result | reject id | rejectAll type | listPending type => cases hq
  | publicKey chain | encrypt chain address text | decrypt chain envelope | sign chain payload =>
    rfl

/-- Requests about messaging do not look at the desk. -/
theorem perform_messaging (w w' : Wallet) (caller : Caller) (q : PageRequest)
    (hq : q.needsWallet = false) (hm : w.messaging = w'.messaging) (hr : w.random = w'.random) :
    (w.perform caller q).1 = (w'.perform caller q).1 ∧
      (w.perform caller q).2.messaging = (w'.perform caller q).2.messaging ∧
      (w.perform caller q).2.random = (w'.perform caller q).2.random := by
  cases q with
  | approve id result | reject id | rejectAll type | listPending type => cases hq
  | publicKey chain | encrypt chain address text | decrypt chain envelope | sign chain payload =>
    simp only [perform, hm, hr, and_self]

/-- Requests about approvals look at nothing but the desk. -/
theorem perform_decision (w w' : Wallet) (caller : Caller) (q : PageRequest)
    (hq : q.needsWallet = true) (hd : w.desk = w'.desk) :
    (w.perform caller q).1 = (w'.perform caller q).1 ∧
      (w.perform caller q).2.desk = (w'.perform caller q).2.desk := by
  cases q with
  | approve id result | reject id | rejectAll type | listPending type =>
    simp only [perform, withDocket, hd, and_self]
  | publicKey chain | encrypt chain address text | decrypt chain envelope | sign chain payload =>
    cases hq

/-- Requests about approvals leave the messaging service alone. -/
theorem perform_decision_frame (w : Wallet) (caller : Caller) (q : PageRequest)
    (hq : q.needsWallet = true) :
    (w.perform caller q).2.messaging = w.messaging ∧ (w.perform caller q).2.random = w.random := by
  cases q with
  | approve id result | reject id | rejectAll type | listPending type => exact ⟨rfl, rfl⟩
  | publicKey chain | encrypt chain address text | decrypt chain envelope | sign chain payload =>
    cases hq

/-- The answer to what a request came to. -/
def answerOf : Except Error PageAnswer → PageAnswer
  | .ok a => a
  | .error e => .error e.report

theorem handle_eq (w : Wallet) (caller : Caller) (q : PageRequest) :
    w.handle caller q = (answerOf (w.dispatch caller q).1, (w.dispatch caller q).2) := by
  unfold handle
  rcases w.dispatch caller q with ⟨e | a, w'⟩ <;> rfl

theorem step_ask (w : Wallet) (caller : Caller) (q : PageRequest) :
    w.step (.ask caller q) =
      (some (answerOf (w.dispatch caller q).1), (w.dispatch caller q).2) := by
  simp only [step, handle_eq]

/-- A text is answered like the request that it holds, or by a report that depends on it alone. -/
theorem step_askText (caller : Caller) (text : String) :
    (∃ q, (Event.askText caller text).request? = some q ∧
      ∀ w : Wallet, w.step (.askText caller text) = w.step (.ask caller q)) ∨
    ∃ a, (Event.askText caller text).request? = none ∧
      ∀ w : Wallet, w.step (.askText caller text) = (some a, w) := by
  cases h : decodeText PageRequest.decode text with
  | ok q =>
    refine .inl ⟨q, by simp [Event.request?, h, Except.toOption], fun w => ?_⟩
    simp only [step, handleText, h]
  | error e =>
    refine .inr ⟨.error (Error.json e.message).report, ?_, fun w => ?_⟩
    · simp [Event.request?, h, Except.toOption]
    · simp only [step, handleText, h]

/-! ### Requests of web pages -/

theorem ask_page (w : Wallet) (caller : Caller) (q : PageRequest)
    (hc : caller.isInternal = false) : (w.step (.ask caller q)).2.desk = w.desk := by
  rw [step_ask]
  cases hq : q.needsWallet with
  | true => rw [dispatch_page w caller q hc hq]
  | false =>
    rw [dispatch_perform w caller q (.inl hq)]
    exact w.perform_desk caller q hq

/-- A web page leaves the desk as it is. -/
theorem step_external (w : Wallet) (e : Event) (he : e.isExternal = true) :
    (w.step e).2.desk = w.desk := by
  cases e with
  | ask caller q => exact w.ask_page caller q (by simpa [Event.isExternal] using he)
  | askText caller text =>
    rcases step_askText caller text with ⟨q, _, hw⟩ | ⟨a, _, hw⟩
    · rw [hw]
      exact w.ask_page caller q (by simpa [Event.isExternal] using he)
    · rw [hw]
  | desk op | messaging s random => cases he

/-! ### What goes on at the desk -/

theorem ask_desk_congr (w w' : Wallet) (caller : Caller) (q : PageRequest)
    (hd : w.desk = w'.desk) :
    (w.step (.ask caller q)).2.desk = (w'.step (.ask caller q)).2.desk ∧
      (q.needsWallet = true →
        (w.step (.ask caller q)).1 = (w'.step (.ask caller q)).1) := by
  simp only [step_ask]
  cases hq : q.needsWallet with
  | false =>
    rw [dispatch_perform w caller q (.inl hq), dispatch_perform w' caller q (.inl hq),
      w.perform_desk caller q hq, w'.perform_desk caller q hq]
    exact ⟨hd, fun h => by cases h⟩
  | true =>
    cases hc : caller.isInternal with
    | false =>
      rw [dispatch_page w caller q hc hq, dispatch_page w' caller q hc hq]
      exact ⟨hd, fun _ => rfl⟩
    | true =>
      rw [dispatch_perform w caller q (.inr hc), dispatch_perform w' caller q (.inr hc)]
      obtain ⟨ha, hd'⟩ := w.perform_decision w' caller q hq hd
      exact ⟨hd', fun _ => by rw [ha]⟩

/-- What an event does at the desk, and what it answers about approvals, depends on the desk alone.
-/
theorem step_desk_congr (w w' : Wallet) (e : Event) (hd : w.desk = w'.desk) :
    (w.step e).2.desk = (w'.step e).2.desk ∧
      (e.isDecision = true → (w.step e).1 = (w'.step e).1) := by
  cases e with
  | ask caller q => exact w.ask_desk_congr w' caller q hd
  | askText caller text =>
    rcases step_askText caller text with ⟨q, hq, hw⟩ | ⟨a, _, hw⟩
    · rw [hw, hw]
      obtain ⟨hd', ha⟩ := w.ask_desk_congr w' caller q hd
      exact ⟨hd', fun h => ha (by simpa [Event.isDecision, hq] using h)⟩
    · rw [hw, hw]
      exact ⟨hd, fun _ => rfl⟩
  | desk op => exact ⟨congrArg op hd, fun _ => rfl⟩
  | messaging s random => exact ⟨hd, fun _ => rfl⟩

/-! ### What goes on in the messaging service -/

theorem ask_decision_frame (w : Wallet) (caller : Caller) (q : PageRequest)
    (hq : q.needsWallet = true) :
    (w.step (.ask caller q)).2.messaging = w.messaging ∧
      (w.step (.ask caller q)).2.random = w.random := by
  rw [step_ask]
  cases hc : caller.isInternal with
  | false =>
    rw [dispatch_page w caller q hc hq]
    exact ⟨rfl, rfl⟩
  | true =>
    rw [dispatch_perform w caller q (.inr hc)]
    exact w.perform_decision_frame caller q hq

/-- What concerns the desk alone leaves the messaging service as it is. -/
theorem step_ofDesk (w : Wallet) (e : Event) (he : e.ofDesk = true) :
    (w.step e).2.messaging = w.messaging ∧ (w.step e).2.random = w.random := by
  cases e with
  | ask caller q =>
    simp only [Event.ofDesk, Event.isOwnDecision, Event.isDecision, Event.request?,
      Option.any_some, Bool.and_eq_true] at he
    exact w.ask_decision_frame caller q he.1
  | askText caller text =>
    rcases step_askText caller text with ⟨q, hq, hw⟩ | ⟨a, _, hw⟩
    · rw [hw]
      simp only [Event.ofDesk, Event.isOwnDecision, Event.isDecision, hq, Option.any_some,
        Bool.and_eq_true] at he
      exact w.ask_decision_frame caller q he.1
    · rw [hw]
      exact ⟨rfl, rfl⟩
  | desk op => exact ⟨rfl, rfl⟩
  | messaging s random => cases he

theorem ask_messaging_congr (w w' : Wallet) (caller : Caller) (q : PageRequest)
    (h : q.needsWallet = true → caller.isInternal = false) (hm : w.messaging = w'.messaging)
    (hr : w.random = w'.random) :
    (w.step (.ask caller q)).1 = (w'.step (.ask caller q)).1 ∧
      (w.step (.ask caller q)).2.messaging = (w'.step (.ask caller q)).2.messaging ∧
      (w.step (.ask caller q)).2.random = (w'.step (.ask caller q)).2.random := by
  simp only [step_ask]
  cases hq : q.needsWallet with
  | true =>
    rw [dispatch_page w caller q (h hq) hq, dispatch_page w' caller q (h hq) hq]
    exact ⟨rfl, hm, hr⟩
  | false =>
    rw [dispatch_perform w caller q (.inl hq), dispatch_perform w' caller q (.inl hq)]
    obtain ⟨ha, hs⟩ := w.perform_messaging w' caller q hq hm hr
    exact ⟨by rw [ha], hs⟩

/-- Whatever does not concern the desk alone goes on in the same way whatever is at the desk. -/
theorem step_messaging_congr (w w' : Wallet) (e : Event) (he : e.ofDesk = false)
    (hm : w.messaging = w'.messaging) (hr : w.random = w'.random) :
    (w.step e).1 = (w'.step e).1 ∧ (w.step e).2.messaging = (w'.step e).2.messaging ∧
      (w.step e).2.random = (w'.step e).2.random := by
  cases e with
  | ask caller q =>
    have h : q.needsWallet = true → caller.isInternal = false := by
      simpa [Event.ofDesk, Event.isOwnDecision, Event.isDecision, Event.request?,
        Event.isExternal] using he
    exact w.ask_messaging_congr w' caller q h hm hr
  | askText caller text =>
    rcases step_askText caller text with ⟨q, hq, hw⟩ | ⟨a, _, hw⟩
    · rw [hw, hw]
      have h : q.needsWallet = true → caller.isInternal = false := by
        simpa [Event.ofDesk, Event.isOwnDecision, Event.isDecision, hq, Event.isExternal] using he
      exact w.ask_messaging_congr w' caller q h hm hr
    · rw [hw, hw]
      exact ⟨rfl, hm, hr⟩
  | desk op => cases he
  | messaging s random => exact ⟨rfl, rfl, rfl⟩

theorem ofDesk_external (e : Event) (he : e.isExternal = true) : e.ofDesk = false := by
  cases e with
  | ask caller q | askText caller text =>
    simp only [Event.ofDesk, Event.isOwnDecision, he, Bool.not_true, Bool.and_false]
  | desk op | messaging s random => cases he

/-! ### Traces -/

/-- Without the requests of web pages the desk comes out the same, whatever the messaging service
does, and so do the answers about approvals. -/
theorem run_without_pages (w w' : Wallet) (es : List Event) (hd : w.desk = w'.desk) :
    (w.run es).desk = (w'.run (es.filter fun e => !e.isExternal)).desk ∧
      answers Event.isOwnDecision w es =
        answers Event.isOwnDecision w' (es.filter fun e => !e.isExternal) := by
  induction es generalizing w w' with
  | nil => exact ⟨hd, rfl⟩
  | cons e es ih =>
    cases he : e.isExternal with
    | true =>
      obtain ⟨hdesk, hans⟩ := ih (w.step e).2 w' ((w.step_external e he).trans hd)
      simp only [he, Bool.not_true, Bool.false_eq_true, not_false_eq_true,
        List.filter_cons_of_neg, run_cons, answers, Event.isOwnDecision, Bool.and_false, if_false,
        List.nil_append]
      exact ⟨hdesk, hans⟩
    | false =>
      obtain ⟨hd', ha⟩ := w.step_desk_congr w' e hd
      obtain ⟨hdesk, hans⟩ := ih (w.step e).2 (w'.step e).2 hd'
      have hown : e.isOwnDecision = e.isDecision := by simp [Event.isOwnDecision, he]
      simp only [he, Bool.not_false, List.filter_cons_of_pos, run_cons, answers, hown]
      refine ⟨hdesk, ?_⟩
      rw [hans]
      by_cases hdec : e.isDecision = true
      · rw [ha hdec]
      · simp [hdec]

/-- Without what concerns the desk alone web pages get the same answers, whatever is at the desk. -/
theorem answers_without_desk (w w' : Wallet) (es : List Event) (hm : w.messaging = w'.messaging)
    (hr : w.random = w'.random) :
    answers Event.isExternal w es =
      answers Event.isExternal w' (es.filter fun e => !e.ofDesk) := by
  induction es generalizing w w' with
  | nil => rfl
  | cons e es ih =>
    cases he : e.ofDesk with
    | true =>
      have hext : e.isExternal = false := by
        cases hx : e.isExternal with
        | false => rfl
        | true =>
          rw [ofDesk_external e hx] at he
          cases he
      obtain ⟨hm', hr'⟩ := w.step_ofDesk e he
      simp only [he, Bool.not_true, Bool.false_eq_true, not_false_eq_true,
        List.filter_cons_of_neg, answers, hext, if_false, List.nil_append]
      exact ih (w.step e).2 w' (hm'.trans hm) (hr'.trans hr)
    | false =>
      obtain ⟨ha, hm', hr'⟩ := w.step_messaging_congr w' e he hm hr
      simp only [he, Bool.not_false, List.filter_cons_of_pos, answers]
      rw [ha, ih (w.step e).2 (w'.step e).2 hm' hr']

/-- Web pages neither influence nor observe approvals. Without their requests the desk, with all
that is pending and the outcomes of all waits, comes out the same, and so do the answers that the
wallet's own pages get about approvals. For the same messaging service and the same random octets
they get the same answer at any two desks and leave both as they are, and what they hear in a whole
trace is the same without anything that concerns the desk alone. -/
theorem pages_apart_from_approvals (w w' : Wallet) (es : List Event) :
    (w.desk = w'.desk →
      (w.run es).desk = (w'.run (es.filter fun e => !e.isExternal)).desk ∧
        answers Event.isOwnDecision w es =
          answers Event.isOwnDecision w' (es.filter fun e => !e.isExternal)) ∧
      (w.messaging = w'.messaging → w.random = w'.random →
        (∀ e : Event, e.isExternal = true → (w.step e).1 = (w'.step e).1 ∧
          (w.step e).2.desk = w.desk ∧ (w'.step e).2.desk = w'.desk) ∧
        answers Event.isExternal w es =
          answers Event.isExternal w' (es.filter fun e => !e.ofDesk)) := by
  refine ⟨run_without_pages w w' es, fun hm hr => ⟨fun e he => ?_,
    answers_without_desk w w' es hm hr⟩⟩
  obtain ⟨ha, -, -⟩ := w.step_messaging_congr w' e (ofDesk_external e he) hm hr
  exact ⟨ha, w.step_external e he, w'.step_external e he⟩

/-- A page rejects a request and is refused, and the wallet lists it as pending. -/
theorem page_reject_refused :
    let id := "000000000000000000000000"
    let desk : Desk := ⟨Docket.fresh (Entropy.ofBytes [0]) none, Channels.none⟩
    let s := Messaging.Service.fresh (fun _ _ _ doc => .ok doc) none ""
    let w : Wallet := ⟨desk, s, Entropy.ofBytes [1]⟩
    let other : Wallet := { w with random := Entropy.ofBytes [2] }
    let asked : Desk := (desk.request "popup" "sign" false .null).2
    let elsewhere : Wallet := { w with desk := asked }
    let page := Caller.page "https://app.example"
    let es : List Event := [.desk fun d => (d.request "popup" "sign" false .null).2,
      .ask page (.reject id), .ask .wallet (.listPending "sign")]
    (w.run es).desk = (other.run (es.filter fun e => !e.isExternal)).desk ∧
      answers Event.isOwnDecision w es = [.pending [⟨id, "sign", false, .null⟩]] ∧
      (w.step (.ask page (.reject id))).1 = (elsewhere.step (.ask page (.reject id))).1 ∧
      (elsewhere.step (.ask page (.reject id))).2.desk = asked := by
  intro id desk s w other asked elsewhere page es
  obtain ⟨hdesk, -⟩ := (pages_apart_from_approvals w other es).1 rfl
  obtain ⟨hpage, -⟩ := (pages_apart_from_approvals w elsewhere es).2 rfl rfl
  obtain ⟨ha, -, hd⟩ := hpage (.ask page (.reject id)) rfl
  exact ⟨hdesk, rfl, ha, hd⟩

end Countersign.Wallet
