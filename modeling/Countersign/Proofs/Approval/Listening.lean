import Countersign.Proofs.Approval.Channels
import Countersign.Proofs.Approval.Coherence

/-!
# What listeners hear

Listeners come, are replaced or removed and leave, while requests and events are told to their
channels. A listener hears what is told to its channel from the moment it comes until it is replaced
or removed or leaves, once and in the order in which it is told. The docket and those who ask see
nothing of it.
-/
namespace Countersign.Approval

/-- The action takes a request. -/
def Action.takes : Action → Bool
  | .request _ _ _ => true
  | _ => false

/-- What can happen to a desk. A request is told to a channel, so it is not an action on the docket
alone. -/
inductive Event where
  | register (channel : String)
  | unregister (channel : String)
  | leave (number : Nat)
  | take (number : Nat)
  | ask (channel type : String) (isInternal : Bool) (payload : Json)
  | tell (channel type : String) (payload : Json)
  | act (a : Action) (h : a.takes = false)

/-- What the caller of a desk is answered. -/
inductive Reply where
  | asked (result : Except Error (Request × Nat))
  | told (result : Except Error Unit)

namespace Event

/-- A listener comes. -/
def registers : Event → Bool
  | register _ => true
  | _ => false

/-- The listener of this number leaves. -/
def ends (n : Nat) : Event → Bool
  | leave m => m == n
  | _ => false

/-- The listener of this number on this channel is replaced or removed or leaves. -/
def retires (n : Nat) (channel : String) : Event → Bool
  | register other => other == channel
  | unregister other => other == channel
  | leave m => m == n
  | _ => false

/-- The channel to which it sends, if anything. -/
def target? : Event → Option String
  | ask channel _ _ _ | tell channel _ _ => some channel
  | _ => none

/-- The event does not come from the user interface. -/
def ofService : Event → Bool
  | ask _ _ _ _ | tell _ _ _ | act _ _ => true
  | register _ | unregister _ | leave _ | take _ => false

end Event

namespace Desk

def step (d : Desk) : Event → Desk
  | .register channel => { d with channels := d.channels.register channel }
  | .unregister channel => { d with channels := d.channels.unregister channel }
  | .leave number => { d with channels := d.channels.drop number }
  | .take number => { d with channels := (d.channels.take number).2 }
  | .ask channel type isInternal payload => (d.request channel type isInternal payload).2
  | .tell channel type payload => (d.event channel type payload).2
  | .act a _ => { d with docket := d.docket.act a }

def run (d : Desk) (es : List Event) : Desk := es.foldl step d

@[simp] theorem run_nil (d : Desk) : d.run [] = d := rfl
@[simp] theorem run_cons (d : Desk) (e : Event) (es : List Event) :
    d.run (e :: es) = (d.step e).run es := rfl

theorem run_append (d : Desk) (es fs : List Event) : d.run (es ++ fs) = (d.run es).run fs := by
  simp [run]

/-- What an event is answered. -/
def reply? (d : Desk) : Event → Option Reply
  | .ask channel type isInternal payload =>
    some (.asked (d.request channel type isInternal payload).1)
  | .tell channel type payload => some (.told (d.event channel type payload).1)
  | _ => none

/-- What a run is answered. -/
def replies (d : Desk) : List Event → List Reply
  | [] => []
  | e :: es => (d.reply? e).toList ++ (d.step e).replies es

/-- The message that an event has for a channel: a request that is taken, with all that was asked
for, or an event that has a type. -/
def message? (d : Desk) (channel : String) : Event → Option Message
  | .ask target type isInternal payload =>
    match (d.docket.request type isInternal payload).1 with
    | .ok (q, _) =>
      if target = channel then some (.asked ⟨q.id, type, isInternal, payload⟩) else none
    | .error _ => none
  | .tell target type payload =>
    if target = channel ∧ type.isEmpty = false then some (.event type payload) else none
  | _ => none

/-- The messages of a run for a channel. -/
def messages (d : Desk) (channel : String) : List Event → List Message
  | [] => []
  | e :: es => (d.message? channel e).toList ++ (d.step e).messages channel es

/-- What the listener of a number takes by an event. -/
def takes (d : Desk) (n : Nat) : Event → List Message
  | .take m => if m = n then (d.channels.take n).1 else []
  | _ => []

/-- What it takes in a run. -/
def taken (d : Desk) (n : Nat) : List Event → List Message
  | [] => []
  | e :: es => d.takes n e ++ (d.step e).taken n es

/-- A listener of a channel was to be given messages and has taken some of them. The others wait in
its queue if it still listens, and are lost with it if it left. -/
inductive Delivered (d : Desk) (n : Nat) (channel : String) (taken messages : List Message) :
    Bool → Prop where
  | waiting (queue : List Message) (hl : d.channels.listeners[n]? = some ⟨channel, queue, true⟩)
      (hm : taken ++ queue = messages) : Delivered d n channel taken messages false
  | left (lost : List Message) (hl : d.channels.listeners[n]? = some ⟨channel, [], false⟩)
      (hm : taken ++ lost = messages) : Delivered d n channel taken messages true

open Channels hiding none

/-! ### One event -/

/-- A request or an event sends its message, if it has one, and does nothing else to the channels.
-/
theorem step_sends {d : Desk} {e : Event} {channel : String} (h : e.target? = some channel) :
    (d.step e).channels = (d.message? channel e).elim d.channels (d.channels.trySend channel) := by
  cases e with
  | ask target type isInternal payload =>
    obtain rfl := Option.some.inj h
    rcases hr : d.docket.request type isInternal payload with ⟨e | ⟨q, n⟩, docket⟩
    · simp [step, Desk.request, message?, hr]
    · have hq := Docket.request_record (q := q) (n := n) (by rw [hr])
      simp only [step, Desk.request, message?, hr, if_true, Option.elim]
      rw [hq]
  | tell target type payload =>
    obtain rfl := Option.some.inj h
    cases ht : type.isEmpty <;> simp [step, event, message?, ht]
  | _ => cases h

theorem message?_elsewhere {d : Desk} {e : Event} {channel : String}
    (h : e.target? ≠ some channel) : d.message? channel e = none := by
  cases e with
  | ask target type isInternal payload =>
    have hne : target ≠ channel := fun heq => h (congrArg some heq)
    simp only [message?, hne, if_false]
    split <;> rfl
  | tell target type payload =>
    have hne : target ≠ channel := fun heq => h (congrArg some heq)
    simp [message?, hne]
  | _ => rfl

theorem told_keeps {d : Desk} {e : Event} {channel : String} (h : e.target? = some channel) :
    (d.step e).channels.current = d.channels.current ∧
      (d.step e).channels.listeners.length = d.channels.listeners.length := by
  rw [step_sends h]
  cases d.message? channel e with
  | none => exact ⟨rfl, rfl⟩
  | some m => exact ⟨current_trySend _ _ m, length_trySend _ _ m⟩

/-- Only coming, replacement and removal change who is current. -/
theorem lookup_step (d : Desk) (e : Event) (other : String) :
    (d.step e).channels.current.lookup other =
      match e with
      | .register channel =>
        if other = channel then some d.channels.listeners.length
        else d.channels.current.lookup other
      | .unregister channel =>
        if other = channel then none else d.channels.current.lookup other
      | _ => d.channels.current.lookup other := by
  cases e with
  | register channel => exact lookup_register d.channels channel other
  | unregister channel => exact lookup_unregister d.channels channel other
  | leave m | take m => simp [step]
  | ask channel type isInternal payload => rw [(told_keeps rfl).1]
  | tell channel type payload => rw [(told_keeps rfl).1]
  | act a h => rfl

theorem length_step (d : Desk) (e : Event) :
    (d.step e).channels.listeners.length =
      d.channels.listeners.length + if e.registers then 1 else 0 := by
  cases e with
  | register channel => simp [step, register, Event.registers]
  | unregister channel => rfl
  | leave m | take m => simp [step, Event.registers]
  | ask channel type isInternal payload => exact (told_keeps rfl).2
  | tell channel type payload => exact (told_keeps rfl).2
  | act a h => rfl

/-- What the listener of a number hears by an event: the message for the channel on which it is
current. -/
def hears (d : Desk) (n : Nat) (e : Event) : List Message :=
  match e.target? with
  | some channel =>
    if d.channels.current.lookup channel = some n then (d.message? channel e).toList else []
  | none => []

theorem hears_nothing {d : Desk} {n : Nat} {e : Event} (h : e.target? = none) :
    d.hears n e = [] := by
  rw [hears, h]

/-- An event adds to the queue of a listener what it hears, and takes away what it takes, unless it
leaves. -/
theorem step_open {d : Desk} {n : Nat} {channel : String} {queue : List Message}
    (h : d.channels.listeners[n]? = some ⟨channel, queue, true⟩) {e : Event}
    (he : e.ends n = false) :
    ∃ rest, (d.step e).channels.listeners[n]? = some ⟨channel, rest, true⟩ ∧
      d.takes n e ++ rest = queue ++ d.hears n e := by
  have hsends (target : String) (htarget : e.target? = some target) :
      (d.step e).channels.listeners[n]? = some ⟨channel, queue ++ d.hears n e, true⟩ := by
    rw [step_sends htarget]
    cases hm : d.message? target e with
    | none => simpa [hears, htarget, hm] using h
    | some m => simpa [hears, htarget, hm] using trySend_open h rfl target m
  have hquiet (hnone : e.target? = none) (htakes : d.takes n e = []) :
      d.takes n e ++ queue = queue ++ d.hears n e := by
    rw [hears_nothing hnone, htakes, List.nil_append, List.append_nil]
  cases e with
  | register target => exact ⟨queue, listener_register h target, hquiet rfl rfl⟩
  | unregister target => exact ⟨queue, h, hquiet rfl rfl⟩
  | leave m =>
    have hne : m ≠ n := by simpa [Event.ends] using he
    exact ⟨queue, (drop_other d.channels hne).trans h, hquiet rfl rfl⟩
  | take m =>
    by_cases hm : m = n
    · subst hm
      obtain ⟨htaken, hl⟩ := take_same h
      refine ⟨[], hl, ?_⟩
      rw [hears_nothing rfl, takes, if_pos rfl, htaken]
    · exact ⟨queue, (take_other d.channels hm).trans h, hquiet rfl (if_neg hm)⟩
  | ask target type isInternal payload => exact ⟨_, hsends target rfl, rfl⟩
  | tell target type payload => exact ⟨_, hsends target rfl, rfl⟩
  | act a ha => exact ⟨queue, h, hquiet rfl rfl⟩

/-- A listener that left hears nothing and takes nothing. -/
theorem step_closed {d : Desk} {n : Nat} {channel : String}
    (h : d.channels.listeners[n]? = some ⟨channel, [], false⟩) (e : Event) :
    (d.step e).channels.listeners[n]? = some ⟨channel, [], false⟩ ∧ d.takes n e = [] := by
  have hsends (target : String) (htarget : e.target? = some target) :
      (d.step e).channels.listeners[n]? = some ⟨channel, [], false⟩ := by
    rw [step_sends htarget]
    cases d.message? target e with
    | none => exact h
    | some m => exact trySend_closed h rfl target m
  cases e with
  | register other => exact ⟨listener_register h other, rfl⟩
  | unregister other => exact ⟨h, rfl⟩
  | leave m =>
    by_cases hm : m = n
    · subst hm
      exact ⟨drop_same h, rfl⟩
    · exact ⟨(drop_other d.channels hm).trans h, rfl⟩
  | take m =>
    by_cases hm : m = n
    · subst hm
      obtain ⟨htaken, hl⟩ := take_same h
      exact ⟨hl, by simp [takes, htaken]⟩
    · exact ⟨(take_other d.channels hm).trans h, by simp [takes, hm]⟩
  | ask other type isInternal payload => exact ⟨hsends other rfl, rfl⟩
  | tell other type payload => exact ⟨hsends other rfl, rfl⟩
  | act a ha => exact ⟨h, rfl⟩

theorem step_leaves {d : Desk} {n : Nat} {l : Listener} (h : d.channels.listeners[n]? = some l)
    {e : Event} (he : e.ends n = true) :
    (d.step e).channels.listeners[n]? = some ⟨l.channel, [], false⟩ ∧ d.takes n e = [] := by
  cases e with
  | leave m =>
    obtain rfl : m = n := by simpa [Event.ends] using he
    exact ⟨drop_same h, rfl⟩
  | _ => cases he

theorem numbered_step {d : Desk} (h : Numbered d.channels) (e : Event) :
    Numbered (d.step e).channels := by
  intro channel n hn
  rw [lookup_step] at hn
  rw [length_step]
  have hold (hn : d.channels.current.lookup channel = some n) :
      n < d.channels.listeners.length + if e.registers then 1 else 0 :=
    Nat.lt_add_right _ (h channel n hn)
  cases e with
  | register other =>
    dsimp only at hn
    split at hn
    next =>
      obtain rfl := Option.some.inj hn
      exact Nat.lt_succ_self _
    next => exact hold hn
  | unregister other =>
    dsimp only at hn
    split at hn
    next => cases hn
    next => exact hold hn
  | leave m | take m | ask | tell | act => exact hold hn

/-- A listener that is not current does not become current again. -/
theorem deaf_step {d : Desk} {n : Nat} (hlt : n < d.channels.listeners.length)
    (h : Deaf d.channels n) (e : Event) : Deaf (d.step e).channels n := by
  cases e with
  | register channel =>
    exact h.replace (fun heq => Nat.ne_of_gt hlt (Option.some.inj heq)) (lookup_step d _)
  | unregister channel => exact h.replace (r := none) (by simp) (lookup_step d _)
  | leave m | take m | ask | tell | act =>
    intro channel hn
    rw [lookup_step] at hn
    exact h channel hn

/-- A current listener stays current until it is replaced or removed. -/
theorem hears_step {d : Desk} {n : Nat} {channel : String} (hlt : n < d.channels.listeners.length)
    (h : Hears d.channels n channel) {e : Event} (he : e.ends n = false) :
    if e.retires n channel then Deaf (d.step e).channels n
    else Hears (d.step e).channels n channel := by
  have hsame (hlookup : ∀ other, (d.step e).channels.current.lookup other =
      d.channels.current.lookup other) : Hears (d.step e).channels n channel :=
    ⟨(hlookup channel).trans h.here, fun other ho => h.only other ((hlookup other).symm.trans ho)⟩
  cases e with
  | register target =>
    exact h.replace (fun heq => Nat.ne_of_gt hlt (Option.some.inj heq)) (lookup_step d _)
  | unregister target => exact h.replace (r := none) (by simp) (lookup_step d _)
  | leave m =>
    rw [Event.ends] at he
    rw [Event.retires, he]
    exact hsame (lookup_step d _)
  | take m | ask | tell | act => exact hsame (lookup_step d _)

/-- On its own channel a current listener hears all messages. -/
theorem hears_current {d : Desk} {n : Nat} {channel : String} (h : Hears d.channels n channel)
    (e : Event) : d.hears n e = (d.message? channel e).toList := by
  cases ht : e.target? with
  | none => rw [message?_elsewhere (by rw [ht]; exact nofun), hears, ht, Option.toList_none]
  | some target =>
    by_cases heq : target = channel
    · subst heq
      simp only [hears, ht, h.here, if_true]
    · have hother : d.channels.current.lookup target ≠ some n := fun ho => heq (h.only target ho)
      have helse : e.target? ≠ some channel := fun ho => heq (Option.some.inj (ht.symm.trans ho))
      simp only [hears, ht, hother, if_false, message?_elsewhere helse, Option.toList_none]

theorem hears_deaf {d : Desk} {n : Nat} (h : Deaf d.channels n) (e : Event) : d.hears n e = [] := by
  unfold hears
  split
  next channel ht => rw [if_neg (h channel)]
  next => rfl

/-! ### Runs -/

theorem Delivered.prepend {d : Desk} {n : Nat} {channel : String} {taken messages : List Message}
    {left : Bool} (h : Delivered d n channel taken messages left) (before : List Message) :
    Delivered d n channel (before ++ taken) (before ++ messages) left := by
  cases h with
  | waiting queue hl hm => exact .waiting queue hl (by rw [List.append_assoc, hm])
  | left lost hl hm => exact .left lost hl (by rw [List.append_assoc, hm])

theorem run_closed {d : Desk} {n : Nat} {channel : String}
    (h : d.channels.listeners[n]? = some ⟨channel, [], false⟩) (es : List Event) :
    (d.run es).channels.listeners[n]? = some ⟨channel, [], false⟩ ∧ d.taken n es = [] := by
  induction es generalizing d with
  | nil => exact ⟨h, rfl⟩
  | cons e es ih =>
    obtain ⟨hl, htakes⟩ := step_closed h e
    obtain ⟨hrun, htaken⟩ := ih hl
    exact ⟨hrun, by rw [taken, htakes, htaken, List.append_nil]⟩

/-- A listener that leaves loses what is in its queue. -/
theorem delivered_leaves {d : Desk} {n : Nat} {channel : String} {queue : List Message}
    (h : d.channels.listeners[n]? = some ⟨channel, queue, true⟩) {e : Event} (he : e.ends n = true)
    (es : List Event) :
    Delivered (d.run (e :: es)) n channel (d.taken n (e :: es)) queue true := by
  obtain ⟨hl, htakes⟩ := step_leaves h he
  obtain ⟨hrun, htaken⟩ := run_closed hl es
  exact .left queue hrun (by rw [taken, htakes, htaken]; rfl)

/-- A listener that is not current is given nothing more. -/
theorem run_deaf {d : Desk} {n : Nat} {channel : String} {queue : List Message}
    (h : d.channels.listeners[n]? = some ⟨channel, queue, true⟩) (hdeaf : Deaf d.channels n)
    (es : List Event) :
    Delivered (d.run es) n channel (d.taken n es) queue (es.any (Event.ends n)) := by
  induction es generalizing d queue with
  | nil => exact .waiting queue h rfl
  | cons e es ih =>
    cases he : e.ends n with
    | true =>
      rw [List.any_cons, he, Bool.true_or]
      exact delivered_leaves h he es
    | false =>
      obtain ⟨rest, hl, hqueue⟩ := step_open h he
      have hlt := (List.getElem?_eq_some_iff.mp h).1
      rw [hears_deaf hdeaf, List.append_nil] at hqueue
      have hrun := (ih hl (deaf_step hlt hdeaf e)).prepend (d.takes n e)
      rw [hqueue] at hrun
      rwa [List.any_cons, he, Bool.false_or]

/-- A current listener is given all messages for its channel until it is replaced or removed or
leaves. -/
theorem run_hears {d : Desk} {n : Nat} {channel : String} {queue : List Message}
    (h : d.channels.listeners[n]? = some ⟨channel, queue, true⟩)
    (hhears : Hears d.channels n channel) (es : List Event) :
    Delivered (d.run es) n channel (d.taken n es)
      (queue ++ d.messages channel (es.takeWhile fun e => !e.retires n channel))
      (es.any (Event.ends n)) := by
  induction es generalizing d queue with
  | nil => exact .waiting queue h (by simp [taken, messages])
  | cons e es ih =>
    cases he : e.ends n with
    | true =>
      have hretires : e.retires n channel = true := by
        cases e with
        | leave m => exact he
        | _ => cases he
      rw [List.any_cons, he, Bool.true_or, List.takeWhile_cons_of_neg (by simp [hretires]),
        messages, List.append_nil]
      exact delivered_leaves h he es
    | false =>
      obtain ⟨rest, hl, hqueue⟩ := step_open h he
      have hlt := (List.getElem?_eq_some_iff.mp h).1
      have hnext := hears_step hlt hhears he
      rw [hears_current hhears] at hqueue
      cases hretires : e.retires n channel with
      | true =>
        have hsilent : d.message? channel e = none := by
          cases e with
          | register other | unregister other | leave m => rfl
          | _ => cases hretires
        rw [hretires] at hnext
        rw [hsilent, Option.toList_none] at hqueue
        have hrun := (run_deaf hl hnext es).prepend (d.takes n e)
        rw [hqueue] at hrun
        rwa [List.any_cons, he, Bool.false_or, List.takeWhile_cons_of_neg (by simp [hretires])]
      | false =>
        rw [hretires] at hnext
        have hrun := (ih hl hnext).prepend (d.takes n e)
        rw [← List.append_assoc, hqueue, List.append_assoc] at hrun
        rwa [List.any_cons, he, Bool.false_or, List.takeWhile_cons_of_pos (by simp [hretires]),
          messages]

theorem length_run (d : Desk) (es : List Event) :
    (d.run es).channels.listeners.length =
      d.channels.listeners.length + es.countP Event.registers := by
  induction es generalizing d with
  | nil => rfl
  | cons e es ih =>
    rw [run_cons, ih, length_step, List.countP_cons]
    omega

theorem numbered_run {d : Desk} (h : Numbered d.channels) (es : List Event) :
    Numbered (d.run es).channels := by
  induction es generalizing d with
  | nil => exact h
  | cons e es ih => exact ih (numbered_step h e)

/-- A listener that comes is given all messages for its channel from then on, until it is replaced
or removed or leaves. -/
theorem run_registered {d : Desk} (h : Numbered d.channels) (channel : String) (es : List Event) :
    let n := d.channels.listeners.length
    let start := d.step (.register channel)
    Delivered (start.run es) n channel (start.taken n es)
      (start.messages channel (es.takeWhile fun e => !e.retires n channel))
      (es.any (Event.ends n)) := by
  intro n start
  have hnew : start.channels.listeners[n]? = some ⟨channel, [], true⟩ := List.getElem?_concat_length
  exact run_hears hnew (h.hears_register channel) es

/-! ### The docket -/

/-- What an event does to the docket and is answered does not depend on the channels, and nothing
comes of an event of the user interface. -/
theorem step_docket {d d' : Desk} (h : d.docket = d'.docket) (e : Event) :
    if e.ofService then (d.step e).docket = (d'.step e).docket ∧ d.reply? e = d'.reply? e
    else (d.step e).docket = d.docket ∧ d.reply? e = none := by
  cases e with
  | register | unregister | leave | take => exact ⟨rfl, rfl⟩
  | ask channel type isInternal payload =>
    simp only [Event.ofService, if_true, step, reply?, Desk.request, ← h]
    rcases d.docket.request type isInternal payload with ⟨e | ⟨q, n⟩, docket⟩ <;> exact ⟨rfl, rfl⟩
  | tell channel type payload =>
    simp only [Event.ofService, if_true, step, reply?, event]
    cases type.isEmpty <;> exact ⟨h, rfl⟩
  | act a ha =>
    simp only [Event.ofService, if_true, step, reply?, h]
    trivial

/-- A run does to the docket what it does without the events of the user interface, whoever listens.
-/
theorem run_docket {d d' : Desk} (h : d.docket = d'.docket) (es : List Event) :
    (d.run es).docket = (d'.run (es.filter Event.ofService)).docket ∧
      d.replies es = d'.replies (es.filter Event.ofService) := by
  induction es generalizing d d' with
  | nil => exact ⟨h, rfl⟩
  | cons e es ih =>
    have hstep := step_docket h e
    cases he : e.ofService with
    | true =>
      rw [he, if_pos rfl] at hstep
      obtain ⟨hdocket, hreply⟩ := hstep
      obtain ⟨hrun, hreplies⟩ := ih hdocket
      rw [List.filter_cons_of_pos he]
      exact ⟨hrun, by rw [replies, replies, hreply, hreplies]⟩
    | false =>
      rw [he, if_neg Bool.false_ne_true] at hstep
      obtain ⟨hdocket, hreply⟩ := hstep
      obtain ⟨hrun, hreplies⟩ := ih (hdocket.trans h)
      rw [List.filter_cons_of_neg (by simp [he])]
      exact ⟨hrun, by rw [replies, hreply, hreplies]; rfl⟩

/-- Every listener is given the messages for its channel from when it comes until it is replaced or
removed or leaves, once and in the order of the calls, and nothing else. Whoever listens and
whatever listeners do, the docket and all answers are the same. -/
theorem delivery_and_docket (docket : Docket) :
    (∀ es : List Event,
      ((⟨docket, .none⟩ : Desk).run es).channels.listeners.length = es.countP Event.registers) ∧
    (∀ (before : List Event) (channel : String) (after : List Event),
      let n := before.countP Event.registers
      let start := (⟨docket, .none⟩ : Desk).run (before ++ [.register channel])
      Delivered (start.run after) n channel (start.taken n after)
        (start.messages channel (after.takeWhile fun e => !e.retires n channel))
        (after.any (Event.ends n))) ∧
    ∀ (c c' : Channels) (es es' : List Event),
      es.filter Event.ofService = es'.filter Event.ofService →
      ((⟨docket, c⟩ : Desk).run es).docket = ((⟨docket, c'⟩ : Desk).run es').docket ∧
        (⟨docket, c⟩ : Desk).replies es = (⟨docket, c'⟩ : Desk).replies es' := by
  have hlength (es : List Event) :
      ((⟨docket, .none⟩ : Desk).run es).channels.listeners.length = es.countP Event.registers := by
    rw [length_run]
    exact Nat.zero_add _
  refine ⟨hlength, fun before channel after => ?_, fun c c' es es' hes => ?_⟩
  · intro n start
    have hempty : Numbered (⟨docket, .none⟩ : Desk).channels := fun _ _ h => nomatch h
    have hstart : start = ((⟨docket, .none⟩ : Desk).run before).step (.register channel) :=
      run_append _ before [.register channel]
    have hrun := run_registered (numbered_run hempty before) channel after
    simp only [hlength before] at hrun
    rw [hstart]
    exact hrun
  · obtain ⟨hdocket, hreplies⟩ := @run_docket ⟨docket, c⟩ ⟨docket, c'⟩ rfl es
    obtain ⟨hdocket', hreplies'⟩ := @run_docket ⟨docket, c'⟩ ⟨docket, c'⟩ rfl es'
    rw [hes] at hdocket hreplies
    exact ⟨hdocket.trans hdocket'.symm, hreplies.trans hreplies'.symm⟩

/-- An empty docket with octets for two ids. -/
def twoIds : Docket := .fresh (.ofBytes ((List.range 24).map UInt8.ofNat)) none

/-- A request is told to a first listener and an event to the one that replaces it, which takes it
and leaves. -/
def replacedListener : List Event :=
  [.ask "popup" "sign" true .null, .tell "popup" "" .null, .register "popup",
    .tell "popup" "ready" .null, .take 1, .leave 1, .ask "popup" "sign" false .null]

/-- The first listener has the first request and nothing else, and the docket goes the same way with
a listener that has left. -/
theorem replaced_listener_keeps :
    let d : Desk := ⟨twoIds, .none⟩
    let closed : Desk := ⟨twoIds, (Channels.none.register "popup").drop 0⟩
    let first : Request := ⟨"000102030405060708090a0b", "sign", true, .null⟩
    let es : List Event := .register "popup" :: replacedListener
    let alone : List Event :=
      [.ask "popup" "sign" true .null, .tell "popup" "" .null, .tell "popup" "ready" .null,
        .ask "popup" "sign" false .null]
    Delivered (d.run es) 0 "popup" [] [.asked first] false ∧
      (d.run es).docket = (closed.run alone).docket ∧ d.replies es = closed.replies alone := by
  intro d closed first es alone
  obtain ⟨-, hdelivered, hdocket⟩ := delivery_and_docket twoIds
  exact ⟨hdelivered [] "popup" replacedListener, hdocket .none closed.channels es alone rfl⟩

end Desk

end Countersign.Approval
