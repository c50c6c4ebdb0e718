import Countersign.Approval.Channels
import Countersign.Proofs.Lookup

/-!
# Channels and their listeners

What each operation does to one listener, and who is the current listener of a channel after it. A
message reaches the current listener of its channel if it still listens, and nobody else.
-/
namespace Countersign.Approval.Channels

theorem lookup_register (c : Channels) (channel other : String) :
    (c.register channel).current.lookup other =
      if other = channel then some c.listeners.length else c.current.lookup other :=
  lookup_replace c.current channel other c.listeners.length

theorem lookup_unregister (c : Channels) (channel other : String) :
    (c.unregister channel).current.lookup other =
      if other = channel then Option.none else c.current.lookup other :=
  lookup_without c.current channel other

theorem listener_register {c : Channels} {n : Nat} {l : Listener} (h : c.listeners[n]? = some l)
    (channel : String) : (c.register channel).listeners[n]? = some l := by
  rw [register, List.getElem?_append_left (List.getElem?_eq_some_iff.mp h).1, h]

theorem take_same {c : Channels} {n : Nat} {l : Listener} (h : c.listeners[n]? = some l) :
    (c.take n).1 = l.queue ∧ (c.take n).2.listeners[n]? = some { l with queue := [] } := by
  simp only [take, h]
  exact ⟨trivial, List.getElem?_set_self (List.getElem?_eq_some_iff.mp h).1⟩

theorem take_other (c : Channels) {m n : Nat} (hne : m ≠ n) :
    (c.take m).2.listeners[n]? = c.listeners[n]? := by
  unfold take
  split
  · simp [hne]
  · rfl

@[simp] theorem current_take (c : Channels) (m : Nat) : (c.take m).2.current = c.current := by
  unfold take
  split <;> rfl

@[simp] theorem length_take (c : Channels) (m : Nat) :
    (c.take m).2.listeners.length = c.listeners.length := by
  unfold take
  split <;> simp

theorem drop_same {c : Channels} {n : Nat} {l : Listener} (h : c.listeners[n]? = some l) :
    (c.drop n).listeners[n]? = some ⟨l.channel, [], false⟩ := by
  simp only [drop, h]
  exact List.getElem?_set_self (List.getElem?_eq_some_iff.mp h).1

theorem drop_other (c : Channels) {m n : Nat} (hne : m ≠ n) :
    (c.drop m).listeners[n]? = c.listeners[n]? := by
  unfold drop
  split
  · simp [hne]
  · rfl

@[simp] theorem current_drop (c : Channels) (m : Nat) : (c.drop m).current = c.current := by
  unfold drop
  split <;> rfl

@[simp] theorem length_drop (c : Channels) (m : Nat) :
    (c.drop m).listeners.length = c.listeners.length := by
  unfold drop
  split <;> simp

/-- A message that is sent goes to the current listener of its channel if it still listens, and is
lost otherwise. -/
theorem trySend_cases (c : Channels) (channel : String) (m : Message) :
    (∃ n l, c.current.lookup channel = some n ∧ c.listeners[n]? = some l ∧ l.isOpen = true ∧
      c.trySend channel m =
        { c with listeners := c.listeners.set n { l with queue := l.queue ++ [m] } }) ∨
    c.trySend channel m = c ∧ ∀ n l, c.current.lookup channel = some n → c.listeners[n]? = some l →
      l.isOpen = false := by
  cases hn : c.current.lookup channel with
  | none => exact .inr ⟨by simp [trySend, send, hn], fun k l hk => by cases hk⟩
  | some n =>
    cases hl : c.listeners[n]? with
    | none =>
      refine .inr ⟨by simp [trySend, send, hn, hl], ?_⟩
      rintro _ l ⟨⟩ hl'
      rw [hl] at hl'
      cases hl'
    | some l =>
      cases ho : l.isOpen with
      | false =>
        refine .inr ⟨by simp [trySend, send, hn, hl, ho], ?_⟩
        rintro _ l' ⟨⟩ hl'
        rwa [← Option.some.inj (hl.symm.trans hl')]
      | true => exact .inl ⟨n, l, rfl, hl, ho, by simp [trySend, send, hn, hl, ho]⟩

@[simp] theorem current_trySend (c : Channels) (channel : String) (m : Message) :
    (c.trySend channel m).current = c.current := by
  rcases trySend_cases c channel m with ⟨n, l, -, -, -, h⟩ | ⟨h, -⟩ <;> rw [h]

@[simp] theorem length_trySend (c : Channels) (channel : String) (m : Message) :
    (c.trySend channel m).listeners.length = c.listeners.length := by
  rcases trySend_cases c channel m with ⟨n, l, -, -, -, h⟩ | ⟨h, -⟩ <;> rw [h]
  simp

/-- A listener hears what is sent to the channel whose current listener it is. -/
theorem trySend_open {c : Channels} {n : Nat} {l : Listener} (h : c.listeners[n]? = some l)
    (ho : l.isOpen = true) (channel : String) (m : Message) :
    (c.trySend channel m).listeners[n]? =
      some { l with queue :=
        l.queue ++ if c.current.lookup channel = some n then [m] else [] } := by
  rcases trySend_cases c channel m with ⟨k, l', hk, hl', -, hsent⟩ | ⟨hsent, hclosed⟩ <;> rw [hsent]
  · by_cases hn : k = n
    · subst hn
      have hlt := (List.getElem?_eq_some_iff.mp h).1
      obtain rfl := Option.some.inj (hl'.symm.trans h)
      simp [hk, hlt]
    · simp [hk, hn, h]
  · have hother : c.current.lookup channel ≠ some n := by
      intro hn
      rw [hclosed n l hn h] at ho
      cases ho
    simp [h, hother]

theorem trySend_closed {c : Channels} {n : Nat} {l : Listener} (h : c.listeners[n]? = some l)
    (ho : l.isOpen = false) (channel : String) (m : Message) :
    (c.trySend channel m).listeners[n]? = some l := by
  rcases trySend_cases c channel m with ⟨k, l', -, hl', ho', hsent⟩ | ⟨hsent, -⟩ <;> rw [hsent]
  · have hn : k ≠ n := by
      rintro rfl
      obtain rfl := Option.some.inj (hl'.symm.trans h)
      rw [ho] at ho'
      cases ho'
    simp [hn, h]
  · exact h

/-- Current listeners are listeners. -/
def Numbered (c : Channels) : Prop :=
  ∀ channel n, c.current.lookup channel = some n → n < c.listeners.length

/-- The listener of a number is the current one of a channel and of no other. -/
structure Hears (c : Channels) (n : Nat) (channel : String) : Prop where
  here : c.current.lookup channel = some n
  only : ∀ other, c.current.lookup other = some n → other = channel

/-- The listener of a number is the current one of no channel. -/
def Deaf (c : Channels) (n : Nat) : Prop :=
  ∀ channel, c.current.lookup channel ≠ some n

/-- A channel is given another current listener, or none. -/
theorem Deaf.replace {c c' : Channels} {n : Nat} (h : Deaf c n) {target : String} {r : Option Nat}
    (hr : r ≠ some n) (hc : ∀ other, c'.current.lookup other =
      if other = target then r else c.current.lookup other) : Deaf c' n := by
  intro other ho
  rw [hc] at ho
  split at ho
  next => exact hr ho
  next => exact h other ho

theorem Hears.replace {c c' : Channels} {n : Nat} {channel : String} (h : Hears c n channel)
    {target : String} {r : Option Nat} (hr : r ≠ some n) (hc : ∀ other, c'.current.lookup other =
      if other = target then r else c.current.lookup other) :
    if target == channel then Deaf c' n else Hears c' n channel := by
  have honly (other : String) (ho : c'.current.lookup other = some n) :
      other ≠ target ∧ other = channel := by
    rw [hc] at ho
    split at ho
    next => exact absurd ho hr
    next hne => exact ⟨hne, h.only other ho⟩
  split
  next heq =>
    intro other ho
    obtain ⟨hne, hother⟩ := honly other ho
    exact hne (hother.trans (beq_iff_eq.mp heq).symm)
  next hne =>
    have htarget : channel ≠ target := fun heq => hne (beq_iff_eq.mpr heq.symm)
    exact ⟨by rw [hc, if_neg htarget, h.here], fun other ho => (honly other ho).2⟩

/-- A new listener is the current one of its channel. -/
theorem Numbered.hears_register {c : Channels} (h : Numbered c) (channel : String) :
    Hears (c.register channel) c.listeners.length channel := by
  refine ⟨by rw [lookup_register, if_pos rfl], fun other ho => ?_⟩
  rw [lookup_register] at ho
  split at ho
  next hother => exact hother
  next => exact absurd (h other _ ho) (Nat.lt_irrefl _)

end Countersign.Approval.Channels
