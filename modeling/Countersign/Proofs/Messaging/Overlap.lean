import Countersign.Proofs.Messaging.Delivery

/-!
# Look-ups that overlap

A look-up of a key that is not known asks the directory, and keeps the key when the answer comes. In
between other look-ups may begin and end, and keys may be handed in. The key that is known for an
address is the one that was kept last, so a key that is handed in while a look-up of its address is
under way gives way to the answer. It stays for good if and only if no look-up of its address is
under way whose answer is another key.
-/
namespace Countersign.Messaging

/-- A look-up that has asked the directory: whose key it needs, and the answer that will come. -/
structure Waiting where
  address : String
  answer : Except Error String

/-- The key that the answer gives. -/
def Waiting.key? (w : Waiting) : Option Curve.Point :=
  (w.answer >>= Service.keyOf).toOption

/-- A service and the look-ups that are under way. -/
structure Traffic where
  service : Service
  waiting : List Waiting

namespace Traffic

/-- Begins a look-up: what it comes to at once, unless it has to wait. -/
def start (t : Traffic) (chain address : String) : Option (Except Error Curve.Point) × Traffic :=
  match t.service.beginLookup chain address with
  | (.error e, s) => (some (.error e), { t with service := s })
  | (.ok (.inl q), s) => (some (.ok q), { t with service := s })
  | (.ok (.inr answer), s) => (none, ⟨s, t.waiting ++ [⟨address, answer⟩]⟩)

/-- The answer for one of the look-ups under way comes: what it comes to, if there is such a one. -/
def land (t : Traffic) (n : Nat) : Option (Except Error Curve.Point) × Traffic :=
  match t.waiting[n]? with
  | none => (none, t)
  | some w =>
    let (result, s) := t.service.finishLookup w.address w.answer
    (some result, ⟨s, t.waiting.eraseIdx n⟩)

/-- Hands in the key of an address. -/
def register (t : Traffic) (address key : String) : Except Error Unit × Traffic :=
  let (result, s) := t.service.register address key
  (result, { t with service := s })

/-- The key that is known for an address. -/
def known (t : Traffic) (address : String) : Option Curve.Point :=
  t.service.publicKeys.lookup address

/-- A step of a look-up, or a key that is handed in. -/
inductive Step where
  | start (chain address : String)
  | land (n : Nat)
  | register (address key : String)
  deriving DecidableEq, Repr

/-- The traffic after a step. -/
def step (t : Traffic) : Step → Traffic
  | .start chain address => (t.start chain address).2
  | .land n => (t.land n).2
  | .register address key => (t.register address key).2

/-- The traffic after steps. -/
def run (t : Traffic) (steps : List Step) : Traffic :=
  steps.foldl step t

@[simp] theorem run_nil (t : Traffic) : t.run [] = t := rfl

@[simp] theorem run_cons (t : Traffic) (step : Step) (steps : List Step) :
    t.run (step :: steps) = (t.step step).run steps := rfl

/-- No key is handed in for an address. -/
def Leaves (address : String) (steps : List Step) : Prop :=
  ∀ other key, Step.register other key ∈ steps → other ≠ address

/-! ### Single steps -/

section

variable {t : Traffic} {address : String} {q : Curve.Point}

/-- A look-up of a key that is known neither waits nor asks. -/
theorem start_known (h : t.known address = some q) (chain : String) :
    t.start chain address = (some (.ok q), t) := by
  unfold known at h
  simp only [start, Service.beginLookup, h]

/-- The two steps of a look-up, one directly behind the other, are the look-up of the service. -/
theorem start_land (t : Traffic) (chain address : String) :
    let begun := (t.start chain address).2
    (∃ result, (t.start chain address).1 = some result ∧
      t.service.lookup chain address = (result, begun.service)) ∨
    (t.start chain address).1 = none ∧
      (begun.land t.waiting.length).1 = some (t.service.lookup chain address).1 ∧
      (begun.land t.waiting.length).2 = ⟨(t.service.lookup chain address).2, t.waiting⟩ := by
  unfold start Service.lookup
  rcases t.service.beginLookup chain address with ⟨e | q | answer, s⟩
  · exact .inl ⟨_, rfl, rfl⟩
  · exact .inl ⟨_, rfl, rfl⟩
  · right
    have hlast : (t.waiting ++ [⟨address, answer⟩])[t.waiting.length]? = some ⟨address, answer⟩ :=
      List.getElem?_concat_length
    have herase (w : Waiting) : (t.waiting ++ [w]).eraseIdx t.waiting.length = t.waiting := by
      rw [List.eraseIdx_append_of_length_le (Nat.le_refl _), Nat.sub_self, List.eraseIdx_cons_zero,
        List.append_nil]
    refine ⟨rfl, ?_, ?_⟩
    · simp only [land, hlast]
    · simp only [land, hlast, herase]

/-- A look-up that begins keeps no key. If it waits, it is the last one to do so. -/
theorem start_cases (t : Traffic) (chain address : String) :
    (t.start chain address).2.service.publicKeys = t.service.publicKeys ∧
      ((t.start chain address).2.waiting = t.waiting ∨
        ∃ answer, (t.start chain address).2.waiting = t.waiting ++ [⟨address, answer⟩]) := by
  unfold start Service.beginLookup
  cases t.service.publicKeys.lookup address with
  | some q => exact ⟨rfl, .inl rfl⟩
  | none =>
    cases t.service.directory with
    | none => exact ⟨rfl, .inl rfl⟩
    | some directory => exact ⟨rfl, .inr ⟨_, rfl⟩⟩

/-- An answer is kept if it gives a key. -/
theorem service_finishLookup (s : Service) (w : Waiting) :
    (s.finishLookup w.address w.answer).2 = (w.key?.map (s.keep w.address)).getD s := by
  obtain ⟨address, answer⟩ := w
  cases answer with
  | error e => rfl
  | ok text =>
    simp only [Service.finishLookup, Waiting.key?, bind, Except.bind]
    cases Service.keyOf text with
    | error e => rfl
    | ok q => rfl

/-- An answer that gives a key replaces what was known for its address. -/
theorem known_land {n : Nat} {w : Waiting} (h : t.waiting[n]? = some w) (address : String) :
    (t.land n).2.known address =
      if address = w.address then w.key?.or (t.known address) else t.known address := by
  simp only [land, h, known, service_finishLookup]
  cases w.key? with
  | none => rw [Option.none_or, ite_self, Option.map_none, Option.getD_none]
  | some q => rw [Option.some_or, Option.map_some, Option.getD_some, Service.lookup_keep]

theorem register_of_key {key : String} (h : Service.keyOf key = .ok q) (t : Traffic)
    (address : String) :
    t.register address key = (.ok (), { t with service := t.service.keep address q }) := by
  simp only [register, Service.register, h]

/-- A key that is handed in for another address makes no difference. -/
theorem known_register {other : String} (h : address ≠ other) (t : Traffic) (key : String) :
    (t.register other key).2.known address = t.known address := by
  unfold register Service.register
  cases hkey : Service.keyOf key with
  | error e => rfl
  | ok q =>
    simp only [known]
    rw [Service.lookup_keep, if_neg h]

end

/-! ### After a key is handed in -/

/-- Some time after a key was handed in: the key of the address is that one or came from a look-up
that was under way by then, and those of the address that are under way now were under way then. -/
structure Since (before : List Waiting) (address : String) (q : Curve.Point)
    (t : Traffic) : Prop where
  known : ∃ p, t.known address = some p ∧
    (p = q ∨ ∃ w ∈ before, w.address = address ∧ w.key? = some p)
  waiting : ∀ w ∈ t.waiting, w.address = address → w ∈ before

section

variable {before : List Waiting} {t : Traffic} {address : String} {q : Curve.Point}

theorem Since.start (h : Since before address q t) (chain other : String) :
    Since before address q (t.start chain other).2 := by
  obtain ⟨p, hp, hwhence⟩ := h.known
  by_cases hother : other = address
  · subst hother
    rw [start_known hp]
    exact h
  · obtain ⟨hkeys, hwaiting⟩ := t.start_cases chain other
    constructor
    · refine ⟨p, ?_, hwhence⟩
      unfold Traffic.known
      rw [hkeys]
      exact hp
    · intro w hw haddress
      rcases hwaiting with hsame | ⟨answer, hmore⟩
      · exact h.waiting w (hsame ▸ hw) haddress
      · rw [hmore] at hw
        rcases List.mem_append.mp hw with hw | hw
        · exact h.waiting w hw haddress
        · rw [List.mem_singleton.mp hw] at haddress
          exact absurd haddress hother

theorem Since.land (h : Since before address q t) (n : Nat) :
    Since before address q (t.land n).2 := by
  cases hn : t.waiting[n]? with
  | none =>
    simp only [Traffic.land, hn]
    exact h
  | some w =>
    have hmem : w ∈ t.waiting := List.mem_of_getElem? hn
    obtain ⟨p, hp, hwhence⟩ := h.known
    constructor
    · rw [known_land hn, hp]
      split
      next haddress =>
        cases hkey : w.key? with
        | none => exact ⟨p, rfl, hwhence⟩
        | some p' =>
          exact ⟨p', rfl, .inr ⟨w, h.waiting w hmem haddress.symm, haddress.symm, hkey⟩⟩
      next => exact ⟨p, rfl, hwhence⟩
    · intro w' hw'
      simp only [Traffic.land, hn] at hw'
      exact h.waiting w' (List.mem_of_mem_eraseIdx hw')

theorem Since.register (h : Since before address q t) {other : String} (hother : other ≠ address)
    (key : String) : Since before address q (t.register other key).2 := by
  constructor
  · rw [known_register hother.symm]
    exact h.known
  · exact h.waiting

theorem Since.run (h : Since before address q t) {steps : List Step}
    (hsteps : Leaves address steps) : Since before address q (t.run steps) := by
  induction steps generalizing t with
  | nil => exact h
  | cons step steps ih =>
    have hrest : Leaves address steps := fun other key hmem =>
      hsteps other key (List.mem_cons_of_mem step hmem)
    apply ih _ hrest
    cases step with
    | start chain other => exact h.start chain other
    | land n => exact h.land n
    | register other key => exact h.register (hsteps other key List.mem_cons_self) key

end

/-- A look-up of an address that begins after its key was handed in, and before another one is,
comes to a key at once: to the one that was handed in, or to the answer of a look-up that was under
way by then. It is always the one that was handed in if and only if no look-up of the address was
under way with another key for an answer. -/
theorem registered_unless_overtaken (t : Traffic) {address key : String} {q : Curve.Point}
    (h : Service.keyOf key = .ok q) :
    let registered := (t.register address key).2
    (t.register address key).1 = .ok () ∧
    (∀ steps, Leaves address steps → ∀ chain, ∃ p,
      ((registered.run steps).start chain address).1 = some (.ok p) ∧
        (p = q ∨ ∃ w ∈ t.waiting, w.address = address ∧ w.key? = some p)) ∧
    ((∀ steps, Leaves address steps → ∀ chain,
        ((registered.run steps).start chain address).1 = some (.ok q)) ↔
      ∀ w ∈ t.waiting, w.address = address → ∀ p, w.key? = some p → p = q) := by
  intro registered
  have hregister : t.register address key = _ := register_of_key h t address
  have hknown : registered.known address = some q := by
    simp only [registered, hregister, known]
    rw [Service.lookup_keep, if_pos rfl]
  have hwaiting : registered.waiting = t.waiting := by
    simp only [registered, hregister]
  have hsince : Since t.waiting address q registered :=
    ⟨⟨q, hknown, .inl rfl⟩, fun w hw _ => hwaiting ▸ hw⟩
  have hcomes (steps : List Step) (hsteps : Leaves address steps) (chain : String) : ∃ p,
      ((registered.run steps).start chain address).1 = some (.ok p) ∧
        (p = q ∨ ∃ w ∈ t.waiting, w.address = address ∧ w.key? = some p) := by
    obtain ⟨p, hp, hwhence⟩ := (hsince.run hsteps).known
    exact ⟨p, by rw [start_known hp], hwhence⟩
  refine ⟨by rw [hregister], hcomes, ?_, ?_⟩
  · intro hstays w hw haddress p hp
    obtain ⟨n, hn⟩ := List.getElem?_of_mem hw
    have hnone : Leaves address [.land n] := by
      intro other key hmem
      cases List.mem_singleton.mp hmem
    have hlanded : (registered.run [.land n]).known address = some p := by
      have hland := known_land (t := registered) (hwaiting ▸ hn) address
      rw [if_pos haddress.symm, hp] at hland
      exact hland
    have hq := hstays [.land n] hnone ""
    rw [start_known hlanded] at hq
    exact Except.ok.inj (Option.some.inj hq)
  · intro hsame steps hsteps chain
    obtain ⟨p, hp, rfl | ⟨w, hw, haddress, hkey⟩⟩ := hcomes steps hsteps chain
    · exact hp
    · rwa [← hsame w hw haddress p hkey]

/-- The secret two. -/
def two : Curve.Scalar := ⟨2, by decide, by decide⟩

/-- A service that knows no key, and a directory with the key of that secret for everyone. -/
def oneDirectory : Traffic :=
  ⟨.fresh (fun _ _ _ _ => .ok []) (some fun _ _ _ => .ok (Base64.encode two.point.compressed)) "",
    []⟩

/-- A look-up of another address that is under way does not touch the key that is handed in. -/
theorem registered_beside_another :
    let t := (oneDirectory.start "chain" "writer").2
    t.waiting.map Waiting.address = ["writer"] ∧
    Service.keyOf (Base64.encode one.point.compressed) = .ok one.point ∧
    ∀ steps, Leaves "reader" steps → ∀ chain,
      (((t.register "reader" (Base64.encode one.point.compressed)).2.run steps).start
        chain "reader").1 = some (.ok one.point) := by
  intro t
  have hread := Service.keyOf_compressed one
  refine ⟨rfl, hread, ?_⟩
  obtain ⟨-, -, hstays⟩ := @registered_unless_overtaken t "reader" _ _ hread
  apply hstays.mpr
  intro w hw haddress
  have hwriter : w = ⟨"writer", .ok (Base64.encode two.point.compressed)⟩ :=
    List.mem_singleton.mp hw
  rw [hwriter] at haddress
  exact absurd haddress (by decide)

/-- A look-up that was under way lands after the key was handed in: the key gives way to the answer.
-/
theorem registration_overtaken :
    let t := oneDirectory.run [.start "chain" "reader"]
    (t.register "reader" (Base64.encode one.point.compressed)).1 = .ok () ∧
    Service.keyOf (Base64.encode one.point.compressed) = .ok one.point ∧
    (((t.register "reader" (Base64.encode one.point.compressed)).2.run [.land 0]).start
      "chain" "reader").1 = some (.ok two.point) ∧
    two.point ≠ one.point := by
  intro t
  have hone := Service.keyOf_compressed one
  have htwo :
      (Waiting.mk "reader" (.ok (Base64.encode two.point.compressed))).key? = some two.point := by
    simp only [Waiting.key?, bind, Except.bind, Service.keyOf_compressed, Except.toOption]
  have hregister := register_of_key hone t "reader"
  refine ⟨by rw [hregister], hone, ?_, by decide +kernel⟩
  have hland := known_land (t := (t.register "reader" (Base64.encode one.point.compressed)).2)
    (n := 0) (w := ⟨"reader", .ok (Base64.encode two.point.compressed)⟩) (by rw [hregister]; rfl)
    "reader"
  rw [if_pos rfl, htwo] at hland
  simp only [run_cons, run_nil, step]
  rw [start_known hland]

end Traffic

end Countersign.Messaging
