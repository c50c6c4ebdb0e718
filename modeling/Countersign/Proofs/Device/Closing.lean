import Countersign.Proofs.Device.Session

/-!
# Closing a session

The link of a session is closed once and not used afterwards. A session that fails to open has
closed its link behind the last command; one that is open has not closed it; and one that was closed
answers by itself, whether or not the link reported a failure.
-/
namespace Countersign.Session

/-- What an operation comes to when the session is closed. -/
def Operation.whenClosed : Operation → Outcome
  | .close => .closed
  | _ => .failed (.refused .sessionClosed)

/-- What the link says when it is closed. -/
def Outcome.ofClosing : Option LinkFault → Outcome
  | none => .closed
  | some fault => .failed (.refused (.link fault))

/-! ### Opening -/

theorem init_cases (app : DeviceApp) (settings : DeviceSettings) (link : Link) :
    let probed := (Persona.ofApp app settings).probe.on link
    (probed.1 = .ok () ∧
      init app settings (.ok link) =
        (.ok ⟨some (Persona.ofApp app settings), probed.2⟩, some probed.2)) ∨
    ∃ e, probed.1 = .error e ∧
      init app settings (.ok link) =
        (.error (probeError (Persona.ofApp app settings).title e),
          some probed.2.closed) := by
  simp only [init]
  rcases hp : (Persona.ofApp app settings).probe.on link with ⟨e | u, link'⟩
  · refine .inr ⟨e, rfl, ?_⟩
    simp only [Exchange.on, Exchange.close]
    cases link'.closeFault <;> rfl
  · exact .inl ⟨rfl, rfl⟩

/-- What a probe finds out, and the commands that it sends, do not depend on whether closing fails.
-/
theorem probe_fresh (p : Persona) (replies : List Reply) (fault fault' : Option LinkFault) :
    p.probe.on (Link.fresh replies fault') =
      ((p.probe.on (Link.fresh replies fault)).1,
        { (p.probe.on (Link.fresh replies fault)).2 with closeFault := fault' }) :=
  p.sends_probe.on_closeFault (Link.fresh replies fault) fault'

theorem probe_open (p : Persona) (replies : List Reply) (fault : Option LinkFault) :
    (p.probe.on (Link.fresh replies fault)).2.IsOpen ∧
      (p.probe.on (Link.fresh replies fault)).2.closeFault = fault := by
  obtain ⟨_, _, hlog, hfault⟩ := p.sends_probe.link (Link.fresh replies fault)
  have hfresh : (Link.fresh replies fault).IsOpen := rfl
  exact ⟨hfresh.of_log hlog, hfault⟩

/-- A session that fails to open closes its link once, behind all that was sent, and reports the
same failure whatever closing comes to. -/
theorem init_failed {app : DeviceApp} {settings : DeviceSettings} {replies : List Reply}
    {fault : Option LinkFault} {e : Error}
    (h : (init app settings (.ok (Link.fresh replies fault))).1 = .error e) :
    let probed := ((Persona.ofApp app settings).probe.on (Link.fresh replies fault)).2
    probed.IsOpen ∧ (init app settings (.ok (Link.fresh replies fault))).2 = some probed.closed ∧
      ∀ fault', (init app settings (.ok (Link.fresh replies fault'))).1 = .error e := by
  intro probed
  rcases init_cases app settings (Link.fresh replies fault) with ⟨_, hi⟩ | ⟨cause, hc, hi⟩
  · rw [hi] at h
    cases h
  · rw [hi] at h
    refine ⟨(probe_open _ replies fault).1, by rw [hi], fun fault' => ?_⟩
    · rcases init_cases app settings (Link.fresh replies fault') with ⟨hok, _⟩ | ⟨cause', hc', hi'⟩
      · rw [probe_fresh _ replies fault fault', hc] at hok
        cases hok
      · rw [probe_fresh _ replies fault fault', hc] at hc'
        obtain rfl := Except.error.inj hc'
        rw [hi']
        exact h

theorem init_opened {app : DeviceApp} {settings : DeviceSettings} {replies : List Reply}
    {fault : Option LinkFault} {s : Session}
    (h : (init app settings (.ok (Link.fresh replies fault))).1 = .ok s) :
    s.persona = some (Persona.ofApp app settings) ∧ s.link.IsOpen ∧ s.link.closeFault = fault := by
  rcases init_cases app settings (Link.fresh replies fault) with ⟨_, hi⟩ | ⟨_, _, hi⟩
  · rw [hi] at h
    obtain rfl := Except.ok.inj h
    exact ⟨rfl, probe_open _ replies fault⟩
  · rw [hi] at h
    cases h

/-! ### Closing -/

theorem state_congr {s s' : Session} (h : s'.persona = s.persona) : s'.state = s.state := by
  simp only [state, h]

theorem close_open (s : Session) {p : Persona} (h : s.persona = some p) :
    s.act .close =
      (Outcome.ofClosing s.link.closeFault, ⟨none, s.link.closed⟩) := by
  simp only [act, close, h, Exchange.on, Exchange.close]
  cases s.link.closeFault <;> rfl

/-- A closed session answers by itself and stays as it is. -/
theorem act_closed (s : Session) (h : s.persona = none) (op : Operation) :
    s.act op = (op.whenClosed, s) := by
  cases op with
  | getVersion => simp [act, getVersion, onCosmos, h, Outcome.of, Operation.whenClosed]
  | getPublicKey app path =>
    cases app <;>
      simp [act, getPublicKey, onCosmos, onEthereum, h, Outcome.of, Operation.whenClosed]
  | sign path text => simp [act, sign, onCosmos, h, Outcome.of, Operation.whenClosed]
  | signEthereum kind path text =>
    simp [act, signEthereum, h, Outcome.ofSigned, Operation.whenClosed]
  | close => simp [act, close, h, Outcome.of, Operation.whenClosed]

theorem after_closed (s : Session) (h : s.persona = none) (ops : List Operation) :
    s.after ops = s ∧ s.outcomes ops = ops.map Operation.whenClosed := by
  induction ops with
  | nil => exact ⟨rfl, rfl⟩
  | cons op ops ih => simp [outcomes, s.act_closed h op, ih]

/-- A session that was closed at some time has no app any more. -/
theorem persona_of_closed {s : Session} {ops : List Operation} (h : .close ∈ ops) :
    (s.after ops).persona = none := by
  induction ops generalizing s with
  | nil => cases h
  | cons op ops ih =>
    rw [after_cons]
    by_cases hop : op = .close
    · subst hop
      have hclosed : (s.act .close).2.persona = none := by
        cases hp : s.persona with
        | none =>
          rw [s.act_closed hp]
          exact hp
        | some p => rw [close_open s hp]
      rw [(after_closed _ hclosed ops).1]
      exact hclosed
    · exact ih (List.mem_of_ne_of_mem (Ne.symm hop) h)

/-- The link of a session is closed exactly once and never used afterwards. A session that fails to
open has sent commands and closed the link after the last of them, and reports the same failure
whatever closing comes to. One that is open has sent commands and nothing else until it is closed
for the first time. That is done after the last command, whether or not closing fails; from then on
the session and its link stay as they are, and every operation is told so. Only closing changes the
state of a session. -/
theorem closed_exactly_once (app : DeviceApp) (settings : DeviceSettings) (replies : List Reply)
    (fault : Option LinkFault) :
    (∀ e, (init app settings (.ok (Link.fresh replies fault))).1 = .error e →
      let probed := ((Persona.ofApp app settings).probe.on (Link.fresh replies fault)).2
      probed.log = probed.sent.map .send ∧
        (init app settings (.ok (Link.fresh replies fault))).2 =
          some { probed with log := probed.log ++ [.close] } ∧
        ∀ fault', (init app settings (.ok (Link.fresh replies fault'))).1 = .error e) ∧
    (∀ s, (init app settings (.ok (Link.fresh replies fault))).1 = .ok s →
      ∀ before after : List Operation, .close ∉ before →
        let opened := (s.after before).link
        (s.after before).state = .ready app ∧
        opened.log = opened.sent.map .send ∧ opened.closes = 0 ∧
        ((s.after before).act .close).1 = Outcome.ofClosing fault ∧
        s.after (before ++ .close :: after) =
          ⟨none, { opened with log := opened.log ++ [.close] }⟩ ∧
        (s.after (before ++ .close :: after)).link.closes = 1 ∧
        (s.after (before ++ .close :: after)).state = .closed ∧
        (s.after (before ++ [.close])).outcomes after = after.map Operation.whenClosed) ∧
    ∀ (s : Session) (op : Operation), op ≠ .close → (s.act op).2.state = s.state := by
  refine ⟨fun e h => init_failed h, fun s h before after hbefore => ?_, fun s op hop => ?_⟩
  · intro opened
    obtain ⟨hpersona, hopen, hfault⟩ := init_opened h
    have hon := s.after_goesOn hbefore
    have hp : (s.after before).persona = some (Persona.ofApp app settings) :=
      hon.persona.trans hpersona
    have hstill : opened.IsOpen := hon.isOpen hopen
    have hclose := close_open (s.after before) hp
    rw [hon.closeFault, hfault] at hclose
    have hclosed := after_closed ((s.after before).act .close).2 (by rw [hclose])
    have hall : s.after (before ++ .close :: after) = ⟨none, opened.closed⟩ := by
      rw [after_append, after_cons, (hclosed after).1, hclose]
    refine ⟨?_, hstill, hstill.closes.1, by rw [hclose], hall, ?_, by rw [hall]; rfl, ?_⟩
    · rw [state, hp]
      cases app <;> rfl
    · rw [hall]
      exact hstill.closes.2
    · rw [after_append, after_cons, after_nil]
      exact (hclosed after).2
  · exact state_congr (s.act_goesOn hop).persona

/-- A link that cannot be released: it is closed behind the first question of the probe when the
device does not answer, and behind what was sent when the session is closed. -/
theorem stuck_link_closed :
    let fault := some (LinkFault.other "stuck")
    let version : Reply := .answer [0, 2, 34, 12, 0, 0x90, 0x00]
    let name : Reply := .answer [1, 6, 67, 111, 115, 109, 111, 115, 1, 50, 0x90, 0x00]
    let path := DerivationPath.first DerivationPath.cosmosCoin
    let ask : Apdu := ⟨0x55, 0, 0, 0, []⟩
    (init .cosmos {} (.ok (Link.fresh [] fault))).1 = .error (.appNotInitialised "Cosmos") ∧
      (init .cosmos {} (.ok (Link.fresh [] fault))).2.map Link.log = some [.send ask, .close] ∧
      ∃ s, (init .cosmos {} (.ok (Link.fresh [version, name] fault))).1 = .ok s ∧
        (s.act .getVersion).2.state = .ready .cosmos ∧
        ((s.after [.getVersion]).act .close).1 = .failed (.refused (.link (.other "stuck"))) ∧
        (s.after ([.getVersion] ++ .close :: [.sign path [1]])).link.log =
          [.send ask, .send ⟨0xB0, 1, 0, 0, []⟩, .send ask, .close] ∧
        (s.after [.getVersion, .close]).outcomes [.sign path [1], .close] =
          [.failed (.refused .sessionClosed), .closed] := by
  intro fault version name path ask
  obtain ⟨hfail, -, -⟩ := closed_exactly_once .cosmos {} [] fault
  obtain ⟨-, hlink, -⟩ := hfail (.appNotInitialised "Cosmos") rfl
  obtain ⟨-, hopen, hstate⟩ := closed_exactly_once .cosmos {} [version, name] fault
  refine ⟨rfl, ?_, ?_⟩
  · rw [hlink]
    rfl
  · obtain ⟨s, hs⟩ : ∃ s, (init .cosmos {} (.ok (Link.fresh [version, name] fault))).1 = .ok s :=
      ⟨_, rfl⟩
    obtain ⟨-, -, -, hclosing, -⟩ := hopen s hs [.getVersion] [] (by decide)
    obtain ⟨-, -, -, -, hclosed, -⟩ := hopen s hs [.getVersion] [.sign path [1]] (by decide)
    obtain ⟨-, -, -, -, -, -, -, hrest⟩ :=
      hopen s hs [.getVersion] [.sign path [1], .close] (by decide)
    obtain ⟨hready, -⟩ := hopen s hs [] [] (by decide)
    refine ⟨s, hs, (hstate s .getVersion (by decide)).trans hready, hclosing, ?_, hrest⟩
    rw [hclosed, ← Except.ok.inj hs]
    rfl

end Countersign.Session
