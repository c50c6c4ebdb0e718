import Countersign.Proofs.Device.Locked
import Countersign.Proofs.Device.ScreenSaver

/-!
# Opening a session

What a device answers to the probe decides whether a session opens, and what is reported if it does
not: that the device is locked, that another app is open, or that the app is not there. One of them
always holds, and no two of them hold together.
-/
namespace Countersign

/-! ### Replies -/

namespace Reply

/-- The reply to the next command; if none is left the device has gone away. -/
def first (replies : List Reply) : Reply :=
  replies.headD (.failure .disconnected)

@[simp] theorem first_cons (reply : Reply) (rest : List Reply) : first (reply :: rest) = reply :=
  rfl

/-- The device says that it is locked: by its status word, or in the words of the link. -/
inductive SaysLocked : Reply → Prop
  | status (d : Bytes) : SaysLocked (.ofStatus d 0x5515)
  | words {text : String} (h : (LinkFault.other text).SaysLocked) :
      SaysLocked (.failure (.other text))

theorem SaysLocked.reportsLock {reply : Reply} (h : reply.SaysLocked) : reply.ReportsLock := by
  cases h with
  | status d => exact .status d
  | words h => exact .words (LinkFault.isScreenSaver_iff.mpr h)

theorem isAbsence_of_silent {fault : LinkFault} (h : ¬fault.SaysLocked) :
    Error.IsAbsence (.link fault) := by
  intro title
  have hfault : fault.isScreenSaver = false :=
    Bool.eq_false_iff.mpr fun hs => h (LinkFault.isScreenSaver_iff.mp hs)
  have htext : namesScreenSaver (Error.link fault).message = false := by
    cases fault with
    | other text => exact (Bool.or_eq_false_iff.mp hfault).1
    | deviceNotFound | disconnected | closed => decide +kernel
  simp only [probeError, hfault, htext]
  rfl

/-- An answer too short for a status word is told in words that do not speak of a lock, whichever of
the two lengths they name. -/
theorem short_silent {b : Bytes} {e : Error} (h : Answer.ofBytes b = .error e) :
    ¬(LinkFault.other e.message).SaysLocked := by
  unfold Answer.ofBytes at h
  split at h
  next hshort =>
    obtain rfl := Except.error.inj h
    rw [← LinkFault.isScreenSaver_iff]
    match b, hshort with
    | [], _ => decide +kernel
    | [_], _ =>
      show ¬(LinkFault.other ("malformed device response: " ++
        (Digits.decimal 1 ++ " byte reply has no status word"))).isScreenSaver
      decide +kernel
  next => cases h

theorem answer_eq_ofStatus {b : Bytes} {a : Answer} (h : Answer.ofBytes b = .ok a) :
    Reply.answer b = .ofStatus a.data a.status := by
  unfold Answer.ofBytes at h
  split at h
  next => cases h
  next hlong =>
    obtain rfl := Except.ok.inj h
    have hword : (b.drop (b.length - 2)).length = 2 := by
      rw [List.length_drop]
      omega
    simp only [ofStatus, Bytes.ofNat_toNat_self hword, List.take_append_drop]

/-- A reply that is no success says that the device is locked, or is one for which the app counts as
not there. -/
theorem outcome_error {reply : Reply} {e : Error} (h : reply.outcome = .error e) :
    reply.SaysLocked ∨ e.IsAbsence := by
  cases reply with
  | failure fault =>
    obtain rfl : Error.link fault = e := Except.error.inj h
    by_cases hsays : fault.SaysLocked
    · cases fault with
      | other text => exact .inl (.words hsays)
      | deviceNotFound | disconnected | closed => exact hsays.elim
    · exact .inr (isAbsence_of_silent hsays)
  | answer b =>
    cases ha : Answer.ofBytes b with
    | error cause =>
      simp only [outcome, Link.answered, ha] at h
      obtain rfl := Except.error.inj h
      exact .inr (isAbsence_of_silent (short_silent ha))
    | ok a =>
      by_cases hlocked : a.status = 0x5515
      · rw [answer_eq_ofStatus ha, hlocked]
        exact .inl (.status _)
      · right
        simp only [outcome, Link.answered, ha, Answer.check, Answer.toError, if_neg hlocked] at h
        split_ifs at h
        · cases h
        · exact Except.error.inj h ▸ rejected_absent
        · exact Except.error.inj h ▸ device_absent a.status

end Reply

open Exchange (success)

theorem Exchange.on_data_first (a : Apdu) (link : Link) :
    (Exchange.data a).on link =
      ((Reply.first link.replies).outcome,
        { link with log := link.log ++ [.send a], replies := link.replies.tail }) := by
  rw [on_data]
  obtain ⟨replies, fault, log⟩ := link
  cases replies <;> rfl

/-- A question whose answer is read. -/
theorem Exchange.on_ask {α : Type} (a : Apdu) (parse : Bytes → Except Error α) (link : Link) :
    (Exchange.data a >>= fun b => Exchange.lift (parse b)).on link =
      ((Reply.first link.replies).outcome >>= parse,
        { link with log := link.log ++ [.send a], replies := link.replies.tail }) := by
  rw [on_bind, on_data_first]
  cases (Reply.first link.replies).outcome <;> rfl

namespace Reply

variable {α : Type}

theorem read_success (d : Bytes) (rest : List Reply) (parse : Bytes → Except Error α) :
    (first (success d :: rest)).outcome >>= parse = parse d := by
  rw [first_cons, Exchange.outcome_success]
  rfl

theorem read_error {reply : Reply} {e : Error} (h : reply.outcome = .error e)
    (parse : Bytes → Except Error α) : reply.outcome >>= parse = .error e := by
  rw [h]
  rfl

/-- How a question is answered: with something to be read, by a lock, or as if the app were not
there. -/
theorem read_cases {parse : Bytes → Except Error α}
    (hparse : ∀ b, FailsWith Error.IsAbsence (parse b)) (replies : List Reply) :
    (∃ d rest a, replies = success d :: rest ∧ parse d = .ok a) ∨
      (∃ reply rest, replies = reply :: rest ∧ reply.SaysLocked) ∨
      ∃ e, (first replies).outcome >>= parse = .error e ∧ e.IsAbsence := by
  cases replies with
  | nil => exact .inr (.inr ⟨_, rfl, isAbsence_of_silent id⟩)
  | cons reply rest =>
    cases hreply : reply.outcome with
    | error e =>
      rcases outcome_error hreply with hlocked | habsent
      · exact .inr (.inl ⟨reply, rest, rfl, hlocked⟩)
      · exact .inr (.inr ⟨e, read_error hreply parse, habsent⟩)
    | ok d =>
      obtain rfl := Exchange.eq_success hreply
      cases hd : parse d with
      | ok a => exact .inl ⟨d, rest, a, rfl, hd⟩
      | error e => exact .inr (.inr ⟨e, (read_success d rest parse).trans hd, hparse d e hd⟩)

end Reply

/-! ### What the device tells -/

/-- The device tells a version, and these replies are left. -/
inductive CosmosApp.TellsVersion : List Reply → Version → List Reply → Prop
  | mk {d : Bytes} {rest : List Reply} {version : Version} (h : Version.parse d = .ok version) :
    TellsVersion (success d :: rest) version rest

/-- A device that is not locked tells the name of the app that is open. -/
inductive CosmosApp.TellsName : List Reply → String → Prop
  | mk {replies rest : List Reply} {d : Bytes} {version : Version} {info : Info} {name : String}
    (hversion : TellsVersion replies version (success d :: rest))
    (hunlocked : version.deviceLocked = false) (hinfo : Info.parse d = .ok info)
    (hname : info.name = name) : TellsName replies name

/-- The device tells a key, with the address that belongs to it. -/
inductive EthereumApp.TellsKey : List Reply → Prop
  | mk {d : Bytes} {rest : List Reply} {key : Key} (h : Key.parse d = .ok key) :
    TellsKey (success d :: rest)

namespace Persona

open CosmosApp (TellsVersion TellsName)

/-- The device answers as only the right app on an unlocked device does. -/
def Answered : Persona → List Reply → Prop
  | .cosmos app, replies => TellsName replies app.name
  | .ethereum, replies => EthereumApp.TellsKey replies

/-- A device that is not locked tells the name of another app. -/
def NamesOther : Persona → List Reply → String → Prop
  | .cosmos app, replies, reported => TellsName replies reported ∧ reported ≠ app.name
  | .ethereum, _, _ => False

/-- The probe comes to this reply. -/
inductive ComesTo : Persona → List Reply → Reply → Prop
  | version {app : CosmosApp} {reply : Reply} {rest : List Reply} :
    ComesTo (.cosmos app) (reply :: rest) reply
  | name {app : CosmosApp} {replies rest : List Reply} {reply : Reply} {version : CosmosApp.Version}
    (hversion : TellsVersion replies version (reply :: rest))
    (hunlocked : version.deviceLocked = false) : ComesTo (.cosmos app) replies reply
  | key {reply : Reply} {rest : List Reply} : ComesTo .ethereum (reply :: rest) reply

/-- The device says that it is locked, by a reply that the probe comes to or in the version of the
app. -/
inductive FoundLocked : Persona → List Reply → Prop
  | told {p : Persona} {replies : List Reply} {reply : Reply} (h : ComesTo p replies reply)
    (hlocked : reply.SaysLocked) : FoundLocked p replies
  | flagged {app : CosmosApp} {replies rest : List Reply} {version : CosmosApp.Version}
    (hversion : TellsVersion replies version rest) (hlocked : version.deviceLocked = true) :
    FoundLocked (.cosmos app) replies

/-! ### What the probe finds -/

/-- What the probe finds out from the replies. -/
def finds : Persona → List Reply → Except Error Unit
  | .cosmos app, replies =>
    match (Reply.first replies).outcome >>= CosmosApp.Version.parse with
    | .error e => .error e
    | .ok version =>
      if version.deviceLocked then .error .deviceLocked
      else
        match (Reply.first replies.tail).outcome >>= CosmosApp.Info.parse with
        | .error e => .error e
        | .ok info =>
          if info.name = app.name then .ok () else .error (.unsupportedApp app.name info.name)
  | .ethereum, replies => ((Reply.first replies).outcome >>= EthereumApp.Key.parse).map fun _ => ()

/-- The commands of the probe. -/
def questions : Persona → List Apdu
  | .cosmos _ => [⟨CosmosApp.cla, 0x00, 0, 0, []⟩, ⟨CosmosApp.claAppInfo, 0x01, 0, 0, []⟩]
  | .ethereum =>
    [⟨EthereumApp.cla, 0x02, 0, 0,
      (DerivationPath.first DerivationPath.ethereumCoin).ethereumBytes⟩]

/-- The probe finds it by asking its questions in turn, all of them if it succeeds. -/
theorem probe_finds (p : Persona) (link : Link) :
    (p.probe.on link).1 = p.finds link.replies ∧
      ∃ asked : List Apdu, asked <+: p.questions ∧
        (p.probe.on link).2.log = link.log ++ asked.map .send ∧
        (p.finds link.replies = .ok () → asked = p.questions) := by
  cases p with
  | cosmos app =>
    have hversion : CosmosApp.getVersion.on link = _ := Exchange.on_ask _ _ link
    simp only [probe, finds, questions, Exchange.on_bind, hversion]
    cases (Reply.first link.replies).outcome >>= CosmosApp.Version.parse with
    | error e =>
      refine ⟨rfl, [_], by simp, rfl, fun h => ?_⟩
      cases h
    | ok version =>
      by_cases hlocked : version.deviceLocked = true
      · simp only [if_pos hlocked]
        refine ⟨rfl, [_], by simp, rfl, fun h => ?_⟩
        cases h
      · have hname (between : Link) : CosmosApp.appInfo.on between = _ :=
          Exchange.on_ask _ _ between
        simp only [if_neg hlocked, Exchange.on_bind, hname, List.append_assoc]
        cases (Reply.first link.replies.tail).outcome >>= CosmosApp.Info.parse with
        | error e => exact ⟨rfl, [_, _], List.prefix_rfl, rfl, fun _ => rfl⟩
        | ok info =>
          by_cases hsame : info.name = app.name
          · simp only [if_pos hsame]
            exact ⟨rfl, [_, _], List.prefix_rfl, rfl, fun _ => rfl⟩
          · simp only [if_neg hsame]
            exact ⟨rfl, [_, _], List.prefix_rfl, rfl, fun _ => rfl⟩
  | ethereum =>
    have hkey :
        (EthereumApp.getAddress (DerivationPath.first DerivationPath.ethereumCoin)).on link = _ :=
      Exchange.on_ask _ _ link
    simp only [probe, finds, questions, Exchange.on_bind, hkey]
    cases (Reply.first link.replies).outcome >>= EthereumApp.Key.parse with
    | error e => exact ⟨rfl, [_], List.prefix_rfl, rfl, fun _ => rfl⟩
    | ok key => exact ⟨rfl, [_], List.prefix_rfl, rfl, fun _ => rfl⟩

variable {p : Persona} {replies : List Reply}

theorem finds_answered (h : p.Answered replies) : p.finds replies = .ok () := by
  cases p with
  | cosmos app =>
    obtain ⟨⟨hversion⟩, hunlocked, hinfo, hname⟩ := h
    simp only [finds, Reply.read_success, hversion, hunlocked, List.tail_cons, hinfo, hname]
    rfl
  | ethereum =>
    obtain ⟨hkey⟩ := h
    rw [finds, Reply.read_success, hkey]
    rfl

theorem finds_other {reported : String} (h : p.NamesOther replies reported) :
    p.finds replies = .error (.unsupportedApp p.title reported) := by
  cases p with
  | cosmos app =>
    obtain ⟨⟨⟨hversion⟩, hunlocked, hinfo, rfl⟩, hother⟩ := h
    simp only [finds, Reply.read_success, hversion, hunlocked, List.tail_cons, hinfo, if_neg hother]
    rfl
  | ethereum => exact h.elim

/-- A reply that is no success is what the probe fails with. -/
theorem finds_comesTo {reply : Reply} {e : Error} (h : ComesTo p replies reply)
    (he : reply.outcome = .error e) : p.finds replies = .error e := by
  cases h with
  | @version app reply rest =>
    have hfirst : (Reply.first (reply :: rest)).outcome = .error e := he
    simp only [finds, Reply.read_error hfirst]
  | @name app replies rest reply version hversion hunlocked =>
    have hfirst : (Reply.first (reply :: rest)).outcome = .error e := he
    obtain ⟨hversion⟩ := hversion
    simp only [finds, Reply.read_success, hversion, hunlocked, List.tail_cons,
      Reply.read_error hfirst]
    rfl
  | @key reply rest =>
    have hfirst : (Reply.first (reply :: rest)).outcome = .error e := he
    rw [finds, Reply.read_error hfirst]
    rfl

theorem finds_locked (h : p.FoundLocked replies) :
    ∃ e, p.finds replies = .error e ∧ probeError p.title e = .deviceLocked := by
  cases h with
  | told hcomes hlocked =>
    obtain ⟨e, he, hlock⟩ := Reply.probeError_of_lock hlocked.reportsLock p.title
    exact ⟨e, finds_comesTo hcomes he, hlock⟩
  | flagged hversion hlocked =>
    obtain ⟨hversion⟩ := hversion
    refine ⟨.deviceLocked, ?_, rfl⟩
    simp only [finds, Reply.read_success, hversion, if_pos hlocked]

/-- Whatever the replies are, the probe finds one of these. Each of its questions ends it unless
something is read. -/
theorem finds_cases (p : Persona) (replies : List Reply) :
    p.Answered replies ∨ p.FoundLocked replies ∨ (∃ reported, p.NamesOther replies reported) ∨
      ∃ e, p.finds replies = .error e ∧ e.IsAbsence := by
  cases p with
  | cosmos app =>
    rcases Reply.read_cases CosmosApp.version_absent replies with
      ⟨d, rest, version, rfl, hd⟩ | ⟨reply, rest, rfl, hsays⟩ | ⟨e, he, habsent⟩
    · have hversion : TellsVersion (success d :: rest) version rest := .mk hd
      by_cases hlocked : version.deviceLocked = true
      · exact .inr (.inl (.flagged hversion hlocked))
      have hunlocked : version.deviceLocked = false := Bool.eq_false_iff.mpr hlocked
      rcases Reply.read_cases CosmosApp.info_absent rest with
        ⟨d', rest, info, rfl, hinfo⟩ | ⟨reply, rest, rfl, hsays⟩ | ⟨e, he, habsent⟩
      · by_cases hname : info.name = app.name
        · exact .inl (.mk hversion hunlocked hinfo hname)
        · exact .inr (.inr (.inl ⟨info.name, .mk hversion hunlocked hinfo rfl, hname⟩))
      · exact .inr (.inl (.told (.name hversion hunlocked) hsays))
      · refine .inr (.inr (.inr ⟨e, ?_, habsent⟩))
        simp only [finds, Reply.read_success, hd, if_neg hlocked, List.tail_cons, he]
    · exact .inr (.inl (.told .version hsays))
    · exact .inr (.inr (.inr ⟨e, by simp only [finds, he], habsent⟩))
  | ethereum =>
    rcases Reply.read_cases EthereumApp.key_absent replies with
      ⟨d, rest, key, rfl, hkey⟩ | ⟨reply, rest, rfl, hsays⟩ | ⟨e, he, habsent⟩
    · exact .inl (.mk hkey)
    · exact .inr (.inl (.told .key hsays))
    · exact .inr (.inr (.inr ⟨e, by rw [finds, he]; rfl, habsent⟩))

end Persona

namespace Session

variable {app : DeviceApp} {settings : DeviceSettings} {link : Link}

theorem init_found (h : (Persona.ofApp app settings).finds link.replies = .ok ()) :
    ∃ s, (init app settings (.ok link)).1 = .ok s := by
  rw [← (Persona.probe_finds _ link).1] at h
  rcases init_cases app settings link with ⟨-, hinit⟩ | ⟨e, he, -⟩
  · exact ⟨_, by rw [hinit]⟩
  · rw [h] at he
    cases he

theorem init_missed {e : Error} (h : (Persona.ofApp app settings).finds link.replies = .error e) :
    (init app settings (.ok link)).1 =
      .error (probeError (Persona.ofApp app settings).title e) := by
  rw [← (Persona.probe_finds _ link).1] at h
  rcases init_cases app settings link with ⟨hok, -⟩ | ⟨e', he', hinit⟩
  · rw [h] at hok
    cases hok
  · rw [h] at he'
    rw [hinit, Except.error.inj he']

theorem init_foundLocked (h : (Persona.ofApp app settings).FoundLocked link.replies) :
    (init app settings (.ok link)).1 = .error .deviceLocked := by
  obtain ⟨e, he, hlock⟩ := Persona.finds_locked h
  rw [init_missed he, hlock]

theorem init_namesOther {reported : String}
    (h : (Persona.ofApp app settings).NamesOther link.replies reported) :
    (init app settings (.ok link)).1 =
      .error (.unsupportedApp settings.cosmosAppName reported) := by
  cases app with
  | cosmos => exact init_missed (Persona.finds_other h)
  | ethereum => exact h.elim

/-- What opening comes to over a link, and why. -/
inductive Opening (p : Persona) (replies : List Reply) : Except Error Session → Prop
  | opened {s : Session} (h : p.Answered replies) : Opening p replies (.ok s)
  | locked (h : p.FoundLocked replies) : Opening p replies (.error .deviceLocked)
  | other {name reported : String} (h : p.NamesOther replies reported) :
    Opening p replies (.error (.unsupportedApp name reported))
  | absent : Opening p replies (.error (.appNotInitialised p.title))

theorem init_opening (app : DeviceApp) (settings : DeviceSettings) (link : Link) :
    Opening (Persona.ofApp app settings) link.replies (init app settings (.ok link)).1 := by
  rcases Persona.finds_cases (Persona.ofApp app settings) link.replies with
    h | h | ⟨reported, h⟩ | ⟨e, he, habsent⟩
  · obtain ⟨s, hs⟩ := init_found (Persona.finds_answered h)
    exact hs ▸ .opened h
  · exact init_foundLocked h ▸ .locked h
  · exact init_namesOther h ▸ .other h
  · rw [init_missed he, habsent]
    exact .absent

theorem Opening.answered {p : Persona} {replies : List Reply} {s : Session}
    (h : Opening p replies (.ok s)) : p.Answered replies := by
  cases h with
  | opened h => exact h

theorem Opening.foundLocked {p : Persona} {replies : List Reply}
    (h : Opening p replies (.error .deviceLocked)) : p.FoundLocked replies := by
  cases h with
  | locked h => exact h

theorem Opening.namesOther {p : Persona} {replies : List Reply} {name reported : String}
    (h : Opening p replies (.error (.unsupportedApp name reported))) :
    p.NamesOther replies reported := by
  cases h with
  | other h => exact h

/-- Opening comes to one of four results over a link, so what is none of the first three is the
last. -/
theorem Opening.absent_of_not {p : Persona} {replies : List Reply} {result : Except Error Session}
    (h : Opening p replies result) (ha : ¬p.Answered replies) (hl : ¬p.FoundLocked replies)
    (ho : ∀ reported, ¬p.NamesOther replies reported) :
    result = .error (.appNotInitialised p.title) := by
  cases h with
  | opened h => exact absurd h ha
  | locked h => exact absurd h hl
  | other h => exact absurd h (ho _)
  | absent => rfl

section

variable (app : DeviceApp) (settings : DeviceSettings) (link : Link)

/-- A session opens just if the device answers as the right app does. -/
theorem init_ok_iff :
    (∃ s, (init app settings (.ok link)).1 = .ok s) ↔
      (Persona.ofApp app settings).Answered link.replies := by
  constructor
  · rintro ⟨s, h⟩
    have hopening := init_opening app settings link
    rw [h] at hopening
    exact hopening.answered
  · exact fun h => init_found (Persona.finds_answered h)

/-- The device is reported as locked just if it says so. -/
theorem init_locked_iff :
    (init app settings (.ok link)).1 = .error .deviceLocked ↔
      (Persona.ofApp app settings).FoundLocked link.replies := by
  constructor
  · intro h
    have hopening := init_opening app settings link
    rw [h] at hopening
    exact hopening.foundLocked
  · exact init_foundLocked

/-- Another app is reported just if an unlocked device tells its name. -/
theorem init_other_iff (configured reported : String) :
    (init app settings (.ok link)).1 = .error (.unsupportedApp configured reported) ↔
      configured = settings.cosmosAppName ∧
        (Persona.ofApp app settings).NamesOther link.replies reported := by
  constructor
  · intro h
    have hopening := init_opening app settings link
    rw [h] at hopening
    have hother := hopening.namesOther
    rw [init_namesOther hother] at h
    cases h
    exact ⟨rfl, hother⟩
  · rintro ⟨rfl, h⟩
    exact init_namesOther h

/-- The app counts as not there just if none of the others is the case. -/
theorem init_absent_iff :
    (init app settings (.ok link)).1 =
        .error (.appNotInitialised (Persona.ofApp app settings).title) ↔
      ¬(Persona.ofApp app settings).Answered link.replies ∧
        ¬(Persona.ofApp app settings).FoundLocked link.replies ∧
        ∀ reported, ¬(Persona.ofApp app settings).NamesOther link.replies reported := by
  constructor
  · intro h
    refine ⟨fun ha => ?_, fun hl => ?_, fun reported ho => ?_⟩
    · obtain ⟨s, hs⟩ := (init_ok_iff app settings link).mpr ha
      rw [h] at hs
      cases hs
    · rw [(init_locked_iff app settings link).mpr hl] at h
      cases h
    · rw [init_namesOther ho] at h
      cases h
  · rintro ⟨ha, hl, ho⟩
    exact (init_opening app settings link).absent_of_not ha hl ho

/-- Opening asks the questions of the probe in turn, all of them if the session opens. -/
theorem init_asked :
    ∃ link' asked, (init app settings (.ok link)).2 = some link' ∧
      link'.sent = link.sent ++ asked ∧ asked <+: (Persona.ofApp app settings).questions ∧
      ∀ s, (init app settings (.ok link)).1 = .ok s →
        asked = (Persona.ofApp app settings).questions := by
  obtain ⟨hfinds, asked, hprefix, hlog, hall⟩ :=
    Persona.probe_finds (Persona.ofApp app settings) link
  have hsent := Link.sent_of_log hlog
  rcases init_cases app settings link with ⟨hok, hinit⟩ | ⟨e, -, hinit⟩
  · rw [hinit]
    exact ⟨_, asked, rfl, hsent, hprefix, fun _ _ => hall (hfinds ▸ hok)⟩
  · rw [hinit]
    exact ⟨_, asked, rfl, (Link.sent_closed _).trans hsent, hprefix, nofun⟩

/-- Opening fails as such just if there is no link. -/
theorem init_failed_iff (opened : Except LinkFault Link) (detail : String) :
    (init app settings opened).1 = .error (.failedInit detail) ↔
      ∃ fault, opened = .error fault ∧ detail = fault.message := by
  cases opened with
  | error fault => simp [init, eq_comm]
  | ok link =>
    constructor
    · intro h
      have hopening := init_opening app settings link
      rw [h] at hopening
      cases hopening
    · rintro ⟨_, h, -⟩
      cases h

end

/-- Opening a session tells apart all that a device may do. It fails as such only if there is no
link. Otherwise it opens if the device answers the probe as the right app on an unlocked device
does; the device is locked if a reply to the probe says so or the version of the app is marked;
another app is reported if an unlocked device tells its name; and in all other cases, and only in
these, the app counts as not there. What was asked are the questions of the probe; the one to the
Ethereum app is for its first key. -/
theorem opening_classified (app : DeviceApp) (settings : DeviceSettings) :
    (∀ opened detail, (init app settings opened).1 = .error (.failedInit detail) ↔
      ∃ fault, opened = .error fault ∧ detail = fault.message) ∧
    (∀ link,
      let p := Persona.ofApp app settings
      let result := (init app settings (.ok link)).1
      ((∃ s, result = .ok s) ↔ p.Answered link.replies) ∧
      (result = .error .deviceLocked ↔ p.FoundLocked link.replies) ∧
      (∀ configured reported, result = .error (.unsupportedApp configured reported) ↔
        configured = settings.cosmosAppName ∧ p.NamesOther link.replies reported) ∧
      (result = .error (.appNotInitialised
          (match app with
            | .cosmos => settings.cosmosAppName
            | .ethereum => "Ethereum")) ↔
        ¬p.Answered link.replies ∧ ¬p.FoundLocked link.replies ∧
          ∀ reported, ¬p.NamesOther link.replies reported) ∧
      ∃ link' asked, (init app settings (.ok link)).2 = some link' ∧
        link'.sent = link.sent ++ asked ∧ asked <+: p.questions ∧
        ∀ s, result = .ok s → asked = p.questions) ∧
    ∃ path : DerivationPath, path.text = "m/44'/60'/0'/0/0" ∧
      Persona.ethereum.questions = [⟨EthereumApp.cla, 0x02, 0, 0, path.ethereumBytes⟩] := by
  have htitle : (Persona.ofApp app settings).title = match app with
      | .cosmos => settings.cosmosAppName
      | .ethereum => "Ethereum" := by
    cases app <;> rfl
  rw [← htitle]
  exact ⟨init_failed_iff app settings, fun link => ⟨init_ok_iff app settings link,
    init_locked_iff app settings link, init_other_iff app settings link,
    init_absent_iff app settings link, init_asked app settings link⟩, ⟨_, by decide +kernel, rfl⟩⟩

/-- Another app that is open is reported by its name, a screen saver by the lock, and silence by the
app that is not there. -/
theorem osmosis_reported :
    let version := success [0, 2, 34, 12, 0]
    let name := success [1, 7, 79, 115, 109, 111, 115, 105, 115, 1, 50]
    let saver := Reply.failure (.other "Screen Saver is on")
    (init .cosmos {} (.ok (Link.fresh [version, name] none))).1 =
        .error (.unsupportedApp "Cosmos" "Osmosis") ∧
      (init .cosmos {} (.ok (Link.fresh [version, saver] none))).1 = .error .deviceLocked ∧
      (init .ethereum {} (.ok (Link.fresh [] none))).1 =
        .error (.appNotInitialised "Ethereum") := by
  intro version name saver
  have hversion (rest : List Reply) :
      CosmosApp.TellsVersion (version :: rest) ⟨false, 2, 34, 12, false, none⟩ rest :=
    .mk rfl
  obtain ⟨-, hcosmos, -⟩ := opening_classified .cosmos {}
  obtain ⟨-, hethereum, -⟩ := opening_classified .ethereum {}
  refine ⟨?_, ?_, ?_⟩
  · obtain ⟨-, -, hother, -⟩ := hcosmos (Link.fresh [version, name] none)
    have hname : CosmosApp.Info.parse [1, 7, 79, 115, 109, 111, 115, 105, 115, 1, 50] =
        .ok ⟨"Osmosis", "2"⟩ := by
      decide +kernel
    exact (hother _ _).mpr ⟨rfl, .mk (hversion _) rfl hname rfl, by decide⟩
  · obtain ⟨-, hlocked, -⟩ := hcosmos (Link.fresh [version, saver] none)
    have hsays : saver.SaysLocked := .words (LinkFault.isScreenSaver_iff.mp (by decide +kernel))
    exact hlocked.mpr (.told (.name (hversion _) rfl) hsays)
  · obtain ⟨-, -, -, habsent, -⟩ := hethereum (Link.fresh [] none)
    exact habsent.mpr ⟨nofun, nofun, fun _ => id⟩

end Session

end Countersign
