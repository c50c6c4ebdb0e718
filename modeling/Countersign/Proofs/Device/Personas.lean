import Countersign.Proofs.Device.ShortCommands

/-!
# One app for each session

A session drives the app that it was opened for and no other. What another app would have to do is
refused by the session itself, and the class of every command that is sent is that of the app; only
the second question of the probe of a Cosmos app goes to the device and not to the app.
-/
namespace Countersign

namespace Persona

open Exchange

theorem app_ofApp (app : DeviceApp) (settings : DeviceSettings) :
    (ofApp app settings).app = app := by
  cases app <;> rfl

/-- A Cosmos app that passes the probe was asked for its version, and then the device for its app.
-/
theorem sent_probe_cosmos {app : CosmosApp} {link link' : Link}
    (h : (probe (.cosmos app)).on link = (.ok (), link')) :
    ∃ version info : Apdu, link'.log = link.log ++ [version, info].map .send ∧
      version.cla = CosmosApp.cla ∧ info.cla = CosmosApp.claAppInfo := by
  obtain ⟨version, between, hversion, h⟩ := on_bind_ok h
  obtain ⟨b, behind, hdata, hparse⟩ := on_bind_ok hversion
  obtain ⟨-, rfl⟩ := Prod.mk.inj hparse
  split at h
  next => cases h
  next =>
    obtain ⟨info, last, hinfo, h⟩ := on_bind_ok h
    obtain ⟨b', behind', hdata', hparse'⟩ := on_bind_ok hinfo
    obtain ⟨-, rfl⟩ := Prod.mk.inj hparse'
    have hlast : link' = behind' := by
      split at h
      · exact (Prod.mk.inj h).2.symm
      · cases h
    refine ⟨⟨CosmosApp.cla, 0, 0, 0, []⟩, ⟨CosmosApp.claAppInfo, 1, 0, 0, []⟩, ?_, rfl, rfl⟩
    rw [hlast, (data_ok hdata').2, (data_ok hdata).2, List.append_assoc]
    rfl

end Persona

namespace Session

/-- The app that an operation needs; closing needs none. -/
def Operation.needs : Operation → Option DeviceApp
  | .getVersion => some .cosmos
  | .getPublicKey app _ => some app
  | .sign _ _ => some .cosmos
  | .signEthereum _ _ _ => some .ethereum
  | .close => none

/-- An operation of another app is refused, and nothing is sent. -/
theorem act_other {s : Session} {p : Persona} {op : Operation} {other : DeviceApp}
    (hs : s.persona = some p) (hop : op.needs = some other) (hother : other ≠ p.app) :
    s.act op = (.failed (.refused (.appNotInitialised other.title)), s) := by
  cases p with
  | cosmos app =>
    cases op with
    | getPublicKey needed path =>
      obtain rfl := Option.some.inj hop
      cases needed with
      | cosmos => exact absurd rfl hother
      | ethereum => simp [act, getPublicKey, onEthereum, hs, Outcome.of]
    | signEthereum kind path text =>
      obtain rfl := Option.some.inj hop
      simp [act, signEthereum, hs, Outcome.ofSigned]
    | getVersion | sign path text =>
      obtain rfl := Option.some.inj hop
      exact absurd rfl hother
    | close => cases hop
  | ethereum =>
    cases op with
    | getVersion =>
      obtain rfl := Option.some.inj hop
      simp [act, getVersion, onCosmos, hs, Outcome.of]
    | getPublicKey needed path =>
      obtain rfl := Option.some.inj hop
      cases needed with
      | cosmos => simp [act, getPublicKey, onCosmos, hs, Outcome.of]
      | ethereum => exact absurd rfl hother
    | sign path text =>
      obtain rfl := Option.some.inj hop
      simp [act, sign, onCosmos, hs, Outcome.of]
    | signEthereum kind path text =>
      obtain rfl := Option.some.inj hop
      exact absurd rfl hother
    | close => cases hop

theorem whenClosed_of_needs {op : Operation} {app : DeviceApp} (h : op.needs = some app) :
    op.whenClosed = .failed (.refused .sessionClosed) := by
  cases op with
  | close => cases h
  | getVersion | getPublicKey app path | sign path text | signEthereum kind path text => rfl

/-- From some time on, a session sends nothing but commands of its app. -/
theorem sent_after (s : Session) {p : Persona} (hs : s.persona = some p) (ops : List Operation) :
    ∃ more, (s.after ops).link.sent = s.link.sent ++ more ∧ ∀ a ∈ more, a.cla = p.cla := by
  obtain ⟨more, hmore, hsent⟩ := (s.after_goesOn (close_mem_whileOpen ops)).sent
  refine ⟨more, by rw [sent_whileOpen, hsent], fun a ha => ?_⟩
  obtain ⟨op, -, hcommand⟩ := hmore a ha
  have hcla := hcommand.cla_eq
  rw [hs] at hcla
  exact (Option.some.inj hcla).symm

theorem init_probed {app : DeviceApp} {settings : DeviceSettings} {link : Link} {s : Session}
    (h : (init app settings (.ok link)).1 = .ok s) :
    (Persona.ofApp app settings).probe.on link = (.ok (), s.link) := by
  rcases init_cases app settings link with ⟨hok, hi⟩ | ⟨e, -, hi⟩
  · rw [hi] at h
    obtain rfl := Except.ok.inj h
    exact Prod.ext hok rfl
  · rw [hi] at h
    cases h

/-- A session that was opened for one app never does anything with another. Until it is closed, what
another app would have to do is refused with the name of that app, and the session is left ready as
it is: nothing is sent and no reply is taken. Once it is closed that is what such an operation is
told. The commands for a Cosmos app have its class, but for the second one, which asks the device
for the app; those for an Ethereum app all have its class. -/
theorem personas_apart {app : DeviceApp} {settings : DeviceSettings} {replies : List Reply}
    {fault : Option LinkFault} {s : Session}
    (h : (init app settings (.ok (Link.fresh replies fault))).1 = .ok s) (ops : List Operation) :
    (∀ op other, op.needs = some other → other ≠ app →
      (.close ∉ ops → (s.after ops).act op =
          (.failed (.refused (.appNotInitialised other.title)), s.after ops) ∧
        (s.after ops).state = .ready app) ∧
      (.close ∈ ops → (s.after ops).act op = (.failed (.refused .sessionClosed), s.after ops))) ∧
    match app with
    | .cosmos => ∃ version info more, (s.after ops).link.sent = version :: info :: more ∧
        version.cla = 0x55 ∧ info.cla = 0xB0 ∧ ∀ a ∈ more, a.cla = 0x55
    | .ethereum => ∀ a ∈ (s.after ops).link.sent, a.cla = 0xE0 := by
  obtain ⟨hp, -, -⟩ := init_opened h
  refine ⟨fun op other hop hother => ⟨fun hopen => ?_, fun hclosed => ?_⟩, ?_⟩
  · have hafter := (s.after_goesOn hopen).persona.trans hp
    have happ := Persona.app_ofApp app settings
    refine ⟨act_other hafter hop (happ.symm ▸ hother), ?_⟩
    rw [state, hafter]
    exact congrArg SessionState.ready happ
  · rw [act_closed _ (persona_of_closed hclosed), whenClosed_of_needs hop]
  · obtain ⟨more, hsent, hmore⟩ := s.sent_after hp ops
    have hprobed := init_probed h
    cases app with
    | cosmos =>
      obtain ⟨version, info, hprobe, hversion, hinfo⟩ := Persona.sent_probe_cosmos hprobed
      exact ⟨version, info, more, by rw [hsent, Link.sent_of_log hprobe]; rfl, hversion, hinfo,
        hmore⟩
    | ethereum =>
      obtain ⟨probe, hprobe, hfresh, -⟩ :=
        Persona.sends_probe_ethereum.link (Link.fresh replies fault)
      change (Persona.probe .ethereum).on _ = _ at hprobed
      rw [hprobed] at hfresh
      intro a ha
      rw [hsent, Link.sent_of_log hfresh] at ha
      rcases List.mem_append.mp ha with ha | ha
      · exact (hprobe a ha).1
      · exact hmore a ha

/-- A Cosmos session refuses to give a key of the Ethereum app, before and behind its end; it has
asked for the version twice, and once for the app. -/
theorem ethereum_key_refused :
    let version : Reply := .answer [0, 2, 34, 12, 0, 0x90, 0x00]
    let name : Reply := .answer [1, 6, 67, 111, 115, 109, 111, 115, 1, 50, 0x90, 0x00]
    let op : Operation := .getPublicKey .ethereum (.first DerivationPath.ethereumCoin)
    ∃ s, (init .cosmos {} (.ok (Link.fresh [version, name, version] none))).1 = .ok s ∧
      op.needs = some .ethereum ∧
      ((s.after [.getVersion]).act op).1 =
        .failed (.refused (.appNotInitialised "Ethereum")) ∧
      (s.after [.getVersion]).state = .ready .cosmos ∧
      ((s.after [.getVersion, .close]).act op).1 = .failed (.refused .sessionClosed) ∧
      (s.after [.getVersion, .close]).link.sent.map Apdu.cla = [0x55, 0xB0, 0x55] := by
  intro version name op
  obtain ⟨s, hs⟩ :
      ∃ s, (init .cosmos {} (.ok (Link.fresh [version, name, version] none))).1 = .ok s :=
    ⟨_, rfl⟩
  obtain ⟨hrefused, -⟩ := personas_apart hs [.getVersion]
  obtain ⟨hended, -⟩ := personas_apart hs [.getVersion, .close]
  obtain ⟨hopen, hready⟩ := (hrefused op .ethereum rfl (by decide)).1 (by decide)
  have hclosed := (hended op .ethereum rfl (by decide)).2 (by decide)
  refine ⟨s, hs, rfl, by rw [hopen]; rfl, hready, by rw [hclosed], ?_⟩
  rw [← Except.ok.inj hs]
  rfl

end Session

end Countersign
