import Countersign.Proofs.Device.Closing
import Mathlib.Data.List.TakeWhile

/-!
# Short commands

The octet for the length of a command holds numbers up to 255. All commands of a session fit it,
except where a Cosmos app is asked for a key and the first part of its addresses has between 235 and
255 octets: that length has an octet of its own, but the path stands behind it, and the data of the
command are longer than its length octet can say.
-/
namespace Countersign

namespace Apdu

/-- The data are not too long, the length octet gives their length, and the octets of the command
are the head and what it announces. -/
def WellFormed (a : Apdu) : Prop :=
  a.data.length ≤ maxData ∧ a.lc.toNat = a.data.length ∧ a.toBytes.length = 5 + a.lc.toNat

theorem length_toBytes (a : Apdu) : a.toBytes.length = 5 + a.data.length := by
  simp [toBytes]
  omega

theorem wellFormed_iff (a : Apdu) : a.WellFormed ↔ a.IsShort := by
  refine ⟨fun h => h.1, fun h => ?_⟩
  have hlc : a.lc.toNat = a.data.length := by
    unfold IsShort maxData at h
    simp only [lc, maxData, h, if_true, UInt8.toNat_ofNat']
    omega
  exact ⟨h, hlc, by rw [length_toBytes, hlc]⟩

theorem lc_of_long {a : Apdu} (h : ¬a.IsShort) : a.lc = 255 := by
  unfold IsShort at h
  simp [lc, h]

end Apdu

/-- The octets of the first part of addresses. -/
def DeviceSettings.headLength (settings : DeviceSettings) : Nat :=
  (Utf8.encode settings.addressHead).length

/-- The first part of addresses fits its own length octet, but not a command. -/
def DeviceSettings.HasLongHead (settings : DeviceSettings) : Prop :=
  234 < settings.headLength ∧ settings.headLength ≤ 255

namespace CosmosApp

/-- There is a command for a key if the first part of addresses fits its own length octet. -/
theorem keyCommand_ofSettings (settings : DeviceSettings) (path : DerivationPath) :
    (∃ a, keyCommand ⟨settings.cosmosAppName, settings.addressHead⟩ path = .ok a) ↔
      settings.headLength ≤ 255 := by
  simp only [keyCommand, DeviceSettings.headLength]
  split <;> simp <;> omega

theorem keyCommand_length {settings : DeviceSettings} {path : DerivationPath} {a : Apdu}
    (h : keyCommand ⟨settings.cosmosAppName, settings.addressHead⟩ path = .ok a) :
    a.data.length = 21 + settings.headLength := by
  simp only [keyCommand, DeviceSettings.headLength] at h ⊢
  split at h
  · cases h
  · obtain rfl := Except.ok.inj h
    simp only [List.cons_append, List.length_cons, List.length_append, path.length_cosmosBytes]
    omega

theorem keyCommand_short {settings : DeviceSettings} {path : DerivationPath} {a : Apdu}
    (h : keyCommand ⟨settings.cosmosAppName, settings.addressHead⟩ path = .ok a) :
    a.IsShort ↔ ¬settings.HasLongHead := by
  have hle := (keyCommand_ofSettings settings path).mp ⟨a, h⟩
  have hlen := keyCommand_length h
  unfold Apdu.IsShort Apdu.maxData DeviceSettings.HasLongHead
  omega

theorem issues_getPublicKey (app : CosmosApp) {path : DerivationPath} {a : Apdu}
    (h : app.keyCommand path = .ok a) : Exchange.Issues a (app.getPublicKey path) := by
  unfold getPublicKey
  rw [h]
  exact (Exchange.issues_data a).bind fun _ => Exchange.sends_lift _

end CosmosApp

namespace Session

/-- The operations before the session is closed for the first time. -/
def whileOpen (ops : List Operation) : List Operation := ops.takeWhile (· ≠ .close)

/-- All commands that are sent when a session is opened over a link and then used. -/
def transcript (app : DeviceApp) (settings : DeviceSettings) (link : Link)
    (ops : List Operation) : List Apdu :=
  match init app settings (.ok link) with
  | (.ok s, _) => (s.after ops).link.sent
  | (.error _, some link) => link.sent
  | (.error _, none) => []

theorem transcript_opened {app : DeviceApp} {settings : DeviceSettings} {link : Link} {s : Session}
    {ops : List Operation} (h : (init app settings (.ok link)).1 = .ok s) :
    transcript app settings link ops = (s.after ops).link.sent := by
  unfold transcript
  rcases hi : init app settings (.ok link) with ⟨r, l⟩
  rw [hi] at h
  obtain rfl : r = .ok s := h
  rfl

theorem close_mem_whileOpen (ops : List Operation) : .close ∉ whileOpen ops := by
  intro h
  simpa using List.mem_takeWhile_imp h

/-- A session sends nothing more once it is closed. -/
theorem sent_whileOpen (s : Session) (ops : List Operation) :
    (s.after ops).link.sent = (s.after (whileOpen ops)).link.sent := by
  induction ops generalizing s with
  | nil => rfl
  | cons op ops ih =>
    by_cases hop : op = .close
    · subst hop
      cases hp : s.persona with
      | none =>
        rw [(after_closed s hp _).1]
        rfl
      | some p =>
        have hclose := close_open s hp
        rw [after_cons, (after_closed (s.act .close).2 (by rw [hclose]) ops).1, hclose]
        exact s.link.sent_closed
    · have hw : whileOpen (op :: ops) = op :: whileOpen ops := by simp [whileOpen, hop]
      rw [hw, after_cons, after_cons]
      exact ih _

theorem issues_wrapped {α : Type} {wrap : String → Error} {x : Exchange α} {a : Apdu}
    (hx : Exchange.Issues a x) : Exchange.Issues a (wrapped wrap x) := by
  intro link
  have h := hx link
  simp only [wrapped, Exchange.on] at h ⊢
  rcases hl : x link with ⟨e | b, link'⟩ <;> rw [hl] at h <;> exact h

/-- A session of the Cosmos app that is asked for a key sends the command for it. -/
theorem keyCommand_sent (s : Session) {app : CosmosApp} {path : DerivationPath} {a : Apdu}
    {ops : List Operation} (hs : s.persona = some (.cosmos app)) (h : app.keyCommand path = .ok a)
    (hmem : .getPublicKey .cosmos path ∈ whileOpen ops) : a ∈ (s.after ops).link.sent := by
  obtain ⟨before, rest, hsplit⟩ := List.append_of_mem hmem
  have hopen := close_mem_whileOpen ops
  rw [hsplit, List.mem_append, not_or] at hopen
  have hp := (s.after_goesOn hopen.1).persona.trans hs
  have hsent : a ∈ ((s.after before).act (.getPublicKey .cosmos path)).2.link.sent := by
    simp only [act, getPublicKey, onCosmos, hp, run]
    exact ((issues_wrapped (app.issues_getPublicKey h)).bind fun _ => Exchange.sends_pure _) _
  obtain ⟨as, -, hrest⟩ :=
    (((s.after before).act (.getPublicKey .cosmos path)).2.after_goesOn
      fun h => hopen.2 (List.mem_cons_of_mem _ h)).sent
  rw [sent_whileOpen, hsplit, after_append, after_cons, hrest]
  exact List.mem_append_left as hsent

/-- What is sent is short, or asks the Cosmos app for a key while the session is open. -/
theorem transcript_cases {app : DeviceApp} {settings : DeviceSettings} {replies : List Reply}
    {fault : Option LinkFault} {ops : List Operation} {a : Apdu}
    (ha : a ∈ transcript app settings (Link.fresh replies fault) ops) :
    a.IsShort ∨ ∃ s path, (init app settings (.ok (Link.fresh replies fault))).1 = .ok s ∧
      app = .cosmos ∧ .getPublicKey .cosmos path ∈ whileOpen ops ∧
      CosmosApp.keyCommand ⟨settings.cosmosAppName, settings.addressHead⟩ path = .ok a := by
  obtain ⟨as, has, hprobe, -⟩ :=
    (Persona.ofApp app settings).sends_probe.link (Link.fresh replies fault)
  have hshort : ∀ b ∈ ((Persona.ofApp app settings).probe.on (Link.fresh replies fault)).2.sent,
      b.IsShort := by
    rw [Link.sent_of_log hprobe]
    simpa [Link.fresh, Link.sent] using has
  unfold transcript at ha
  rcases init_cases app settings (Link.fresh replies fault) with ⟨_, hi⟩ | ⟨e, _, hi⟩
  · rw [hi] at ha ⊢
    simp only [sent_whileOpen _ ops] at ha
    obtain ⟨bs, hbs, hsent⟩ := (after_goesOn
      ⟨some (Persona.ofApp app settings), ((Persona.ofApp app settings).probe.on _).2⟩
      (close_mem_whileOpen ops)).sent
    rw [hsent] at ha
    rcases List.mem_append.mp ha with ha | ha
    · exact .inl (hshort a ha)
    · obtain ⟨op, hop, hcommand⟩ := hbs a ha
      refine hcommand.short_or_key.imp_right ?_
      rintro ⟨cosmos, path, hp, rfl, hk⟩
      cases app with
      | cosmos =>
        obtain rfl := Persona.cosmos.inj (Option.some.inj hp)
        exact ⟨_, path, rfl, rfl, hop, hk⟩
      | ethereum => cases hp
  · rw [hi] at ha
    simp only [Link.sent_closed] at ha
    exact .inl (hshort a ha)

/-- All commands of a session are well formed, from the first one of its opening on, unless the
Cosmos app is asked for a key while the first part of its addresses is long. What is sent then
announces 255 octets of data and has more. -/
theorem commands_wellFormed (app : DeviceApp) (settings : DeviceSettings) (replies : List Reply)
    (fault : Option LinkFault) (ops : List Operation) :
    ((∀ a ∈ transcript app settings (Link.fresh replies fault) ops, a.WellFormed) ↔
      ¬(settings.HasLongHead ∧ app = .cosmos ∧
        (∃ s, (init app settings (.ok (Link.fresh replies fault))).1 = .ok s) ∧
        ∃ path, .getPublicKey .cosmos path ∈ whileOpen ops)) ∧
    ∀ a ∈ transcript app settings (Link.fresh replies fault) ops, a.WellFormed ∨
      settings.HasLongHead ∧ a.lc = 255 ∧ a.toBytes.length = 26 + settings.headLength := by
  refine ⟨⟨?_, fun h a ha => ?_⟩, fun a ha => ?_⟩
  · rintro hall ⟨hlong, rfl, ⟨s, hs⟩, path, hmem⟩
    obtain ⟨hp, -, -⟩ := init_opened hs
    obtain ⟨a, ha⟩ := (CosmosApp.keyCommand_ofSettings settings path).mpr hlong.2
    have hsent : a ∈ transcript .cosmos settings (Link.fresh replies fault) ops := by
      rw [transcript_opened hs]
      exact s.keyCommand_sent hp ha hmem
    exact (CosmosApp.keyCommand_short ha).mp ((a.wellFormed_iff).mp (hall a hsent)) hlong
  · rw [Apdu.wellFormed_iff]
    rcases transcript_cases ha with hshort | ⟨s, path, hs, happ, hmem, hk⟩
    · exact hshort
    · exact (CosmosApp.keyCommand_short hk).mpr fun hlong => h ⟨hlong, happ, ⟨s, hs⟩, path, hmem⟩
  · rw [Apdu.wellFormed_iff]
    by_cases hshort : a.IsShort
    · exact .inl hshort
    · rcases transcript_cases ha with h | ⟨s, path, hs, happ, hmem, hk⟩
      · exact .inl h
      · have hlong : settings.HasLongHead := by
          by_contra hlong
          exact hshort ((CosmosApp.keyCommand_short hk).mpr hlong)
        refine .inr ⟨hlong, Apdu.lc_of_long hshort, ?_⟩
        rw [Apdu.length_toBytes, CosmosApp.keyCommand_length hk]
        omega

/-- With the usual first part of addresses all three commands of a short session are well formed. -/
theorem usual_head_wellFormed :
    let version : Reply := .answer [0, 2, 34, 12, 0, 0x90, 0x00]
    let name : Reply := .answer [1, 6, 67, 111, 115, 109, 111, 115, 1, 50, 0x90, 0x00]
    let key : Operation := .getPublicKey .cosmos (.first DerivationPath.cosmosCoin)
    let sent := transcript .cosmos {} (Link.fresh [version, name] none) [key]
    sent.map (fun a => a.data.length) = [0, 0, 27] ∧ ∀ a ∈ sent, a.WellFormed := by
  intro version name key sent
  obtain ⟨hiff, -⟩ := commands_wellFormed .cosmos {} [version, name] none [key]
  refine ⟨rfl, hiff.mpr fun h => ?_⟩
  have hhead : ({} : DeviceSettings).headLength = 6 := rfl
  have hlong := h.1.1
  omega

/-- With 235 octets in front of addresses, 256 octets of data are sent and 255 of them announced. -/
theorem head_of_235_overflows :
    let settings : DeviceSettings := { addressHead := String.ofList (List.replicate 235 'a') }
    let version : Reply := .answer [0, 2, 34, 12, 0, 0x90, 0x00]
    let name : Reply := .answer [1, 6, 67, 111, 115, 109, 111, 115, 1, 50, 0x90, 0x00]
    let key : Operation := .getPublicKey .cosmos (.first DerivationPath.cosmosCoin)
    ∃ a ∈ transcript .cosmos settings (Link.fresh [version, name] none) [key],
      a.data.length = 256 ∧ a.lc = 255 ∧ a.toBytes.length = 261 ∧ ¬a.WellFormed := by
  intro settings version name key
  have hhead : settings.headLength = 235 := by
    simp only [settings, DeviceSettings.headLength, Utf8.encode, String.toList_ofList]
    rfl
  obtain ⟨s, hs⟩ : ∃ s, (init .cosmos settings (.ok (Link.fresh [version, name] none))).1 = .ok s :=
    ⟨_, rfl⟩
  obtain ⟨hp, -, -⟩ := init_opened hs
  obtain ⟨a, ha⟩ :=
    (CosmosApp.keyCommand_ofSettings settings (.first DerivationPath.cosmosCoin)).mpr (by omega)
  have hlen := CosmosApp.keyCommand_length ha
  have hlong : ¬a.IsShort := by
    unfold Apdu.IsShort Apdu.maxData
    omega
  refine ⟨a, ?_, by omega, Apdu.lc_of_long hlong, ?_, mt (a.wellFormed_iff).mp hlong⟩
  · rw [transcript_opened hs]
    exact s.keyCommand_sent hp ha List.mem_cons_self
  · rw [Apdu.length_toBytes, hlen, hhead]

end Session

end Countersign
