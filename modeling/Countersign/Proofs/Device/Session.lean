import Countersign.Device.Session
import Countersign.Proofs.Bytes
import Countersign.Proofs.Device.Exchange
import Countersign.Proofs.Ethereum.Words

/-!
# Operations of a session

Everything that can be asked of a session, one operation at a time and in any order. An operation
that does not close the session only goes on with it: the app stays, and the link has more commands
sent. Which commands these can be is said once, for all operations.
-/
namespace Countersign

namespace DerivationPath

@[simp] theorem length_cosmosBytes (p : DerivationPath) : p.cosmosBytes.length = 20 :=
  Bytes.length_flatMap (Bytes.length_ofNatLE 4) p.marked

@[simp] theorem length_ethereumBytes (p : DerivationPath) : p.ethereumBytes.length = 21 :=
  congrArg (· + 1) (Bytes.length_flatMap (Bytes.length_ofNat 4) p.marked)

end DerivationPath

/-! ### Commands of the apps -/

/-- A command whose data fits the octet for its length. -/
def Apdu.IsShort (a : Apdu) : Prop := a.data.length ≤ maxData

/-- A short command of the given class. -/
def Apdu.IsShortOf (cla : UInt8) (a : Apdu) : Prop := a.cla = cla ∧ a.IsShort

namespace CosmosApp

open Exchange

theorem sends_getVersion : Sends (Apdu.IsShortOf cla) getVersion :=
  (sends_data ⟨rfl, Nat.zero_le _⟩).bind fun _ => sends_lift _

theorem sends_appInfo : Sends (Apdu.IsShortOf claAppInfo) appInfo :=
  (sends_data ⟨rfl, Nat.zero_le _⟩).bind fun _ => sends_lift _

theorem sends_getPublicKey (app : CosmosApp) (path : DerivationPath) :
    Sends (fun a => app.keyCommand path = .ok a) (app.getPublicKey path) :=
  sends_lift_bind fun _ ha => (sends_data ha).bind fun _ => sends_lift _

theorem keyCommand_cla {app : CosmosApp} {path : DerivationPath} {a : Apdu}
    (h : app.keyCommand path = .ok a) : a.cla = cla := by
  simp only [keyCommand] at h
  split at h
  · cases h
  · rw [← Except.ok.inj h]

theorem pieceCommands_short {pieces : List Bytes} (h : ∀ piece ∈ pieces, piece.length ≤ pieceSize) :
    ∀ a ∈ pieceCommands pieces, a.IsShortOf cla := by
  have hshort (p1 : UInt8) {piece : Bytes} (hp : piece.length ≤ pieceSize) :
      (⟨cla, 0x02, p1, 0, piece⟩ : Apdu).IsShortOf cla :=
    ⟨rfl, Nat.le_trans hp (by decide)⟩
  fun_induction pieceCommands pieces with
  | case1 => simp
  | case2 piece => simpa using hshort 0x02 (h piece List.mem_cons_self)
  | case3 piece rest _ ih =>
    obtain ⟨hp, hrest⟩ := List.forall_mem_cons.mp h
    exact List.forall_mem_cons.mpr ⟨hshort 0x01 hp, ih hrest⟩

theorem sends_sign (path : DerivationPath) (text : Bytes) :
    Sends (Apdu.IsShortOf cla) (sign path text) := by
  unfold sign
  split
  · exact sends_lift _
  · refine sends_dataOfLast [] (List.forall_mem_cons.mpr ⟨⟨rfl, ?_⟩, ?_⟩)
    · simp [Apdu.IsShort, Apdu.maxData]
    · exact pieceCommands_short (Bytes.length_chunks_le pieceSize text)

end CosmosApp

namespace EthereumApp

open Exchange

theorem sends_getAddress (path : DerivationPath) : Sends (Apdu.IsShortOf cla) (getAddress path) :=
  (sends_data ⟨rfl, by simp [Apdu.IsShort, Apdu.maxData]⟩).bind fun _ => sends_lift _

theorem pieceCommands_short (ins : UInt8) (payload : Bytes) :
    ∀ a ∈ pieceCommands ins payload, a.IsShortOf cla := by
  have h := Bytes.length_chunks_le Apdu.maxData payload
  unfold pieceCommands
  cases hc : Bytes.chunks Apdu.maxData payload with
  | nil => simp
  | cons piece rest =>
    rw [hc] at h
    obtain ⟨hp, hrest⟩ := List.forall_mem_cons.mp h
    refine List.forall_mem_cons.mpr ⟨⟨rfl, hp⟩, fun a ha => ?_⟩
    obtain ⟨piece, hmem, rfl⟩ := List.mem_map.mp ha
    exact ⟨rfl, hrest piece hmem⟩

theorem sends_signPieces (ins : UInt8) (payload : Bytes) :
    Sends (Apdu.IsShortOf cla) (signPieces ins payload) :=
  (sends_dataOfLast [] (pieceCommands_short ins payload)).bind fun _ => sends_lift _

theorem sends_signTypedData (path : DerivationPath) {domain message : Bytes}
    (hd : domain.length = 32) (hm : message.length = 32) :
    Sends (Apdu.IsShortOf cla) (signTypedData path domain message) :=
  (sends_data ⟨rfl, by simp [Apdu.IsShort, Apdu.maxData, hd, hm]⟩).bind fun _ => sends_lift _

end EthereumApp

namespace Persona

open Exchange

/-- The class of the commands by which an app is used. -/
def cla : Persona → UInt8
  | .cosmos _ => CosmosApp.cla
  | .ethereum => EthereumApp.cla

theorem sends_probe_ethereum : Sends (Apdu.IsShortOf EthereumApp.cla) (probe .ethereum) :=
  (EthereumApp.sends_getAddress _).bind fun _ => sends_pure _

/-- The probe of an app sends short commands only. -/
theorem sends_probe (p : Persona) : Sends Apdu.IsShort p.probe := by
  cases p with
  | cosmos app =>
    refine (CosmosApp.sends_getVersion.mono fun _ => And.right).bind fun version => ?_
    split
    · exact sends_lift _
    · refine (CosmosApp.sends_appInfo.mono fun _ => And.right).bind fun info => ?_
      split
      · exact sends_pure _
      · exact sends_lift _
  | ethereum => exact sends_probe_ethereum.mono fun _ => And.right

end Persona

namespace Session

open Exchange

/-- What can be asked of a session. -/
inductive Operation where
  | getVersion
  | getPublicKey (app : DeviceApp) (path : DerivationPath)
  | sign (path : DerivationPath) (text : Bytes)
  | signEthereum (kind : SignKind) (path : DerivationPath) (text : Bytes)
  | close
  deriving DecidableEq

/-- What comes out of an operation. -/
inductive Outcome where
  | version (v : CosmosApp.Version)
  | octets (b : Bytes)
  | closed
  | failed (fault : TypedData.Fault)
  deriving DecidableEq

/-- The outcome of a result. -/
def Outcome.of {α : Type} (f : α → Outcome) : Except Error α → Outcome
  | .ok a => f a
  | .error e => .failed (.refused e)

/-- The outcome of a result that may also stop the program. -/
def Outcome.ofSigned : Except TypedData.Fault Bytes → Outcome
  | .ok b => .octets b
  | .error fault => .failed fault

/-- One operation: its outcome, and the session after it. -/
def act (s : Session) : Operation → Outcome × Session
  | .getVersion => (.of .version s.getVersion.1, s.getVersion.2)
  | .getPublicKey app path => (.of .octets (s.getPublicKey app path).1, (s.getPublicKey app path).2)
  | .sign path text => (.of .octets (s.sign path text).1, (s.sign path text).2)
  | .signEthereum kind path text =>
    (.ofSigned (s.signEthereum kind path text).1, (s.signEthereum kind path text).2)
  | .close => (.of (fun _ => .closed) s.close.1, s.close.2)

/-- The session after operations. -/
def after (s : Session) (ops : List Operation) : Session := ops.foldl (fun s op => (s.act op).2) s

/-- The outcomes of operations, in their order. -/
def outcomes : Session → List Operation → List Outcome
  | _, [] => []
  | s, op :: ops => (s.act op).1 :: outcomes (s.act op).2 ops

@[simp] theorem after_nil (s : Session) : s.after [] = s := rfl
@[simp] theorem after_cons (s : Session) (op : Operation) (ops : List Operation) :
    s.after (op :: ops) = (s.act op).2.after ops := rfl

theorem after_append (s : Session) (before more : List Operation) :
    s.after (before ++ more) = (s.after before).after more := by
  simp [after]

/-! ### Going on with a session -/

/-- The session goes on: its app stays, and nothing is done with its link but that commands with the
property are sent. -/
structure GoesOn (P : Apdu → Prop) (s s' : Session) : Prop where
  persona : s'.persona = s.persona
  closeFault : s'.link.closeFault = s.link.closeFault
  log : ∃ as : List Apdu, (∀ a ∈ as, P a) ∧ s'.link.log = s.link.log ++ as.map .send

variable {α : Type} {P : Apdu → Prop}

theorem GoesOn.refl (s : Session) : GoesOn P s s := ⟨rfl, rfl, [], by simp, by simp⟩

theorem GoesOn.trans {s₁ s₂ s₃ : Session} (h : GoesOn P s₁ s₂) (h' : GoesOn P s₂ s₃) :
    GoesOn P s₁ s₃ := by
  obtain ⟨as, has, hs⟩ := h.log
  obtain ⟨bs, hbs, hs'⟩ := h'.log
  refine ⟨h'.persona.trans h.persona, h'.closeFault.trans h.closeFault, as ++ bs, ?_,
    by rw [hs', hs, List.map_append, List.append_assoc]⟩
  intro a ha
  rcases List.mem_append.mp ha with ha | ha
  · exact has a ha
  · exact hbs a ha

theorem GoesOn.mono {Q : Apdu → Prop} {s s' : Session} (h : GoesOn P s s')
    (hPQ : ∀ a, P a → Q a) : GoesOn Q s s' := by
  obtain ⟨as, has, hs⟩ := h.log
  exact ⟨h.persona, h.closeFault, as, fun a ha => hPQ a (has a ha), hs⟩

theorem GoesOn.sent {s s' : Session} (h : GoesOn P s s') :
    ∃ as, (∀ a ∈ as, P a) ∧ s'.link.sent = s.link.sent ++ as := by
  obtain ⟨as, has, hs⟩ := h.log
  exact ⟨as, has, Link.sent_of_log hs⟩

theorem GoesOn.isOpen {s s' : Session} (h : GoesOn P s s') (hopen : s.link.IsOpen) :
    s'.link.IsOpen := by
  obtain ⟨as, -, hs⟩ := h.log
  exact hopen.of_log hs

/-- What an exchange sends is all that it does to a session. -/
theorem goesOn_run (s : Session) {x : Exchange α} (hx : Sends P x) : GoesOn P s (s.run x).2 := by
  obtain ⟨as, has, hlog, hfault⟩ := hx.link s.link
  exact ⟨rfl, hfault, as, has, hlog⟩

theorem goesOn_onCosmos (s : Session) {x : CosmosApp → Exchange α}
    (hx : ∀ app, s.persona = some (.cosmos app) → Sends P (x app)) :
    GoesOn P s (s.onCosmos x).2 := by
  unfold onCosmos
  split
  next app h => exact s.goesOn_run (hx app h)
  next => exact .refl s
  next => exact .refl s

theorem goesOn_onEthereum (s : Session) {x : Exchange α}
    (hx : s.persona = some .ethereum → Sends P x) : GoesOn P s (s.onEthereum x).2 := by
  unfold onEthereum
  split
  next h => exact s.goesOn_run (hx h)
  next => exact .refl s
  next => exact .refl s

theorem sends_wrapped {wrap : String → Error} {x : Exchange α} (hx : Sends P x) :
    Sends P (wrapped wrap x) := by
  intro replies
  obtain ⟨r, as, has, hx⟩ := hx replies
  refine ⟨r.mapError (operationError wrap), as, has, fun fault log => ?_⟩
  simp only [wrapped, on] at hx ⊢
  rw [hx]
  cases r <;> rfl

/-- Wrapping leaves a success as it is. -/
theorem wrapped_ok {wrap : String → Error} {x : Exchange α} {link link' : Link} {a : α}
    (h : x.on link = (.ok a, link')) : (wrapped wrap x).on link = (.ok a, link') := by
  simp only [wrapped, on] at h ⊢
  rw [h]

/-- Both hashes of a typed message fill a word. -/
theorem length_typedHashes {text domain message : Bytes}
    (h : typedHashes text = .ok (domain, message)) : domain.length = 32 ∧ message.length = 32 := by
  obtain ⟨d, -, h⟩ := exists_of_bind_ok h
  obtain ⟨-, -, h⟩ := exists_of_bind_ok h
  obtain ⟨separator, hseparator, h⟩ := exists_of_bind_ok h
  obtain ⟨hash, hhash, h⟩ := exists_of_bind_ok h
  obtain ⟨rfl, rfl⟩ := Prod.mk.inj (Except.ok.inj h)
  exact ⟨TypedData.Domain.length_separator hseparator, TypedData.length_messageHash hhash⟩

/-- Whatever is signed, the commands are short ones of the Ethereum app. -/
theorem sends_signing {kind : SignKind} {path : DerivationPath} {text : Bytes} {x : Exchange Bytes}
    (h : signing kind path text = .ok x) : Sends (Apdu.IsShortOf EthereumApp.cla) x := by
  unfold signing at h
  cases kind with
  | message =>
    obtain rfl := Except.ok.inj h
    exact (sends_wrapped (EthereumApp.sends_signPieces _ _)).bind fun _ => sends_pure _
  | transaction =>
    obtain rfl := Except.ok.inj h
    exact (sends_lift _).bind fun tx =>
      (sends_wrapped (EthereumApp.sends_signPieces _ _)).bind fun _ => sends_pure _
  | typedData =>
    cases ht : typedHashes text with
    | error fault =>
      cases fault with
      | refused e =>
        simp only [ht, Except.ok.injEq] at h
        exact h ▸ sends_lift _
      | overrun length => simp [ht] at h
    | ok hashes =>
      obtain ⟨hd, hm⟩ := length_typedHashes ht
      simp only [ht, Except.ok.injEq] at h
      subst h
      exact (sends_wrapped (EthereumApp.sends_signTypedData path hd hm)).bind fun _ => sends_pure _

theorem goesOn_signEthereum (s : Session) {kind : SignKind} {path : DerivationPath} {text : Bytes}
    (hx : s.persona = some .ethereum → ∀ x, signing kind path text = .ok x → Sends P x) :
    GoesOn P s (s.signEthereum kind path text).2 := by
  unfold signEthereum
  split
  next h =>
    split
    next x hsigning => exact s.goesOn_run (hx h x hsigning)
    next => exact .refl s
  next => exact .refl s
  next => exact .refl s

/-- The command by which a session asks the Cosmos app for a key. -/
def IsKeyCommand (s : Session) (op : Operation) (a : Apdu) : Prop :=
  ∃ app path, s.persona = some (.cosmos app) ∧ op = .getPublicKey .cosmos path ∧
    app.keyCommand path = .ok a

/-- A command of the app that the session drives; it is short, or asks the Cosmos app for a key. -/
structure IsCommand (s : Session) (op : Operation) (a : Apdu) : Prop where
  cla_eq : s.persona.map Persona.cla = some a.cla
  short_or_key : a.IsShort ∨ s.IsKeyCommand op a

theorem IsCommand.of_short {s : Session} {p : Persona} {op : Operation} {a : Apdu}
    (hs : s.persona = some p) (h : a.IsShortOf p.cla) : s.IsCommand op a :=
  ⟨by rw [hs, Option.map_some, h.1], .inl h.2⟩

theorem IsCommand.of_key {s : Session} {app : CosmosApp} {path : DerivationPath} {a : Apdu}
    (hs : s.persona = some (.cosmos app)) (h : app.keyCommand path = .ok a) :
    s.IsCommand (.getPublicKey .cosmos path) a :=
  ⟨by rw [hs, Option.map_some, CosmosApp.keyCommand_cla h]; rfl, .inr ⟨app, path, hs, rfl, h⟩⟩

/-- Whether a command belongs to a session depends on its app only. -/
theorem IsCommand.congr {s s' : Session} {op : Operation} {a : Apdu}
    (h : s'.persona = s.persona) (ha : s'.IsCommand op a) : s.IsCommand op a := by
  obtain ⟨hcla, hkey⟩ := ha
  rw [h] at hcla
  exact ⟨hcla, hkey.imp_right fun hk => by simpa only [IsKeyCommand, h] using hk⟩

/-- Every operation but closing goes on with the session, and sends nothing but commands of its app.
-/
theorem act_goesOn (s : Session) {op : Operation} (hop : op ≠ .close) :
    GoesOn (s.IsCommand op) s (s.act op).2 := by
  cases op with
  | getVersion =>
    exact s.goesOn_onCosmos fun _ hs =>
      sends_wrapped (CosmosApp.sends_getVersion.mono fun _ => .of_short hs)
  | getPublicKey app path =>
    cases app with
    | cosmos =>
      exact s.goesOn_onCosmos fun app hs =>
        (sends_wrapped ((app.sends_getPublicKey path).mono fun _ => .of_key hs)).bind fun _ =>
          sends_pure _
    | ethereum =>
      exact s.goesOn_onEthereum fun hs =>
        (sends_wrapped ((EthereumApp.sends_getAddress path).mono fun _ => .of_short hs)).bind
          fun _ => sends_lift _
  | sign path text =>
    exact s.goesOn_onCosmos fun _ hs =>
      (sends_wrapped ((CosmosApp.sends_sign path text).mono fun _ => .of_short hs)).bind fun _ =>
        sends_lift _
  | signEthereum kind path text =>
    exact s.goesOn_signEthereum fun hs _ hx => (sends_signing hx).mono fun _ => .of_short hs
  | close => exact absurd rfl hop

/-- Operations that do not close a session go on with it. -/
theorem after_goesOn (s : Session) {ops : List Operation} (hops : .close ∉ ops) :
    GoesOn (fun a => ∃ op ∈ ops, s.IsCommand op a) s (s.after ops) := by
  induction ops generalizing s with
  | nil => exact .refl s
  | cons op ops ih =>
    have hop : op ≠ .close := fun h => hops (h ▸ List.mem_cons_self)
    have hact := s.act_goesOn hop
    have hrest := ih (s.act op).2 fun h => hops (List.mem_cons_of_mem _ h)
    refine (hact.mono fun a ha => ?_).trans (hrest.mono fun a ha => ?_)
    · exact ⟨op, List.mem_cons_self, ha⟩
    · obtain ⟨op', hmem, ha⟩ := ha
      exact ⟨op', List.mem_cons_of_mem _ hmem, ha.congr hact.persona⟩

end Session

end Countersign
