import Countersign.Device.CosmosApp
import Countersign.Device.DerSignature
import Countersign.Device.EthereumApp
import Countersign.Ethereum.Transaction
import Countersign.Ethereum.TypedHash
import Countersign.Settings

/-!
# Sessions with a device

A session owns one link and drives one app. It is opened by asking the app something that only the
right app on an unlocked device answers; when that fails the link is closed before the failure is
reported. A session that was closed stays closed.
-/
namespace Countersign

inductive DeviceApp where
  | cosmos
  | ethereum
  deriving DecidableEq, Repr

namespace DeviceApp

/-- The name of an app as it is shown. -/
def title : DeviceApp → String
  | .cosmos => "Cosmos"
  | .ethereum => "Ethereum"

def name : DeviceApp → String
  | .cosmos => "cosmos"
  | .ethereum => "ethereum"

def names : List (String × DeviceApp) :=
  [("cosmos", .cosmos), ("ethereum", .ethereum)]

end DeviceApp

inductive SignKind where
  | message
  | transaction
  | typedData
  deriving DecidableEq, Repr

namespace SignKind

def name : SignKind → String
  | .message => "message"
  | .transaction => "transaction"
  | .typedData => "eip712"

def names : List (String × SignKind) :=
  [("message", .message), ("transaction", .transaction), ("eip712", .typedData)]

def parse (text : String) : Except Error SignKind :=
  match names.lookup text with
  | some kind => .ok kind
  | none => .error (.unknownSignType text)

end SignKind

inductive Persona where
  | cosmos (app : CosmosApp)
  | ethereum
  deriving DecidableEq, Repr

/-- A session; one that is closed has no app any more. -/
structure Session where
  persona : Option Persona
  link : Link
  deriving DecidableEq, Repr

inductive SessionState where
  | ready (app : DeviceApp)
  | closed
  deriving DecidableEq, Repr

namespace Persona

def app : Persona → DeviceApp
  | .cosmos _ => .cosmos
  | .ethereum => .ethereum

/-- The name under which the app is reported as missing. -/
def title : Persona → String
  | .cosmos app => app.name
  | .ethereum => DeviceApp.ethereum.title

def ofApp (app : DeviceApp) (settings : DeviceSettings) : Persona :=
  match app with
  | .cosmos => .cosmos ⟨settings.cosmosAppName, settings.addressHead⟩
  | .ethereum => .ethereum

/-- Asks what only the right app on an unlocked device answers. -/
def probe : Persona → Exchange Unit
  | .cosmos app => do
    let version ← CosmosApp.getVersion
    if version.deviceLocked then Exchange.lift (.error .deviceLocked)
    else
      let info ← CosmosApp.appInfo
      if info.name = app.name then return ()
      else Exchange.lift (.error (.unsupportedApp app.name info.name))
  | .ethereum => do
    let _ ← EthereumApp.getAddress (DerivationPath.first DerivationPath.ethereumCoin)
    return ()

end Persona

/-- The error of a probe that failed: the device is locked, another app is open, or the app is not
there. -/
def probeError (title : String) (e : Error) : Error :=
  match e with
  | .deviceLocked => e
  | .unsupportedApp _ _ => e
  | .link fault =>
    if fault.isScreenSaver then .deviceLocked
    else if namesScreenSaver e.message then .deviceLocked
    else .appNotInitialised title
  | e => if namesScreenSaver e.message then .deviceLocked else .appNotInitialised title

/-- The error of an operation that failed: outcomes that callers act on stay as they are, and all
others are wrapped with their text. -/
def operationError (wrap : String → Error) (e : Error) : Error :=
  match e with
  | .deviceLocked => e
  | .signRejected => e
  | .invalidSignature _ => e
  | .sessionClosed => e
  | .appNotInitialised _ => e
  | .device _ text => wrap text
  | e => wrap e.message

namespace SessionState

def text : SessionState → String
  | .ready app => "Ready(" ++ app.title ++ ")"
  | .closed => "Closed"

end SessionState

namespace Session

/-- Opens a session over a link, or says why the link could not be opened. A session that fails to
open leaves its link closed. -/
def init (app : DeviceApp) (settings : DeviceSettings) (opened : Except LinkFault Link) :
    Except Error Session × Option Link :=
  match opened with
  | .error fault => (.error (.failedInit fault.message), none)
  | .ok link =>
    let persona := Persona.ofApp app settings
    match persona.probe.on link with
    | (.ok (), link) => (.ok ⟨some persona, link⟩, some link)
    | (.error e, link) =>
      (.error (probeError persona.title e), some (Exchange.close.on link).2)

def state (s : Session) : SessionState :=
  match s.persona with
  | some p => .ready p.app
  | none => .closed

def run {α : Type} (s : Session) (x : Exchange α) : Except Error α × Session :=
  let (r, link) := x.on s.link
  (r, { s with link := link })

def onCosmos {α : Type} (s : Session) (x : CosmosApp → Exchange α) : Except Error α × Session :=
  match s.persona with
  | some (.cosmos app) => s.run (x app)
  | some .ethereum => (.error (.appNotInitialised DeviceApp.cosmos.title), s)
  | none => (.error .sessionClosed, s)

def onEthereum {α : Type} (s : Session) (x : Exchange α) : Except Error α × Session :=
  match s.persona with
  | some .ethereum => s.run x
  | some (.cosmos _) => (.error (.appNotInitialised DeviceApp.ethereum.title), s)
  | none => (.error .sessionClosed, s)

def wrapped {α : Type} (wrap : String → Error) (x : Exchange α) : Exchange α :=
  fun link =>
    match x.on link with
    | (.error e, link) => (.error (operationError wrap e), link)
    | r => r

def getVersion (s : Session) : Except Error CosmosApp.Version × Session :=
  s.onCosmos fun _ => wrapped .failedGetVersion CosmosApp.getVersion

def getPublicKey (s : Session) (app : DeviceApp) (path : DerivationPath) :
    Except Error Bytes × Session :=
  match app with
  | .cosmos =>
    s.onCosmos fun app => do
      let key ← wrapped .failedGetPublicKey (app.getPublicKey path)
      return key.compressed
  | .ethereum =>
    s.onEthereum do
      let key ← wrapped .failedGetPublicKey (EthereumApp.getAddress path)
      Exchange.lift (compressPublicKey key.uncompressed)

/-- Signs a document with the Cosmos app; the signature is compact. -/
def sign (s : Session) (path : DerivationPath) (text : Bytes) : Except Error Bytes × Session :=
  s.onCosmos fun _ => do
    let der ← wrapped .failedSign (CosmosApp.sign path text)
    Exchange.lift (DerSignature.toCompact der)

def typedHashes (text : Bytes) : Except TypedData.Fault (Bytes × Bytes) := do
  let refuse {α : Type} (r : Except Error α) : Except TypedData.Fault α :=
    match r with
    | .ok a => .ok a
    | .error e => .error (.refused e)
  let d ← refuse (TypedData.ofJson text)
  refuse d.validate
  let domain ← d.domain.separator
  let message ← d.messageHash
  return (domain, message)

/-- The operation that signs with the Ethereum app. Transactions and typed data are read before
anything is sent. -/
def signing (kind : SignKind) (path : DerivationPath) (text : Bytes) :
    Except TypedData.Fault (Exchange Bytes) :=
  match kind with
  | .message =>
    .ok do
      let g ← wrapped .failedSign (EthereumApp.signPersonalMessage path text)
      return g.toBytes
  | .transaction =>
    .ok do
      let tx ← Exchange.lift (Transaction.ofJson text)
      let g ← wrapped .failedSign (EthereumApp.signTransaction path tx.unsigned)
      return tx.signed g
  | .typedData =>
    match typedHashes text with
    | .ok (domain, message) =>
      .ok do
        let g ← wrapped .failedSign (EthereumApp.signTypedData path domain message)
        return g.toBytes
    | .error (.refused e) => .ok (Exchange.lift (.error e))
    | .error (.overrun length) => .error (.overrun length)

/-- Signs with the Ethereum app: messages and typed data give a signature, transactions their
encoding with the signature in it. -/
def signEthereum (s : Session) (kind : SignKind) (path : DerivationPath) (text : Bytes) :
    Except TypedData.Fault Bytes × Session :=
  match s.persona with
  | some .ethereum =>
    match signing kind path text with
    | .ok x =>
      let (r, s) := s.run x
      (r.mapError .refused, s)
    | .error fault => (.error fault, s)
  | some (.cosmos _) => (.error (.refused (.appNotInitialised DeviceApp.ethereum.title)), s)
  | none => (.error (.refused .sessionClosed), s)

/-- Closes a session; closing it again does nothing. It counts as closed even if the link reports a
failure. -/
def close (s : Session) : Except Error Unit × Session :=
  match s.persona with
  | none => (.ok (), s)
  | some _ =>
    let (r, link) := Exchange.close.on s.link
    (r, ⟨none, link⟩)

def describe (s : Session) : String :=
  "Ledger \x7b state: " ++ s.state.text ++ " \x7d"

end Session

end Countersign
