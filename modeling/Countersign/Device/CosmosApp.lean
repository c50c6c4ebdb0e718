import Countersign.Device.Link
import Countersign.Device.Path
import Countersign.Text.Utf8

/-!
# The Cosmos app

Version, name, keys and signatures. A document is signed in pieces: the path first, then the text,
and the last piece asks for the signature.
-/
namespace Countersign

/-- A session with the app, which must have the given name. -/
structure CosmosApp where
  name : String
  addressHead : String
  deriving DecidableEq, Repr

namespace CosmosApp

def cla : UInt8 := 0x55

def claAppInfo : UInt8 := 0xB0

def pieceSize : Nat := 250

structure Version where
  testMode : Bool
  major : Nat
  minor : Nat
  patch : Nat
  deviceLocked : Bool
  /-- The kind of device; older ones do not tell. -/
  targetId : Option Nat
  deriving DecidableEq, Repr

def Version.parse : Bytes → Except Error Version
  | test :: major :: minor :: patch :: locked :: rest =>
    .ok {
      testMode := test != 0
      major := major.toNat
      minor := minor.toNat
      patch := patch.toNat
      deviceLocked := locked == 1
      targetId := if 4 ≤ rest.length then some (Bytes.toNat (rest.take 4)) else none }
  | b =>
    .error (.malformedResponse ("version response has " ++ Digits.decimal b.length ++ " bytes"))

def Version.text (v : Version) : String :=
  Digits.decimal v.major ++ "." ++ Digits.decimal v.minor ++ "." ++ Digits.decimal v.patch

structure Info where
  name : String
  version : String
  deriving DecidableEq, Repr

/-- Reads two fields behind an octet that gives the format. -/
def Info.parse (b : Bytes) : Except Error Info :=
  let fields := do
    let (name, rest) ← Bytes.field? (b.drop 1)
    let (version, _) ← Bytes.field? rest
    return (name, version)
  match fields with
  | some (name, version) => .ok ⟨Utf8.decodeLossy name, Utf8.decodeLossy version⟩
  | none => .error (.malformedResponse "truncated app info response")

structure Key where
  compressed : Bytes
  address : String
  deriving DecidableEq, Repr

/-- Reads a key of thirty-three octets and the address behind it. -/
def Key.parse (b : Bytes) : Except Error Key :=
  if b.length < 33 then .error (.malformedResponse "public key shorter than 33 bytes")
  else .ok ⟨b.take 33, Utf8.decodeLossy (b.drop 33)⟩

def getVersion : Exchange Version := do
  let b ← Exchange.data ⟨cla, 0x00, 0, 0, []⟩
  Exchange.lift (Version.parse b)

def appInfo : Exchange Info := do
  let b ← Exchange.data ⟨claAppInfo, 0x01, 0, 0, []⟩
  Exchange.lift (Info.parse b)

/-- The command that asks for a key; the head of the address must fit its length octet. -/
def keyCommand (app : CosmosApp) (path : DerivationPath) : Except Error Apdu :=
  let head := Utf8.encode app.addressHead
  if 255 < head.length then
    .error (.config
      ("bech32 prefix is " ++ Digits.decimal head.length ++ " bytes, limit is 255"))
  else .ok ⟨cla, 0x04, 0, 0, UInt8.ofNat head.length :: head ++ path.cosmosBytes⟩

def getPublicKey (app : CosmosApp) (path : DerivationPath) : Exchange Key := do
  let command ← Exchange.lift (app.keyCommand path)
  let b ← Exchange.data command
  Exchange.lift (Key.parse b)

/-- The commands that follow the first one when a text is signed; the last one is marked. -/
def pieceCommands : List Bytes → List Apdu
  | [] => []
  | [piece] => [⟨cla, 0x02, 0x02, 0, piece⟩]
  | piece :: rest => ⟨cla, 0x02, 0x01, 0, piece⟩ :: pieceCommands rest

def signCommands (path : DerivationPath) (text : Bytes) : List Apdu :=
  ⟨cla, 0x02, 0x00, 0, path.cosmosBytes⟩ :: pieceCommands (Bytes.chunks pieceSize text)

/-- Signs a text; the answer is a signature in DER. An empty text is refused without asking. -/
def sign (path : DerivationPath) (text : Bytes) : Exchange Bytes :=
  if text.isEmpty then Exchange.lift (.error (.failedSign "empty sign doc"))
  else Exchange.dataOfLast [] (signCommands path text)

def describe (app : CosmosApp) : String :=
  "CosmosApp \x7b app_name: " ++ Text.quoted app.name ++ ", bech32_prefix: "
    ++ Text.quoted app.addressHead ++ ", .. \x7d"

end CosmosApp

end Countersign
