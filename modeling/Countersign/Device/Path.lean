import Countersign.Bytes
import Countersign.Error
import Countersign.Json.Quantity

/-!
# Derivation paths

A key on a device is named by five numbers: the purpose 44, the coin, the account, the change and
the index. The first three are hardened, which text shows with an apostrophe and octets with the
highest bit of the number.
-/
namespace Countersign

open Json

structure PathFields where
  account : Word 32
  change : Word 32
  addressIndex : Word 32
  deriving DecidableEq, Repr

structure DerivationPath where
  coinType : Word 32
  fields : PathFields
  deriving DecidableEq, Repr

namespace DerivationPath

def purpose : Nat := 44

/-- The path of the first key of an account of the given coin. -/
def first (coinType : Word 32) : DerivationPath :=
  ⟨coinType, ⟨⟨0, by decide⟩, ⟨0, by decide⟩, ⟨0, by decide⟩⟩⟩

def cosmosCoin : Word 32 := ⟨118, by decide⟩

def ethereumCoin : Word 32 := ⟨60, by decide⟩

def segments (p : DerivationPath) : List Nat :=
  [purpose, p.coinType, p.fields.account, p.fields.change, p.fields.addressIndex]

/-- The first three places are hardened. -/
def isHardened (place : Nat) : Bool :=
  place ≤ 2

/-! ### Octets -/

/-- The numbers as a device reads them, with the mark of the hardened ones. -/
def marked (p : DerivationPath) : List Nat :=
  p.segments.zipIdx.map fun (n, place) => if isHardened place then n ||| 0x80000000 else n

/-- The form of the Cosmos app: least significant octet first. -/
def cosmosBytes (p : DerivationPath) : Bytes :=
  p.marked.flatMap (Bytes.ofNatLE 4)

/-- The form of the Ethereum app: the count of numbers, then most significant octet first. -/
def ethereumBytes (p : DerivationPath) : Bytes :=
  0x05 :: p.marked.flatMap (Bytes.ofNat 4)

/-! ### Text -/

/-- The text of numbers from a place on, each behind a slash. -/
def segmentsText (place : Nat) : List Nat → List Char
  | [] => []
  | n :: rest =>
    '/' :: Nat.toDigits 10 n ++ (if isHardened place then ['\''] else [])
      ++ segmentsText (place + 1) rest

def textOf (segments : List Nat) : Except Error String :=
  if segments.length = 5 then .ok (String.ofList ('m' :: segmentsText 0 segments))
  else .error (.invalidPathLength segments.length)

def text (p : DerivationPath) : String :=
  String.ofList ('m' :: segmentsText 0 p.segments)

/-- The parts of a text between slashes; there is one at least. -/
def parts : List Char → List (List Char)
  | [] => [[]]
  | '/' :: rest => [] :: parts rest
  | c :: rest =>
    match parts rest with
    | [] => [[c]]
    | p :: more => (c :: p) :: more

/-- A part without its apostrophe, and whether it had one. -/
def unmarkedPart (part : List Char) : List Char × Bool :=
  match part.reverse with
  | '\'' :: digits => (digits.reverse, true)
  | _ => (part, false)

def segmentOf (whole : String) (place : Nat) (part : List Char) : Except Error Nat :=
  let (digits, hardened) := unmarkedPart part
  if hardened ≠ isHardened place then
    .error (.malformedResponse
      ("segment " ++ Digits.decimal place ++ " of " ++ whole ++ " has the wrong hardening"))
  else
    match Digits.read 10 (2 ^ (32 : Nat)) digits with
    | .ok n => .ok n
    | .error e =>
      .error (.malformedResponse
        ("invalid segment " ++ String.ofList part ++ ": " ++ e.message))

def segmentsOf (whole : String) (place : Nat) : List (List Char) → Except Error (List Nat)
  | [] => .ok []
  | part :: rest => do
    let n ← segmentOf whole place part
    let more ← segmentsOf whole (place + 1) rest
    return n :: more

def ofSegments : List Nat → Except Error DerivationPath
  | [p, coin, account, change, index] =>
    if p ≠ purpose then
      .error (.malformedResponse ("unsupported purpose " ++ Digits.decimal p))
    else
      match Word.ofNat? 32 coin, Word.ofNat? 32 account, Word.ofNat? 32 change,
        Word.ofNat? 32 index with
      | some coin, some account, some change, some index =>
        .ok ⟨coin, ⟨account, change, index⟩⟩
      | _, _, _, _ => .error (.invalidPathLength 5)
  | segments => .error (.invalidPathLength segments.length)

def parse (whole : String) : Except Error DerivationPath :=
  match whole.toList with
  | 'm' :: '/' :: rest => do
    let segments ← segmentsOf whole 0 (parts rest)
    ofSegments segments
  | _ => .error (.malformedResponse ("path must start with m/: " ++ whole))

/-! ### JSON -/

def decodeFields : Record PathFields :=
  Record.of PathFields.mk
    |>.and (.required "account" (Decoder.word 32))
    |>.and (.required "change" (Decoder.word 32))
    |>.and (.required "addressIndex" (Decoder.word 32))

def fieldMembers (f : PathFields) : List (String × Json) :=
  [("account", Json.nat f.account), ("change", Json.nat f.change),
    ("addressIndex", Json.nat f.addressIndex)]

def toJson (p : DerivationPath) : Json :=
  .object (("coinType", Json.nat p.coinType) :: fieldMembers p.fields)

/-- Finds the coin among the members of an object and keeps the others. -/
def coinAmong (found : Option (Word 32)) (kept : List (Option String × Tree)) :
    List (Option String × Tree) → Except DecodeError (Option (Word 32) × Tree)
  | [] => .ok (found, .object kept.reverse)
  | (none, _) :: _ => .error .invalid
  | (some name, t) :: rest =>
    if name = "coinType" then
      if found.isSome then .error (.duplicateField name)
      else do
        let coin ← Decoder.word 32 t
        coinAmong (some coin) kept rest
    else if t.sound then coinAmong found ((some name, t) :: kept) rest
    else .error .invalid

/-- Reads the JSON form. The coin and the rest share one object, and the rest is judged behind the
coin. -/
def decode : Decoder DerivationPath
  | .object members => do
    match ← coinAmong none [] members with
    | (none, _) => .error (.missingField "coinType")
    | (some coin, rest) => do
      let fields ← decodeFields.decode rest
      return ⟨coin, fields⟩
  | _ => .error .invalid

end DerivationPath

end Countersign
