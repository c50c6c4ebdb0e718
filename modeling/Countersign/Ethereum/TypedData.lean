import Countersign.Error
import Countersign.Json.Quantity

/-!
# Typed data

Structured messages as EIP-712 describes them: the types a message is made of, the domain it is
meant for, and the message itself. `validate` checks that the types a message refers to are there.
-/
namespace Countersign

open Json

/-- Whom a message is meant for. Absent members take no part in its hash. -/
structure TypedData.Domain where
  name : Option String
  version : Option String
  chainId : Option (Word 64)
  verifyingContract : Option String
  salt : Option String
  deriving DecidableEq, Repr

structure TypedData.Field where
  name : String
  type : String
  deriving DecidableEq, Repr

abbrev TypedData.Types := List (String × List TypedData.Field)

structure TypedData where
  domain : TypedData.Domain
  types : TypedData.Types
  primaryType : String
  message : Json

namespace TypedData

/-! ### JSON -/

def Field.toJson (f : Field) : Json :=
  .object [("name", .string f.name), ("type", .string f.type)]

def Field.decode : Decoder Field :=
  Record.of Field.mk
    |>.and (.required "name" Decoder.string)
    |>.and (.required "type" Decoder.string)
    |>.decode

/-- The number that a chain given as text stands for: marked hexadecimal or decimal digits. -/
def chainOfText? (text : String) : Option Nat :=
  match text.toList with
  | '0' :: 'x' :: ds => (Digits.read 16 (2 ^ (64 : Nat)) ds).toOption
  | ds => (Digits.read 10 (2 ^ (64 : Nat)) ds).toOption

/-- The chain that a JSON value stands for: an integer literal, or a text; `null` is no chain. -/
def chainOf (v : Json) : Except DecodeError (Option (Word 64)) :=
  match v with
  | .null => .ok none
  | .number (.natural n) => found (String.ofList (Nat.toDigits 10 n)) (some n)
  | .string s => found s (chainOfText? s)
  | v => found v.render none
where
  /-- A number that fits, or a refusal that shows what was given. -/
  found (shown : String) (n : Option Nat) : Except DecodeError (Option (Word 64)) :=
    match n.bind (Word.ofNat? 64) with
    | some n => .ok (some n)
    | none => .error (.because ("invalid chainId: " ++ shown))

def decodeChain : Decoder (Option (Word 64)) :=
  fun t => do
    let v ← Decoder.free t
    chainOf v

/-- A member of an object unless it is absent. -/
def present (name : String) (v : Option Json) : List (String × Json) :=
  match v with
  | some v => [(name, v)]
  | none => []

def Domain.toJson (d : Domain) : Json :=
  .object (present "name" (d.name.map .string) ++ present "version" (d.version.map .string)
    ++ present "chainId" (d.chainId.map fun n => Json.nat n)
    ++ present "verifyingContract" (d.verifyingContract.map .string)
    ++ present "salt" (d.salt.map .string))

def Domain.decode : Decoder Domain :=
  Record.of Domain.mk
    |>.and (.optional "name" (Decoder.nullable Decoder.string) none)
    |>.and (.optional "version" (Decoder.nullable Decoder.string) none)
    |>.and (.optional "chainId" decodeChain none)
    |>.and (.optional "verifyingContract" (Decoder.nullable Decoder.string) none)
    |>.and (.optional "salt" (Decoder.nullable Decoder.string) none)
    |>.decode

/-- Defines a type; a second definition replaces the first. -/
def define (name : String) (fields : List Field) : Types → Types
  | [] => [(name, fields)]
  | (k, v) :: rest =>
    if k = name then (k, fields) :: rest else (k, v) :: define name fields rest

def definitions (before : Types) : List (Option String × Tree) → Except DecodeError Types
  | [] => .ok before
  | (none, _) :: _ => .error .invalid
  | (some name, t) :: rest => do
    let fields ← Decoder.list Field.decode t
    definitions (define name fields before) rest

def decodeTypes : Decoder Types
  | .object members => definitions [] members
  | _ => .error .invalid

def typesJson (types : Types) : Json :=
  .object (types.map fun (name, fields) => (name, .array (fields.map Field.toJson)))

def decode : Decoder TypedData :=
  Record.of TypedData.mk
    |>.and (.required "domain" Domain.decode)
    |>.and (.required "types" decodeTypes)
    |>.and (.required "primaryType" Decoder.string)
    |>.and (.required "message" Decoder.free)
    |>.decode

def toJson (d : TypedData) : Json :=
  .object [("domain", d.domain.toJson), ("types", typesJson d.types),
    ("primaryType", .string d.primaryType), ("message", d.message)]

def ofJson (input : Bytes) : Except Error TypedData :=
  match decodeDocument decode input with
  | .ok d => .ok d
  | .error e => .error (.invalidTypedData e.message)

/-! ### Types -/

def defined (types : Types) (name : String) : Bool :=
  (types.lookup name).isSome

/-- The name in front of all array suffixes. -/
def baseType (type : String) : String :=
  String.ofList (type.toList.takeWhile (· ≠ '['))

/-- The text behind a word, if it starts with it. -/
def behindWord? (word : String) (text : String) : Option (List Char) :=
  if word.toList.isPrefixOf text.toList then some (text.toList.drop word.toList.length) else none

/-- A word followed by a size: at least one, at most `most`, and a multiple of `step`. -/
def isSized (type word : String) (most step : Nat) : Bool :=
  match (behindWord? word type).map (Digits.read 10 (2 ^ (64 : Nat))) with
  | some (.ok n) => 1 ≤ n && n ≤ most && n % step == 0
  | _ => false

/-- An atomic or dynamic type that needs no definition. -/
def isPrimitive (type : String) : Bool :=
  ["string", "bytes", "bool", "address", "uint", "int"].contains type
    || isSized type "uint" 256 8 || isSized type "int" 256 8 || isSized type "bytes" 32 1

/-- The first base name of a field that is neither defined nor primitive. -/
def undefinedBase? (types : Types) : Option String :=
  (types.flatMap fun (_, fields) => fields.map fun f => baseType f.type).find? fun base =>
    !(defined types base || isPrimitive base)

def isObject : Json → Bool
  | .object _ => true
  | _ => false

/-- Checks that all types are known and that the message is an object. -/
def validate (d : TypedData) : Except Error Unit :=
  if ¬defined d.types d.primaryType then .error (.undefinedType d.primaryType)
  else
    match undefinedBase? d.types with
    | some base => .error (.undefinedType base)
    | none =>
      if isObject d.message then .ok ()
      else .error (.invalidTypedData "message must be an object")

end TypedData

end Countersign
