import Countersign.Ethereum.TypedData
import Countersign.Hash.Keccak256

/-!
# Hashes of typed data

A struct is hashed as the hash of its type followed by one word for each field: atoms as words,
dynamic values, arrays and nested structs as hashes. The message hash and the hash of the domain
together make the digest that is signed.
-/
namespace Countersign.TypedData

/-- Why a hash is not computed: an error, or a value that overruns the word it is laid into, which
stops the program. -/
inductive Fault where
  | refused (e : Error)
  | overrun (length : Nat)
  deriving DecidableEq, Repr

def invalid {α : Type} (detail : String) : Except Fault α :=
  .error (.refused (.invalidTypedData detail))

/-! ### Atoms -/

def mismatch {α : Type} (expected : String) (v : Json) : Except Fault α :=
  invalid ("expected " ++ expected ++ ", got " ++ v.render)

def textOf (expected : String) : Json → Except Fault String
  | .string s => .ok s
  | v => mismatch expected v

def octetsOf (text : String) : Except Fault Bytes :=
  match Hex.decode text with
  | .ok b => .ok b
  | .error e => invalid (text ++ ": " ++ e.message)

/-- The number a text stands for: marked hexadecimal or decimal digits, with underscores
anywhere. -/
def numberOfText? (text : List Char) : Option Nat :=
  match text with
  | '0' :: 'x' :: ds => Digits.readLoose? 16 (2 ^ (256 : Nat)) ds
  | ds => Digits.readLoose? 10 (2 ^ (256 : Nat)) ds

def unsignedOf (v : Json) : Except Fault Nat :=
  let n := match v with
    | .number (.natural n) => some n
    | .string s => numberOfText? s.toList
    | _ => none
  match n with
  | some n => .ok n
  | none => mismatch "unsigned integer" v

/-- The complement to `2^256` of a number. -/
def negated (n : Nat) : Nat :=
  (2 ^ (256 : Nat) - n) % 2 ^ (256 : Nat)

/-- A number whose negative values are written as complements. -/
def signedOf (v : Json) : Except Fault Nat :=
  match v with
  | .number (.negative n) => .ok (negated n)
  | .string s =>
    match s.toList with
    | '-' :: rest => (unsignedOf (.string (String.ofList rest))).map negated
    | _ => unsignedOf v
  | v => unsignedOf v

def wordOf (n : Nat) : Bytes :=
  Bytes.ofNat 32 n

/-- A byte string of at most `width` octets, at the front of a word. -/
def fixedOf (type : String) (width : Nat) (v : Json) : Except Fault Bytes := do
  let text ← textOf type v
  let b ← octetsOf text
  if width < b.length then invalid (Digits.decimal b.length ++ " bytes do not fit " ++ type)
  else if 32 < b.length then .error (.overrun b.length)
  else .ok (Bytes.padRight 32 b)

def encodePrimitive (type : String) (v : Json) : Except Fault Bytes :=
  if type = "string" then do
    let text ← textOf "string" v
    return Keccak256.hash (Utf8.encode text)
  else if type = "bytes" then do
    let text ← textOf "hex bytes" v
    let b ← octetsOf text
    return Keccak256.hash b
  else if type = "bool" then
    match v with
    | .bool b => .ok (wordOf (if b then 1 else 0))
    | v => mismatch "bool" v
  else if type = "address" then do
    let text ← textOf "address" v
    let b ← octetsOf text
    if b.length = 20 then .ok (Bytes.padLeft 32 b) else invalid (text ++ " is not an address")
  else
    match behindWord? "bytes" type with
    | some size =>
      match Digits.read 10 (2 ^ (64 : Nat)) size with
      | .ok width => fixedOf type width v
      | .error _ => unsupported
    | none =>
      if (behindWord? "uint" type).isSome then (unsignedOf v).map wordOf
      else if (behindWord? "int" type).isSome then (signedOf v).map wordOf
      else unsupported
where
  /-- No type of this name has values. -/
  unsupported : Except Fault Bytes :=
    invalid ("unsupported type: " ++ type)

/-! ### Types -/

def commaJoined : List String → String
  | [] => ""
  | [s] => s
  | s :: rest => s ++ "," ++ commaJoined rest

def formatStruct (name : String) (fields : List Field) : String :=
  name ++ "(" ++ commaJoined (fields.map fun f => f.type ++ " " ++ f.name) ++ ")"

/-- The struct types that the fields of a type refer to. -/
def referred (types : Types) (name : String) : List String :=
  (((types.lookup name).getD []).map fun f => baseType f.type).filter (defined types)

def addNew (names more : List String) : List String :=
  more.foldl (fun names n => if names.contains n then names else names ++ [n]) names

/-- The names that can be reached in the given number of steps. -/
def reach (types : Types) : Nat → List String → List String
  | 0, names => names
  | steps + 1, names => reach types steps (addNew names (names.flatMap (referred types)))

/-- The names that can be reached from a type, itself included. There are not more steps than
types. -/
def reachable (types : Types) (name : String) : List String :=
  reach types types.length [name]

def insertSorted (name : String) : List String → List String
  | [] => [name]
  | n :: rest => if name < n then name :: n :: rest else n :: insertSorted name rest

def sorted (names : List String) : List String :=
  names.foldr insertSorted []

def formatType (types : Types) (name : String) : Except Fault String :=
  match types.lookup name with
  | some fields => .ok (formatStruct name fields)
  | none => .error (.refused (.undefinedType name))

def formatTypes (types : Types) : List String → Except Fault String
  | [] => .ok ""
  | name :: rest => do
    let text ← formatType types name
    let more ← formatTypes types rest
    return text ++ more

/-- The definition of a type followed by those of all others it depends on, by name. -/
def encodeType (types : Types) (name : String) : Except Fault String :=
  formatTypes types (name :: sorted ((reachable types name).filter (· ≠ name)))

/-- The item type of an array type: what stands in front of its last suffix. -/
def itemType? (type : String) : Option String :=
  match type.toList.reverse with
  | ']' :: _ =>
    match type.toList.reverse.dropWhile (· ≠ '[') with
    | '[' :: item => some (String.ofList item.reverse)
    | _ => none
  | _ => none

/-! ### Structs -/

/-- How each member of an object is encoded as a value of a given type. -/
abbrev Encoders := List (String × (String → Except Fault Bytes))

def encodeFields (encoders : Encoders) : List Field → Except Fault Bytes
  | [] => .ok []
  | f :: rest =>
    match encoders.lookup f.name with
    | none => invalid ("missing field: " ++ f.name)
    | some encode => do
      let word ← encode f.type
      let more ← encodeFields encoders rest
      return word ++ more

/-- The hash of a struct; `none` stands for a value that is no object. -/
def hashWith (types : Types) (name : String) (encoders : Option Encoders) : Except Fault Bytes := do
  let text ← encodeType types name
  match encoders with
  | none => invalid ("expected object for " ++ name)
  | some encoders =>
    let data ← encodeFields encoders ((types.lookup name).getD [])
    return Keccak256.hash (Keccak256.hash (Utf8.encode text) ++ data)

mutual

/-- The word of a value of a given type. -/
def encodeField (types : Types) : Json → String → Except Fault Bytes
  | .array items, type =>
    match itemType? type with
    | some item => do
      let words ← encodeItems types items item
      return Keccak256.hash words
    | none =>
      if defined types type then hashWith types type none else encodePrimitive type (.array items)
  | .object members, type =>
    match itemType? type with
    | some _ => invalid ("expected array for " ++ type)
    | none =>
      if defined types type then hashWith types type (some (memberEncoders types members))
      else encodePrimitive type (.object members)
  | v, type =>
    match itemType? type with
    | some _ => invalid ("expected array for " ++ type)
    | none => if defined types type then hashWith types type none else encodePrimitive type v

def encodeItems (types : Types) : List Json → String → Except Fault Bytes
  | [], _ => .ok []
  | v :: rest, type => do
    let word ← encodeField types v type
    let more ← encodeItems types rest type
    return word ++ more

def memberEncoders (types : Types) : List (String × Json) → Encoders
  | [] => []
  | (name, v) :: rest => (name, fun type => encodeField types v type) :: memberEncoders types rest

end

def hashStruct (types : Types) (name : String) : Json → Except Fault Bytes
  | .object members => hashWith types name (some (memberEncoders types members))
  | _ => hashWith types name none

/-! ### Digests -/

def Domain.members (d : Domain) : List (Field × Option Json) :=
  [(⟨"name", "string"⟩, d.name.map .string),
    (⟨"version", "string"⟩, d.version.map .string),
    (⟨"chainId", "uint256"⟩, d.chainId.map fun n => Json.nat n),
    (⟨"verifyingContract", "address"⟩, d.verifyingContract.map .string),
    (⟨"salt", "bytes32"⟩, d.salt.map .string)]

def Domain.present (d : Domain) : List (Field × Json) :=
  d.members.filterMap fun (f, v) => v.map fun v => (f, v)

/-- The word of a member of a domain; the salt must fill its word. -/
def domainWord (f : Field) (v : Json) : Except Fault Bytes := do
  if f.type = "bytes32" then
    let text ← textOf f.type v
    let b ← octetsOf text
    if b.length ≠ 32 then invalid (text ++ " is not 32 bytes")
  encodePrimitive f.type v

def domainWords : List (Field × Json) → Except Fault Bytes
  | [] => .ok []
  | (f, v) :: rest => do
    let word ← domainWord f v
    let more ← domainWords rest
    return word ++ more

def Domain.separator (d : Domain) : Except Fault Bytes := do
  let words ← domainWords d.present
  let type := formatStruct "EIP712Domain" (d.present.map fun (f, _) => f)
  return Keccak256.hash (Keccak256.hash (Utf8.encode type) ++ words)

/-- The hash of the message as a value of the primary type. -/
def messageHash (d : TypedData) : Except Fault Bytes :=
  hashStruct d.types d.primaryType d.message

def signingHash (d : TypedData) : Except Fault Bytes := do
  let domain ← d.domain.separator
  let message ← d.messageHash
  return Keccak256.hash (0x19 :: 0x01 :: domain ++ message)

end Countersign.TypedData
