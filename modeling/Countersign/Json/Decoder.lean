import Countersign.Json.Tree
import Countersign.Text.Digits

/-!
# Decoding JSON trees

A decoder takes a tree and gives a value or the first reason against it, in the order of the text;
members that are missing are judged last, in the order of their declaration.

A record is an object of named members, some of which may be missing, or an array of the same parts
in their declared order. A tagged choice is an object one of whose members names the choice, or an
array that begins with that name; all of it is read before the choice judges its part.
-/
namespace Countersign.Json

/-- Why a tree is refused. `invalid` stands for text that is not JSON and for parts of another
shape than the one that is needed. -/
inductive DecodeError where
  | missingField (name : String)
  | duplicateField (name : String)
  | unknownField (name : String)
  | unknownVariant (name : String)
  | refused (reason : String)
  | invalid
  deriving DecidableEq, Repr

def DecodeError.message : DecodeError → String
  | .missingField name => "missing field `" ++ name ++ "`"
  | .duplicateField name => "duplicate field `" ++ name ++ "`"
  | .unknownField name => "unknown field `" ++ name ++ "`"
  | .unknownVariant name => "unknown variant `" ++ name ++ "`"
  | .refused reason => reason
  | .invalid => "invalid JSON input"

/-- The text in front of a word and a number that end it; both texts are last character first. -/
def inFrontOf? (word : String) (text : List Char) : Option (List Char) :=
  let ds := text.takeWhile Char.isDigit
  let rest := text.dropWhile Char.isDigit
  let word := word.toList.reverse
  if (Digits.read 10 (2 ^ (64 : Nat)) ds.reverse).toOption.isSome ∧ word.isPrefixOf rest then
    some (rest.drop word.length)
  else none

/-- A reason without a line and a column at its end, which are taken for the place of the fault and
not for a part of the reason. -/
def withoutPlace (reason : String) : String :=
  match (inFrontOf? " column " reason.toList.reverse).bind (inFrontOf? " at line ") with
  | some text => String.ofList text.reverse
  | none => reason

def DecodeError.because (reason : String) : DecodeError :=
  .refused (withoutPlace reason)

/-- Where formats that share the tree differ. -/
structure Format where
  /-- What stands for the part of a choice that has none. -/
  isEmpty : Tree → Bool
  /-- Items of an array behind the members of a record are skipped. -/
  skipsSurplus : Bool

/-- JSON: `null` is the empty part, and every item counts. -/
def Format.strict : Format where
  isEmpty
    | .null => true
    | _ => false
  skipsSurplus := false

/-- A way to take a tree for a value. -/
abbrev Decoder (α : Type) := Tree → Except DecodeError α

namespace Decoder

def ofOption {α : Type} : Option α → Except DecodeError α
  | some a => .ok a
  | none => .error .invalid

def string : Decoder String
  | .string s => .ok s
  | _ => .error .invalid

def bool : Decoder Bool
  | .bool b => .ok b
  | _ => .error .invalid

def natural (limit : Nat) : Decoder Nat
  | .number (.natural n) => if n < limit then .ok n else .error .invalid
  | _ => .error .invalid

def free : Decoder Json
  | t => ofOption t.value?

def nullable {α : Type} (d : Decoder α) : Decoder (Option α)
  | .null => .ok none
  | t => (d t).map some

def items {α : Type} (d : Decoder α) : List Tree → Except DecodeError (List α)
  | [] => .ok []
  | t :: rest => do
    let a ← d t
    let more ← items d rest
    return a :: more

def list {α : Type} (d : Decoder α) : Decoder (List α)
  | .array ts => items d ts
  | _ => .error .invalid

def choice {α : Type} (choices : List (String × α)) (name : String) : Except DecodeError α :=
  match choices.lookup name with
  | some a => .ok a
  | none => .error (.unknownVariant name)

/-- One of several names: the name as a string, or an object with the name as its only member and
an empty part. -/
def oneOf {α : Type} (format : Format) (choices : List (String × α)) : Decoder α
  | .string name => choice choices name
  | .object ((some name, part) :: rest) => do
    let a ← choice choices name
    if format.isEmpty part ∧ rest.isEmpty then .ok a else .error .invalid
  | _ => .error .invalid

end Decoder

/-! ### Records -/

structure Field where
  name : String
  check : Tree → Except DecodeError Unit
  /-- The member may be missing. -/
  optional : Bool

/-- A record: its members, and how its value is built from those that are present. -/
structure Record (α : Type) where
  fields : List Field
  build : (String → Option Tree) → Except DecodeError α

namespace Record

def of {α : Type} (a : α) : Record α :=
  ⟨[], fun _ => .ok a⟩

def required {α : Type} (name : String) (d : Decoder α) : Record α :=
  ⟨[⟨name, fun t => (d t).map fun _ => (), false⟩],
    fun present =>
      match present name with
      | some t => d t
      | none => .error (.missingField name)⟩

def optional {α : Type} (name : String) (d : Decoder α) (default : α) : Record α :=
  ⟨[⟨name, fun t => (d t).map fun _ => (), true⟩],
    fun present =>
      match present name with
      | some t => d t
      | none => .ok default⟩

/-- Applies a value to the value of one more member. -/
def and {α β : Type} (f : Record (α → β)) (x : Record α) : Record β :=
  ⟨f.fields ++ x.fields, fun present => do
    let g ← f.build present
    let a ← x.build present
    return g a⟩

def field? {α : Type} (r : Record α) (name : String) : Option Field :=
  r.fields.find? fun f => f.name == name

/-- Goes through the members of an object. Those that are not declared are skipped, or refused if
the record is closed. -/
def collect {α : Type} (r : Record α) (closed : Bool) (seen : List (String × Tree)) :
    List (Option String × Tree) → Except DecodeError (List (String × Tree))
  | [] => .ok seen
  | (none, _) :: _ => .error .invalid
  | (some name, t) :: rest =>
    match r.field? name with
    | some f =>
      if (seen.lookup name).isSome then .error (.duplicateField name)
      else do
        f.check t
        collect r closed ((name, t) :: seen) rest
    | none =>
      if closed then .error (.unknownField name)
      else if t.complete then collect r closed seen rest
      else .error .invalid

/-- Gives the items of an array to the declared members in turn. Items that are left over are
refused unless they are skipped. -/
def inOrder (skipsSurplus : Bool) :
    List Field → List Tree → Except DecodeError (List (String × Tree))
  | [], [] => .ok []
  | [], _ :: _ => if skipsSurplus then .ok [] else .error .invalid
  | f :: fs, [] => if f.optional then inOrder skipsSurplus fs [] else .error .invalid
  | f :: fs, t :: rest => do
    f.check t
    let more ← inOrder skipsSurplus fs rest
    return (f.name, t) :: more

def decodeWith {α : Type} (r : Record α) (closed skipsSurplus : Bool) : Decoder α
  | .object members => do
    let seen ← r.collect closed [] members
    r.build fun name => seen.lookup name
  | .array items => do
    let seen ← inOrder skipsSurplus r.fields items
    r.build fun name => seen.lookup name
  | _ => .error .invalid

def decode {α : Type} (r : Record α) : Decoder α :=
  r.decodeWith false false

def decodeClosed {α : Type} (r : Record α) (format : Format) : Decoder α :=
  r.decodeWith true format.skipsSurplus

end Record

/-! ### Tagged choices -/

def tagName {α : Type} (choices : List (String × α)) : Tree → Except DecodeError α
  | .string name => Decoder.choice choices name
  | _ => .error .invalid

/-- Finds the choice among the members of an object and keeps the others. -/
def taggedMembers {α : Type} (tag : String) (choices : List (String × α)) (found : Option α)
    (kept : List (Option String × Tree)) :
    List (Option String × Tree) → Except DecodeError (α × Tree)
  | [] =>
    match found with
    | some a => .ok (a, .object kept.reverse)
    | none => .error (.missingField tag)
  | (none, _) :: _ => .error .invalid
  | (some name, t) :: rest =>
    if name = tag then
      match found with
      | some _ => .error (.duplicateField tag)
      | none => do
        let a ← tagName choices t
        taggedMembers tag choices (some a) kept rest
    else if t.sound then taggedMembers tag choices found ((some name, t) :: kept) rest
    else .error .invalid

/-- Decodes a choice whose name is a member of its own record. The record is judged after all of it
has been read. -/
def tagged {α : Type} (tag : String) (choices : List (String × Decoder α)) : Decoder α
  | .object members => do
    let (d, part) ← taggedMembers tag choices none [] members
    d part
  | .array [] => .error (.missingField tag)
  | .array (t :: rest) => do
    let d ← tagName choices t
    if (Tree.array rest).sound then d (.array rest) else .error .invalid
  | _ => .error .invalid

/-- The first member with one of two names; others in front of it are skipped. -/
def relevant? (a b : String) :
    List (Option String × Tree) →
      Except DecodeError (Option (String × Tree × List (Option String × Tree)))
  | [] => .ok none
  | (none, _) :: _ => .error .invalid
  | (some name, t) :: rest =>
    if name = a ∨ name = b then .ok (some (name, t, rest))
    else if t.complete then relevant? a b rest
    else .error .invalid

def noMore (a b : String) (members : List (Option String × Tree)) : Except DecodeError Unit := do
  match ← relevant? a b members with
  | some (name, _, _) => .error (.duplicateField name)
  | none => .ok ()

/-- How a choice takes its part: `none` is a part that is missing. -/
abbrev PartDecoder (α : Type) := Option Tree → Except DecodeError α

namespace PartDecoder

def empty {α : Type} (a : α) : PartDecoder α
  | none => .ok a
  | some .null => .ok a
  | some _ => .error .invalid

def needed {α : Type} (part : String) (d : Decoder α) : PartDecoder α
  | none => .error (.missingField part)
  | some t => d t

end PartDecoder

/-- Decodes a choice with its name in one member and its part in another, or an array of the two. In
the array the name is a plain string. -/
def tagAndPart {α : Type} (tag part : String) (choices : List (String × PartDecoder α)) : Decoder α
  | .object members => do
    match ← relevant? tag part members with
    | none => .error (.missingField tag)
    | some (name, t, rest) =>
      if name = tag then
        let d ← Decoder.oneOf .strict choices t
        match ← relevant? tag part rest with
        | none => d none
        | some (second, u, rest) =>
          if second = tag then .error (.duplicateField tag)
          else
            let a ← d (some u)
            noMore tag part rest
            return a
      else if t.sound then
        match ← relevant? tag part rest with
        | none => .error (.missingField tag)
        | some (second, u, rest) =>
          if second = part then .error (.duplicateField part)
          else
            let d ← Decoder.oneOf .strict choices u
            let a ← d (some t)
            noMore tag part rest
            return a
      else .error .invalid
  | .array (t :: u :: rest) => do
    let d ← tagName choices t
    let a ← d (some u)
    if rest.isEmpty then .ok a else .error .invalid
  | .array [t] => do
    let _ ← tagName choices t
    .error .invalid
  | _ => .error .invalid

/-- Decodes a whole document that is read for the given shape. What follows its value is judged
after the value itself. -/
def decodeShaped {α : Type} (shape : Shape) (d : Decoder α) (input : Bytes) :
    Except DecodeError α := do
  let document := read shape input
  let a ← d document.root
  if document.ended then .ok a else .error .invalid

/-- Decodes a whole document, all of which is read before it is judged. -/
def decodeDocument {α : Type} (d : Decoder α) (input : Bytes) : Except DecodeError α :=
  decodeShaped .any d input

def decodeText {α : Type} (d : Decoder α) (text : String) : Except DecodeError α :=
  decodeDocument d (Utf8.encode text)

end Countersign.Json
