import Countersign.Json.Shape
import Countersign.Json.Stop

/-!
# Reading JSON text

A text is read into a tree that keeps what a decoder has to judge in the order of the text: the
members of an object with their repetitions, the parts that follow the grammar but have no value,
and the place where the grammar breaks.

A part without a value is a string with a lone surrogate or with octets that are no UTF-8, a number
beyond the doubles, or a container inside `depthLimit` others. A decoder that needs such a part
fails; one that skips it does not.

Where the grammar breaks, nothing more is read, with one exception. A reader that has all the octets
of a byte string looks for one more and does not mind if it finds none: the array is closed if the
bracket follows where it stops.
-/
namespace Countersign.Json

/-- A text as far as it has been read. -/
inductive Tree where
  | null
  | bool (b : Bool)
  | number (n : Number)
  | string (s : String)
  | array (items : List Tree)
  /-- A name without a value is `none`. -/
  | object (members : List (Option String × Tree))
  /-- Fits the grammar and has no value. -/
  | unreadable
  /-- The grammar breaks here or inside. -/
  | malformed
  /-- Stands behind all octets of a byte string, where the reader passed over what is no octet. -/
  | stray
  deriving Inhabited

/-- How many containers may lie around a value inside them. -/
def depthLimit : Nat := 127

/-- A part of the text, and the text behind it unless the grammar broke inside. -/
structure Taken (α : Type) where
  part : α
  rest : Option Bytes

namespace Tree

mutual

/-- The grammar does not break inside. -/
def complete : Tree → Bool
  | .array items => completeItems items
  | .object members => completeMembers members
  | .malformed => false
  | .stray => false
  | _ => true

def completeItems : List Tree → Bool
  | [] => true
  | t :: rest => complete t && completeItems rest

def completeMembers : List (Option String × Tree) → Bool
  | [] => true
  | (_, t) :: rest => complete t && completeMembers rest

end

def isOctet : Tree → Bool
  | .number (.natural n) => n < 256
  | _ => false

end Tree

/-! ### Values -/

/-- What stands behind all octets of a byte string and is no octet: it is passed over if the array
is closed where the reader stops. -/
def passedOver (input : Bytes) : Taken (List Tree) :=
  match behindBracket? input with
  | some rest => ⟨[.stray], some rest⟩
  | none => ⟨[.malformed], none⟩

mutual

def value (fuel depth : Nat) (shape : Shape) (input : Bytes) : Taken Tree :=
  match fuel with
  | 0 => ⟨.malformed, none⟩
  | fuel + 1 =>
    match skipBlank input with
    | 0x6E :: rest => word [0x75, 0x6C, 0x6C] .null rest
    | 0x74 :: rest => word [0x72, 0x75, 0x65] (.bool true) rest
    | 0x66 :: rest => word [0x61, 0x6C, 0x73, 0x65] (.bool false) rest
    | 0x22 :: rest =>
      match pieces? rest with
      | none => ⟨.malformed, none⟩
      | some (items, rest) =>
        ⟨(stringOf? items).elim .unreadable .string, some rest⟩
    | 0x5B :: rest =>
      match skipBlank rest with
      | 0x5D :: rest => ⟨contained depth (.array []), some rest⟩
      | rest =>
        let taken := items fuel (depth + 1) shape 0 rest
        ⟨contained depth (.array taken.part), taken.rest⟩
    | 0x7B :: rest =>
      match skipBlank rest with
      | 0x7D :: rest => ⟨contained depth (.object []), some rest⟩
      | rest =>
        let taken := members fuel (depth + 1) shape rest
        ⟨contained depth (.object taken.part), taken.rest⟩
    | rest =>
      match literal? rest with
      | none => ⟨.malformed, none⟩
      | some (l, rest) => ⟨l.value?.elim .unreadable .number, some rest⟩
where
  /-- A word of the grammar. -/
  word (letters : List UInt8) (part : Tree) (rest : Bytes) : Taken Tree :=
    match behind? letters rest with
    | some rest => ⟨part, some rest⟩
    | none => ⟨.malformed, none⟩
  /-- A container has a value only within the depth limit. -/
  contained (depth : Nat) (part : Tree) : Tree :=
    if depth < depthLimit then part else if part.complete then .unreadable else .malformed

def items (fuel depth : Nat) (shape : Shape) (i : Nat) (input : Bytes) : Taken (List Tree) :=
  match fuel with
  | 0 => ⟨[.malformed], none⟩
  | fuel + 1 =>
    let first := value fuel depth (shape.item i) input
    if shape.isFull i && !first.part.isOctet then passedOver input
    else
      match first.rest.map skipBlank with
      | none => ⟨[first.part], none⟩
      | some (0x5D :: rest) => ⟨[first.part], some rest⟩
      | some (0x2C :: rest) =>
        let more := items fuel depth shape (i + 1) rest
        ⟨first.part :: more.part, more.rest⟩
      | some _ => ⟨[first.part, .malformed], none⟩

def members (fuel depth : Nat) (shape : Shape) (input : Bytes) :
    Taken (List (Option String × Tree)) :=
  match fuel with
  | 0 => ⟨[(none, .malformed)], none⟩
  | fuel + 1 =>
    match skipBlank input with
    | 0x22 :: rest =>
      match pieces? rest with
      | none => ⟨[(none, .malformed)], none⟩
      | some (items, rest) =>
        let name := stringOf? items
        match skipBlank rest with
        | 0x3A :: rest =>
          let first := value fuel depth (shape.member name) rest
          match first.rest.map skipBlank with
          | none => ⟨[(name, first.part)], none⟩
          | some (0x7D :: rest) => ⟨[(name, first.part)], some rest⟩
          | some (0x2C :: rest) =>
            let more := members fuel depth shape rest
            ⟨(name, first.part) :: more.part, more.rest⟩
          | some _ => ⟨[(name, first.part), (none, .malformed)], none⟩
        | _ => ⟨[(name, .malformed)], none⟩
    | _ => ⟨[(none, .malformed)], none⟩

end

/-- A document: its value, and whether nothing but blanks follows. -/
structure Document where
  root : Tree
  ended : Bool

/-- Reads a document. Every value, item and member takes an octet at least, so three times the
length is fuel enough. -/
def read (shape : Shape) (input : Bytes) : Document :=
  let taken := value (3 * input.length + 3) 0 shape input
  ⟨taken.part, (taken.rest.map fun rest => (skipBlank rest).isEmpty).getD false⟩

/-! ### Values of trees -/

namespace Tree

mutual

/-- The free-form value of a tree; of a repeated member the last value stands. -/
def value? : Tree → Option Json
  | .null => some .null
  | .bool b => some (.bool b)
  | .number n => some (.number n)
  | .string s => some (.string s)
  | .array items => (itemValues? items).map .array
  | .object members => (memberValues? [] members).map .object
  | .unreadable => none
  | .malformed => none
  | .stray => none

def itemValues? : List Tree → Option (List Json)
  | [] => some []
  | t :: rest => do
    let v ← value? t
    let vs ← itemValues? rest
    return v :: vs

def memberValues? (before : List (String × Json)) :
    List (Option String × Tree) → Option (List (String × Json))
  | [] => some before
  | (name, t) :: rest => do
    let name ← name
    let v ← value? t
    memberValues? (insertMember name v before) rest

end

/-- Every part has a value. -/
def sound (t : Tree) : Bool :=
  t.value?.isSome

end Tree

end Countersign.Json
