import Countersign.Toml.Scalar
import Countersign.Toml.Table

/-!
# Settings text

Reading of a whole TOML text into a tree. A line holds a header, a key with its value, or nothing;
a value may go on over line ends inside brackets or three quotes. There is no tree for a text that
breaks a rule anywhere.
-/
namespace Countersign.Toml

open Json (Tree)

/-- How deep values may lie inside each other, and how many parts a key may have: fewer than
this. -/
def limit : Nat := 80

/-- The text behind blanks, comments and line ends. -/
def skipFiller : Nat → List Char → List Char
  | 0, input => input
  | fuel + 1, input =>
    match skipBlank input with
    | '#' :: rest => skipFiller fuel (rest.dropWhile isPlain)
    | rest =>
      match lineEnd? rest with
      | some rest => skipFiller fuel rest
      | none => rest

/-- The text behind the rest of a line, which may hold blanks and a comment. -/
def lineRest? (input : List Char) : Option (List Char) :=
  let input := match skipBlank input with
    | '#' :: rest => rest.dropWhile isPlain
    | rest => rest
  if input.isEmpty then some [] else lineEnd? input

/-! ### Keys -/

def isBare (c : Char) : Bool :=
  c.isAlphanum || c == '-' || c == '_'

def keyPart? (input : List Char) : Option (String × List Char) := do
  let (name, rest) ← match skipBlank input with
    | '"' :: rest => short '"' (rest.length + 1) [] rest
    | '\'' :: rest => short '\'' (rest.length + 1) [] rest
    | rest =>
      let name := rest.takeWhile isBare
      if name.isEmpty then none else some (String.ofList name, rest.drop name.length)
  return (name, skipBlank rest)

def keyParts? : Nat → List Char → Option (List String × List Char)
  | 0, _ => none
  | fuel + 1, input => do
    let (name, rest) ← keyPart? input
    match rest with
    | '.' :: rest =>
      let (more, rest) ← keyParts? fuel rest
      return (name :: more, rest)
    | rest => return ([name], rest)

/-- A key: the path to its table, and its last part. -/
def key? (input : List Char) : Option (List String × String × List Char) := do
  let (parts, rest) ← keyParts? limit input
  let name ← parts.getLast?
  if parts.length < limit then some (parts.dropLast, name, rest) else none

def keySign? (input : List Char) : Option (List String × String × List Char) := do
  let (path, name, rest) ← key? input
  let rest ← behind? '=' rest
  return (path, name, skipBlank rest)

/-! ### Values -/

mutual

/-- Reads a value that lies inside `depth` others. -/
def value? (fuel depth : Nat) (input : List Char) : Option (Tree × List Char) :=
  match fuel with
  | 0 => none
  | fuel + 1 =>
    match input with
    | '"' :: rest => (string? '"' rest).map fun (s, rest) => (.string s, rest)
    | '\'' :: rest => (string? '\'' rest).map fun (s, rest) => (.string s, rest)
    | '[' :: rest =>
      if limit ≤ depth + 1 then none
      else (items? fuel (depth + 1) rest).map fun (ts, rest) => (.array ts, rest)
    | '\x7b' :: rest =>
      if limit ≤ depth + 1 then none
      else
        match skipBlank rest with
        | '\x7d' :: rest => some (.object [], rest)
        | rest => (members? fuel (depth + 1) .empty rest).map fun (t, rest) => (t.tree, rest)
    | _ => scalar? input

def items? (fuel depth : Nat) (input : List Char) : Option (List Tree × List Char) :=
  match fuel with
  | 0 => none
  | fuel + 1 =>
    match skipFiller fuel input with
    | ']' :: rest => some ([], rest)
    | input => do
      let (t, rest) ← value? fuel depth input
      match skipFiller fuel rest with
      | ']' :: rest => return ([t], rest)
      | ',' :: rest =>
        let (more, rest) ← items? fuel depth rest
        return (t :: more, rest)
      | _ => none

def members? (fuel depth : Nat) (t : Table) (input : List Char) : Option (Table × List Char) :=
  match fuel with
  | 0 => none
  | fuel + 1 => do
    let (path, name, rest) ← keySign? input
    let (v, rest) ← value? fuel depth rest
    let t ← t.add path name v
    match skipBlank rest with
    | '\x7d' :: rest => return (t, rest)
    | ',' :: rest => members? fuel depth t rest
    | _ => none

end

/-! ### Lines -/

/-- A header: the path to its table, its last part, and whether it adds to a list of tables. -/
structure Header where
  path : List String
  name : String
  repeated : Bool

/-- A text as far as it has been read: the tables that are finished, and the one that is being
filled, which is the document itself before the first header. -/
structure Draft where
  finished : Table
  header : Option Header
  current : Table

namespace Draft

def start : Draft :=
  ⟨.empty, none, .empty⟩

def whole? (d : Draft) : Option Table :=
  match d.header with
  | none => some d.current
  | some h =>
    if h.repeated then d.finished.append h.path h.name d.current
    else d.finished.putBack h.path h.name d.current

def enter? (d : Draft) (h : Header) : Option Draft := do
  let root ← d.whole?
  if h.repeated then return ⟨root, some h, .empty⟩
  else
    let (root, current) ← root.takeOut h.path h.name
    return ⟨root, some h, current⟩

def readHeader? (d : Draft) (repeated : Bool) (input : List Char) : Option (Draft × List Char) := do
  let (path, name, rest) ← key? input
  let rest ← behind? ']' rest
  let rest ← if repeated then behind? ']' rest else some rest
  let rest ← lineRest? rest
  let d ← d.enter? ⟨path, name, repeated⟩
  return (d, rest)

def readPair? (d : Draft) (fuel : Nat) (input : List Char) : Option (Draft × List Char) := do
  let (path, name, rest) ← keySign? input
  let (v, rest) ← value? fuel 0 rest
  let rest ← lineRest? rest
  let current ← d.current.add path name v
  return ({ d with current := current }, rest)

/-- Reads one line, or several if a value goes on. -/
def readLine? (d : Draft) (fuel : Nat) (input : List Char) : Option (Draft × List Char) :=
  match input with
  | '[' :: '[' :: rest => d.readHeader? true rest
  | '[' :: rest => d.readHeader? false rest
  | '#' :: _ => (lineRest? input).map (d, ·)
  | _ =>
    match lineEnd? input with
    | some rest => some (d, rest)
    | none => d.readPair? fuel input

def readLines? : Nat → Draft → List Char → Option Draft
  | 0, _, _ => none
  | fuel + 1, d, input =>
    match skipBlank input with
    | [] => some d
    | input =>
      match d.readLine? fuel input with
      | some (d, rest) => readLines? fuel d rest
      | none => none

end Draft

/-- Reads a text. A mark of the octet order at its beginning is skipped. Every line, value, item and
member takes a character at least, so three times the length is fuel enough. -/
def read? (text : String) : Option Tree := do
  let input := match text.toList with
    | '\uFEFF' :: rest => rest
    | cs => cs
  let d ← Draft.start.readLines? (3 * input.length + 3) input
  let t ← d.whole?
  return t.tree

end Countersign.Toml
