import Countersign.Json.Tree

/-!
# Tables under construction

A settings text builds its tables line by line. A table may be filled again only as long as nothing
has written it as a whole, so each table knows how it came to be.
-/
namespace Countersign.Toml

open Json (Tree)

inductive Origin where
  /-- By its own header or braces. -/
  | written
  /-- By the header of a table inside it. -/
  | implied
  /-- By a key with points. -/
  | dotted
  deriving DecidableEq, Repr

inductive Item where
  | value (t : Tree)
  | table (origin : Origin) (members : List (String × Item))
  /-- A list of tables with repeated headers, the newest first. -/
  | tables (elements : List (List (String × Item)))

abbrev Members := List (String × Item)

structure Table where
  origin : Origin
  members : Members

/-! ### Trees -/

mutual

def Item.tree : Item → Tree
  | .value t => t
  | .table _ members => .object (memberTrees members)
  | .tables elements => .array (elementTrees elements).reverse

def memberTrees : List (String × Item) → List (Option String × Tree)
  | [] => []
  | (name, item) :: rest => (some name, item.tree) :: memberTrees rest

def elementTrees : List (List (String × Item)) → List Tree
  | [] => []
  | members :: rest => .object (memberTrees members) :: elementTrees rest

end

namespace Table

def empty : Table :=
  ⟨.written, []⟩

def tree (t : Table) : Tree :=
  .object (memberTrees t.members)

/-- Sets a member; one that is there keeps its place. -/
def put (t : Table) (name : String) (item : Item) : Table :=
  { t with members := go t.members }
where
  /-- Goes to the place of the name. -/
  go : Members → Members
    | [] => [(name, item)]
    | (k, i) :: rest => if k = name then (k, item) :: rest else (k, i) :: go rest

/-- Goes down a path and changes the table there. Tables that are missing are made. A key with
points does not enter tables that are written as a whole; a list of tables is entered at its
newest one. -/
def within {α : Type} (byKey : Bool) (f : Table → Option (Table × α)) :
    List String → Table → Option (Table × α)
  | [], t => f t
  | name :: path, t =>
    match t.members.lookup name with
    | none => do
      let (inner, a) ← within byKey f path ⟨if byKey then .dotted else .implied, []⟩
      return (t.put name (.table inner.origin inner.members), a)
    | some (.table origin members) =>
      if byKey ∧ origin = .written then none
      else do
        let (inner, a) ← within byKey f path ⟨origin, members⟩
        return (t.put name (.table inner.origin inner.members), a)
    | some (.tables (newest :: older)) => do
      let (inner, a) ← within byKey f path ⟨.written, newest⟩
      return (t.put name (.tables (inner.members :: older)), a)
    | some (.tables []) => none
    | some (.value _) => none

def change (t : Table) (byKey : Bool) (path : List String) (f : Table → Option Table) :
    Option Table :=
  (within byKey (fun t => (f t).map (·, ())) path t).map (·.1)

/-- Adds a value under a key. A path in the key must end in a table that such keys have made. -/
def add (t : Table) (path : List String) (name : String) (v : Tree) : Option Table :=
  t.change true path fun t =>
    if (t.origin = .dotted) = path.isEmpty then none
    else if (t.members.lookup name).isSome then none
    else some (t.put name (.value v))

/-- Takes the table of a header out, if it is there already; it may only have been implied. -/
def takeOut (t : Table) (path : List String) (name : String) : Option (Table × Table) :=
  within false
    (fun t =>
      match t.members.lookup name with
      | none => some (t, empty)
      | some (.table .implied members) =>
        some ({ t with members := t.members.filter fun m => m.1 != name }, ⟨.written, members⟩)
      | some _ => none)
    path t

def putBack (t : Table) (path : List String) (name : String) (inner : Table) : Option Table :=
  t.change false path fun t =>
    match t.members.lookup name with
    | none => some (t.put name (.table inner.origin inner.members))
    | some _ => none

def append (t : Table) (path : List String) (name : String) (inner : Table) : Option Table :=
  t.change false path fun t =>
    match t.members.lookup name with
    | none => some (t.put name (.tables [inner.members]))
    | some (.tables elements) => some (t.put name (.tables (inner.members :: elements)))
    | some _ => none

end Table

end Countersign.Toml
