/-!
# Shapes of documents

What a reader looks for while it goes through a text. A shape changes the reading in one place only:
behind the last octet of a byte string of known length, where one item may be passed over.
-/
namespace Countersign.Json

inductive Shape where
  | any
  /-- An array of that many octets. -/
  | octets (n : Nat)
  /-- An array of parts of one shape. -/
  | list (part : Shape)
  /-- An object of named members, or an array of the same parts in their order. -/
  | record (members : List (String × Shape))

namespace Shape

def member (shape : Shape) (name : Option String) : Shape :=
  match shape, name with
  | .record members, some name => (members.lookup name).getD .any
  | _, _ => .any

def item (shape : Shape) (i : Nat) : Shape :=
  match shape with
  | .list part => part
  | .record members => (members[i]?.map (·.2)).getD .any
  | _ => .any

def isFull (shape : Shape) (i : Nat) : Bool :=
  match shape with
  | .octets n => i = n
  | _ => false

end Shape

end Countersign.Json
