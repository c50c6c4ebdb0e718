import Countersign.Json.Decoder

/-!
# What the user is asked and told

The record of a request that waits for a decision, and the messages that the user interface gets.
-/
namespace Countersign.Approval

open Json

structure Request where
  id : String
  /-- What kind of approval is asked for. -/
  type : String
  /-- The request came from the wallet itself. -/
  isInternal : Bool
  payload : Json
  deriving BEq

/-- What the user interface is told. Nothing waits for an answer to an event. -/
inductive Message where
  | asked (r : Request)
  | event (type : String) (payload : Json)
  deriving BEq

namespace Request

def members (r : Request) : List (String × Json) :=
  [("id", .string r.id), ("type", .string r.type), ("isInternal", .bool r.isInternal),
    ("payload", r.payload)]

def toJson (r : Request) : Json :=
  .object r.members

def decode : Decoder Request :=
  Record.of Request.mk
    |>.and (.required "id" Decoder.string)
    |>.and (.required "type" Decoder.string)
    |>.and (.required "isInternal" Decoder.bool)
    |>.and (.required "payload" Decoder.free)
    |>.decode

end Request

namespace Message

def eventMembers (type : String) (payload : Json) : List (String × Json) :=
  [("type", .string type), ("payload", payload)]

/-- The JSON form, which names the kind in a member of its own. -/
def toJson : Message → Json
  | .asked r => .object (("msg", .string "push-interaction-data") :: r.members)
  | .event type payload => .object (("msg", .string "push-event-data") :: eventMembers type payload)

def decodeEvent : Decoder (String × Json) :=
  Record.of Prod.mk
    |>.and (.required "type" Decoder.string)
    |>.and (.required "payload" Decoder.free)
    |>.decode

def decode : Decoder Message :=
  tagged "msg"
    [("push-interaction-data", fun t => (Request.decode t).map .asked),
      ("push-event-data", fun t => (decodeEvent t).map fun (type, payload) => .event type payload)]

end Message

end Countersign.Approval
