import Countersign.Json.Decoder

/-!
# What pages ask for

Decisions about approvals, which only the wallet's own pages may take, and the use of messaging
keys. A request names its kind in a member of its own.
-/
namespace Countersign

open Json

inductive PageRequest where
  | approve (id : String) (result : Json)
  | reject (id : String)
  | rejectAll (type : String)
  | listPending (type : String)
  | publicKey (chain : String)
  | encrypt (chain address text : String)
  | decrypt (chain envelope : String)
  | sign (chain payload : String)

namespace PageRequest

def kind : PageRequest → String
  | .approve _ _ => "approve-interaction"
  | .reject _ => "reject-interaction"
  | .rejectAll _ => "reject-all-interactions"
  | .listPending _ => "get-pending-interactions"
  | .publicKey _ => "get-messaging-public-key"
  | .encrypt _ _ _ => "encrypt-messaging-message"
  | .decrypt _ _ => "decrypt-messaging-message"
  | .sign _ _ => "sign-messaging-payload"

/-- Requests about approvals are only taken from the wallet. -/
def needsWallet : PageRequest → Bool
  | .approve _ _ | .reject _ | .rejectAll _ | .listPending _ => true
  | _ => false

def members : PageRequest → List (String × Json)
  | .approve id result => [("id", .string id), ("result", result)]
  | .reject id => [("id", .string id)]
  | .rejectAll type => [("interactionType", .string type)]
  | .listPending type => [("interactionType", .string type)]
  | .publicKey chain => [("chainId", .string chain)]
  | .encrypt chain address text =>
    [("chainId", .string chain), ("targetAddress", .string address), ("message", .string text)]
  | .decrypt chain envelope => [("chainId", .string chain), ("cipherText", .string envelope)]
  | .sign chain payload => [("chainId", .string chain), ("payload", .string payload)]

def toJson (q : PageRequest) : Json :=
  .object (("type", .string q.kind) :: q.members)

def one (name : String) (f : String → PageRequest) : Decoder PageRequest :=
  Record.of f |>.and (.required name Decoder.string) |>.decode

def two (first second : String) (f : String → String → PageRequest) : Decoder PageRequest :=
  Record.of f |>.and (.required first Decoder.string) |>.and (.required second Decoder.string)
    |>.decode

def decode : Decoder PageRequest :=
  tagged "type"
    [("approve-interaction",
        Record.of approve |>.and (.required "id" Decoder.string)
          |>.and (.required "result" Decoder.free) |>.decode),
      ("reject-interaction", one "id" reject),
      ("reject-all-interactions", one "interactionType" rejectAll),
      ("get-pending-interactions", one "interactionType" listPending),
      ("get-messaging-public-key", one "chainId" publicKey),
      ("encrypt-messaging-message",
        Record.of encrypt |>.and (.required "chainId" Decoder.string)
          |>.and (.required "targetAddress" Decoder.string)
          |>.and (.required "message" Decoder.string) |>.decode),
      ("decrypt-messaging-message", two "chainId" "cipherText" decrypt),
      ("sign-messaging-payload", two "chainId" "payload" sign)]

end PageRequest

end Countersign
