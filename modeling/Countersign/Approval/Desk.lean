import Countersign.Approval.Channels
import Countersign.Approval.Docket

/-!
# The desk

The docket of requests together with the channels of the user interface. The interface is told of a
request before anyone can decide it; a message that cannot be delivered is lost and nothing else.
-/
namespace Countersign.Approval

structure Desk where
  docket : Docket
  channels : Channels

namespace Desk

/-- Tells a channel of an event, which must have a type. -/
def event (d : Desk) (channel type : String) (payload : Json) : Except Error Unit × Desk :=
  if type.isEmpty then (.error .emptyInteractionType, d)
  else (.ok (), { d with channels := d.channels.trySend channel (.event type payload) })

/-- Takes a request and tells a channel of it. Gives the record and the number of the ticket. -/
def request (d : Desk) (channel type : String) (isInternal : Bool) (payload : Json) :
    Except Error (Request × Nat) × Desk :=
  match d.docket.request type isInternal payload with
  | (.error e, docket) => (.error e, { d with docket := docket })
  | (.ok (q, number), docket) =>
    (.ok (q, number), ⟨docket, d.channels.trySend channel (.asked q)⟩)

/-- Takes a request, tells a channel of it and then gives notice, which may do anything to the desk.
No notice is given of a request that is refused. -/
def requestWithNotice {σ : Type} (d : Desk) (channel type : String) (isInternal : Bool)
    (payload : Json) (notice : Desk × σ → Desk × σ) (s : σ) :
    Except Error (Request × Nat) × Desk × σ :=
  match d.request channel type isInternal payload with
  | (.error e, d) => (.error e, d, s)
  | (.ok taken, d) => (.ok taken, notice (d, s))

def requestAndWait (d : Desk) (channel type : String) (isInternal : Bool) (payload : Json)
    (limit : Nat) : Except Error (String × Option Outcome) × Desk :=
  match d.request channel type isInternal payload with
  | (.error e, d) => (.error e, d)
  | (.ok (q, number), d) =>
    let (o, docket) := d.docket.waitWithin number limit
    (.ok (q.id, o), { d with docket := docket })

end Desk

end Countersign.Approval
