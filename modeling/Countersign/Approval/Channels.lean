import Countersign.Approval.Message

/-!
# Channels of the user interface

Messages go to named channels. Each channel has at most one current listener, whose queue keeps the
messages in the order in which they were sent; a listener that was replaced or removed keeps what it
has and gets nothing more.
-/
namespace Countersign.Approval

/-- A listener: its channel, the messages it has not taken yet, and whether it still listens. -/
structure Listener where
  channel : String
  queue : List Message
  isOpen : Bool

/-- The listeners in the order in which they came, and the current one of each channel, by number.
-/
structure Channels where
  listeners : List Listener
  current : List (String × Nat)

inductive DeliveryFault where
  | unknownChannel (channel : String)
  | closedChannel (channel : String)
  deriving DecidableEq, Repr

def DeliveryFault.message : DeliveryFault → String
  | .unknownChannel channel => "no listener on port " ++ channel
  | .closedChannel channel => "port " ++ channel ++ " is closed"

namespace Channels

def none : Channels :=
  ⟨[], []⟩

/-- The current listeners without the one of a channel. -/
def others (c : Channels) (channel : String) : List (String × Nat) :=
  c.current.filter fun entry => entry.1 != channel

/-- Adds a listener, which becomes the current one of its channel. -/
def register (c : Channels) (channel : String) : Channels :=
  ⟨c.listeners ++ [⟨channel, [], true⟩], (channel, c.listeners.length) :: c.others channel⟩

def unregister (c : Channels) (channel : String) : Channels :=
  { c with current := c.others channel }

/-- The number of the newest listener of a channel, if it still listens. -/
def newest? (c : Channels) (channel : String) : Option Nat :=
  match (c.listeners.zipIdx.filter fun (l, _) => l.channel == channel).getLast? with
  | some (l, number) => if l.isOpen then some number else .none
  | .none => .none

def take (c : Channels) (number : Nat) : List Message × Channels :=
  match c.listeners[number]? with
  | some l => (l.queue, { c with listeners := c.listeners.set number { l with queue := [] } })
  | .none => ([], c)

def drop (c : Channels) (number : Nat) : Channels :=
  match c.listeners[number]? with
  | some l =>
    { c with listeners := c.listeners.set number { l with queue := [], isOpen := false } }
  | .none => c

def send (c : Channels) (channel : String) (m : Message) : Except DeliveryFault Channels :=
  match (c.current.lookup channel).bind fun number =>
    (c.listeners[number]?).map fun l => (number, l) with
  | some (number, l) =>
    if l.isOpen then
      .ok { c with listeners := c.listeners.set number { l with queue := l.queue ++ [m] } }
    else .error (.closedChannel channel)
  | .none => .error (.unknownChannel channel)

def trySend (c : Channels) (channel : String) (m : Message) : Channels :=
  match c.send channel m with
  | .ok c => c
  | .error _ => c

end Channels

end Countersign.Approval
