import Countersign.Device.Apdu

/-!
# The link to a device

A link is known by what the device will do: the replies it gives, one for each command, and whether
closing it fails. It records what was done with it in order: commands that were sent, and that it
was closed. With no reply left the device has gone away.
-/
namespace Countersign

inductive Reply where
  | answer (octets : Bytes)
  | failure (fault : LinkFault)
  deriving DecidableEq, Repr

inductive LinkUse where
  | send (a : Apdu)
  | close
  deriving DecidableEq, Repr

/-- A link to a device, with all that was done with it in its order. -/
structure Link where
  replies : List Reply
  closeFault : Option LinkFault
  log : List LinkUse
  deriving DecidableEq, Repr

def LinkUse.command? : LinkUse → Option Apdu
  | .send a => some a
  | .close => none

namespace Link

def fresh (replies : List Reply) (closeFault : Option LinkFault) : Link :=
  ⟨replies, closeFault, []⟩

def sent (link : Link) : List Apdu :=
  link.log.filterMap LinkUse.command?

def closes (link : Link) : Nat :=
  link.log.count .close

/-- Nothing was done with the link but that commands were sent. -/
def IsOpen (link : Link) : Prop :=
  link.log = link.sent.map .send

/-- The link once it was closed after all that was done with it before. -/
def closed (link : Link) : Link :=
  { link with log := link.log ++ [LinkUse.close] }

theorem sent_of_log {link link' : Link} {as : List Apdu}
    (h : link'.log = link.log ++ as.map LinkUse.send) : link'.sent = link.sent ++ as := by
  rw [sent, h, List.filterMap_append, List.filterMap_map]
  exact congrArg (link.sent ++ ·) List.filterMap_some

@[simp] theorem sent_closed (link : Link) : link.closed.sent = link.sent := by
  rw [sent, closed, List.filterMap_append]
  exact List.append_nil _

theorem IsOpen.of_log {link link' : Link} {as : List Apdu} (h : link.IsOpen)
    (hlog : link'.log = link.log ++ as.map LinkUse.send) : link'.IsOpen := by
  rw [IsOpen, hlog, sent_of_log hlog, List.map_append, ← h]

/-- A link that is open was not closed, and closing it is the first time. -/
theorem IsOpen.closes {link : Link} (h : link.IsOpen) :
    link.closes = 0 ∧ link.closed.closes = 1 := by
  have hopen : link.closes = 0 := by
    rw [Link.closes, h]
    exact List.count_eq_zero.mpr (by simp)
  refine ⟨hopen, ?_⟩
  rw [Link.closes, closed, List.count_append, ← Link.closes, hopen]
  rfl

/-- The answer in a reply; an answer without a status word counts as a failure of the link. -/
def answered : Reply → Except LinkFault Answer
  | .failure fault => .error fault
  | .answer octets =>
    match Answer.ofBytes octets with
    | .ok a => .ok a
    | .error e => .error (.other e.message)

end Link

abbrev Exchange (α : Type) := ExceptT Error (StateM Link) α

namespace Exchange

/-- An operation that needs no command. -/
def lift {α : Type} (r : Except Error α) : Exchange α :=
  fun link => (r, link)

def on {α : Type} (x : Exchange α) (link : Link) : Except Error α × Link :=
  x link

def send (a : Apdu) : Exchange Answer :=
  fun link =>
    let link := { link with log := link.log ++ [LinkUse.send a] }
    match link.replies with
    | [] => (.error (.link .disconnected), link)
    | reply :: rest =>
      let link := { link with replies := rest }
      match Link.answered reply with
      | .ok answer => (.ok answer, link)
      | .error fault => (.error (.link fault), link)

/-- Sends a command and gives the data of a successful answer. -/
def data (a : Apdu) : Exchange Bytes := do
  let answer ← send a
  lift answer.check
  return answer.data

/-- Sends commands in turn and gives the data of the last answer. -/
def dataOfLast (before : Bytes) : List Apdu → Exchange Bytes
  | [] => return before
  | a :: rest => do
    let d ← data a
    dataOfLast d rest

def close : Exchange Unit :=
  fun link =>
    match link.closeFault with
    | none => (.ok (), link.closed)
    | some fault => (.error (.link fault), link.closed)

end Exchange

end Countersign
