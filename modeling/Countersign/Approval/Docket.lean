import Countersign.Approval.Message
import Countersign.Entropy
import Countersign.Error
import Countersign.Text.Hex

/-!
# Requests that wait for a decision

A docket keeps the requests that nobody has decided yet, at most one for each id, and a ticket for
every request it has taken. The owner of a ticket may wait on it, with a deadline if the docket
has a timeout; the decision is left at the ticket, and the waiting owner finds it there.

A ticket that ends, because its wait is over or because its owner gave it up, takes whatever is
pending under its id with it. The owner of a request that is lost in this way is told that it was
abandoned.
-/
namespace Countersign.Approval

/-- What can be left at a ticket: a decision, or that none will come. -/
inductive Verdict where
  | approved (result : Json)
  | rejected
  | lost

inductive Outcome where
  | approved (result : Json)
  | rejected
  | timedOut
  | abandoned

def Verdict.outcome : Verdict → Outcome
  | .approved result => .approved result
  | .rejected => .rejected
  | .lost => .abandoned

def Outcome.result (id : String) : Outcome → Except Error Json
  | .approved result => .ok result
  | .rejected => .error .rejected
  | .timedOut => .error (.interactionTimedOut id)
  | .abandoned => .error (.interactionAbandoned id)

/-- Where the owner of a ticket stands. -/
inductive Stage where
  | held
  /-- Waiting, until an instant or without end. -/
  | waiting (deadline : Option Nat)
  /-- The deadline has passed, and the owner has yet to look whether the request is pending. -/
  | late
  | ended (o : Outcome)
  /-- The owner gave the ticket up. -/
  | dropped

/-- The right to the decision on one request. -/
structure Ticket where
  id : String
  verdict : Option Verdict
  stage : Stage

/-- A request nobody has decided yet, with the id it is kept under and the number of its ticket. -/
structure Entry where
  id : String
  request : Request
  ticket : Nat

/-- A docket with its source of ids. Instants are milliseconds, the timeout is in seconds. -/
structure Docket where
  ids : Entropy
  timeout : Option Nat
  now : Nat
  pending : List Entry
  tickets : List Ticket

namespace Docket

/-- The first timeout, in seconds, whose end no clock shows. -/
def endless : Nat :=
  2 ^ (63 : Nat) - 1

/-- How long an owner waits, in milliseconds. A timeout whose end no clock shows is cut to thirty
years of 365 days. -/
def patience (d : Docket) : Option Nat :=
  d.timeout.map fun s => 1000 * if s < endless then s else 30 * 365 * 86400

def fresh (ids : Entropy) (timeout : Option Nat) : Docket :=
  ⟨ids, timeout, 0, [], []⟩

/-! ### Tickets and entries -/

def update (d : Docket) (number : Nat) (f : Ticket → Ticket) : Docket :=
  { d with tickets := d.tickets.modify number f }

def find? (d : Docket) (id : String) : Option Entry :=
  d.pending.find? fun e => e.id == id

def without (d : Docket) (id : String) : Docket :=
  { d with pending := d.pending.filter fun e => e.id != id }

/-- Removes what is pending under an id and leaves a verdict at its ticket. -/
def resolve (d : Docket) (id : String) (v : Verdict) : Docket :=
  match d.find? id with
  | none => d
  | some e => (d.without id).update e.ticket fun t => { t with verdict := some v }

/-- Ends a ticket and takes what is pending under its id. -/
def finish (d : Docket) (number : Nat) (stage : Stage) : Docket :=
  match d.tickets[number]? with
  | none => d
  | some t => (d.update number fun t => { t with stage := stage }).resolve t.id .lost

/-! ### Requests -/

/-- The next id: twelve octets in hexadecimal. -/
def nextId (ids : Entropy) : String × Entropy :=
  let (b, ids) := ids.draw 12
  (Hex.encode b, ids)

/-- Takes a request and gives its record and the number of its ticket. No id is drawn for a request
without a type, and an id that is pending is refused. -/
def request (d : Docket) (type : String) (isInternal : Bool) (payload : Json) :
    Except Error (Request × Nat) × Docket :=
  if type.isEmpty then (.error .emptyInteractionType, d)
  else
    let (id, ids) := nextId d.ids
    let d := { d with ids := ids }
    match d.find? id with
    | some _ => (.error (.duplicateInteractionId id), d)
    | none =>
      let q : Request := ⟨id, type, isInternal, payload⟩
      (.ok (q, d.tickets.length),
        { d with
          pending := d.pending ++ [⟨id, q, d.tickets.length⟩]
          tickets := d.tickets ++ [⟨id, none, .held⟩] })

/-! ### Decisions -/

/-- Approves the request of an id; an id that is not pending changes nothing. -/
def approve (d : Docket) (id : String) (result : Json) : Docket :=
  d.resolve id (.approved result)

/-- Rejects the request of an id; an id that is not pending changes nothing. -/
def reject (d : Docket) (id : String) : Docket :=
  d.resolve id .rejected

def pendingOf (d : Docket) (type : String) : List Request :=
  (d.pending.map Entry.request).filter fun q => q.type == type

/-- Takes out what is pending under ids, one id after the other. -/
def takeOut (d : Docket) : List String → List Entry × Docket
  | [] => ([], d)
  | id :: ids =>
    match d.find? id with
    | none => d.takeOut ids
    | some e =>
      let (taken, d) := (d.without id).takeOut ids
      (e :: taken, d)

def leave (v : Verdict) (d : Docket) (e : Entry) : Docket :=
  d.update e.ticket fun t => { t with verdict := some v }

/-- Rejects all pending requests of a type and gives their number. All of them are taken out before
the first owner is told. -/
def rejectAll (d : Docket) (type : String) : Nat × Docket :=
  let (taken, d) := d.takeOut ((d.pendingOf type).map Request.id)
  (taken.length, taken.foldl (leave .rejected) d)

def count (d : Docket) : Nat :=
  d.pending.length

/-! ### Waiting -/

def startWait (d : Docket) (number : Nat) : Docket :=
  d.update number fun t =>
    match t.stage with
    | .held => { t with stage := .waiting (d.patience.map (d.now + ·)) }
    | _ => t

/-- The owner of a ticket gives it up; a wait that is over stays as it is. -/
def drop (d : Docket) (number : Nat) : Docket :=
  match (d.tickets[number]?).map Ticket.stage with
  | some .held => d.finish number .dropped
  | some (.waiting _) => d.finish number .dropped
  | some .late => d.finish number .dropped
  | _ => d

/-- The owner of a ticket looks at it: a verdict ends the wait; a deadline that has passed ends it
if the request is still pending. -/
def poll (d : Docket) (number : Nat) : Docket :=
  match d.tickets[number]? with
  | none => d
  | some t =>
    match t.stage, t.verdict with
    | .waiting _, some v => d.finish number (.ended v.outcome)
    | .waiting (some deadline), none =>
      if deadline ≤ d.now then d.update number fun t => { t with stage := .late } else d
    | .late, v =>
      match d.find? t.id with
      | some e =>
        let d := d.without t.id
        let d := if e.ticket = number then d
          else d.update e.ticket fun t => { t with verdict := some .lost }
        d.finish number (.ended .timedOut)
      | none =>
        match v with
        | some v => d.finish number (.ended v.outcome)
        | none => d.update number fun t => { t with stage := .waiting none }
    | _, _ => d

/-- Every owner looks at its ticket once, in the order of the tickets. -/
def pollAll (d : Docket) : Docket :=
  (List.range d.tickets.length).foldl poll d

/-- Owners look at their tickets until nothing changes any more. A wait takes three looks at most,
and ends because of the end of one before it at most once for each ticket. -/
def settle (d : Docket) : Docket :=
  (List.range (d.tickets.length + 3)).foldl (fun d _ => pollAll d) d

def advance (d : Docket) (ms : Nat) : Docket :=
  { d with now := d.now + ms }.settle

def outcome? (d : Docket) (number : Nat) : Option Outcome :=
  match (d.tickets[number]?).map Ticket.stage with
  | some (.ended o) => some o
  | _ => none

/-- Waits on a ticket for a limited time. Time passes until the wait is over, at its own deadline at
the latest, or until the limit is reached, when the ticket is given up; at a tie the deadline
wins. -/
def waitWithin (d : Docket) (number limit : Nat) : Option Outcome × Docket :=
  let d := (d.startWait number).settle
  match d.outcome? number with
  | some o => (some o, d)
  | none =>
    let wait := match d.patience with
      | some ms => min ms limit
      | none => limit
    let d := d.advance wait
    match d.outcome? number with
    | some o => (some o, d)
    | none => (none, (d.drop number).settle)

/-! ### Text -/

/-- A number of seconds as it is shown; nothing at all counts in the smallest unit. -/
def secondsText (s : Nat) : String :=
  if s = 0 then "0ns" else Digits.decimal s ++ "s"

def timeoutText : Option Nat → String
  | none => "None"
  | some s => "Some(" ++ secondsText s ++ ")"

def describe (d : Docket) : String :=
  "InteractionService \x7b timeout: " ++ timeoutText d.timeout ++ ", pending: "
    ++ Digits.decimal d.count ++ ", .. \x7d"

def describeTicket (d : Docket) (t : Ticket) : String :=
  "PendingInteraction \x7b id: " ++ Text.quoted t.id ++ ", timeout: " ++ timeoutText d.timeout
    ++ ", .. \x7d"

end Docket

end Countersign.Approval
