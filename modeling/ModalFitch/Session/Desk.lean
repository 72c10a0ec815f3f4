import ModalFitch.Document.Rows
import ModalFitch.Session.Basic

/-! A session with the tickets given out so far and a queue of passes that wait for their turn.

Tickets and passes are named by their place, counted from zero, or from the end by negative
numbers. A place is a signed number of 64 bits. -/

namespace ModalFitch
set_option autoImplicit false

/-- Whether a number has 64 bits with its sign. -/
def isWord (i : Int) : Bool := -(Nat.pow 2 63) ≤ i && i < Nat.pow 2 63

/-- An element of a list by its place. A negative place counts from the end. -/
def placeIn {α : Type} (xs : List α) (i : Int) : Option Nat :=
  let place := if i < 0 then i + xs.length else i
  if 0 ≤ place && place < xs.length then some place.toNat else none

structure Desk where
  session : Session
  tickets : List Ticket
  queue : List Ticket
deriving Repr

inductive Request where
  | edit (e : Edit)
  | setGoal (goal : Option Text)
  | setConfig (config : Json)
  | run
  | display
  /-- Gives out a ticket and keeps it. -/
  | begin
  /-- Completes a ticket with the report on a ticket, its own or another. -/
  | complete (ticket reportOf : Int)
  | verifyTicket (ticket : Int)
  /-- Gives out a ticket whose pass waits in the queue. -/
  | defer
  /-- Takes a pass off the queue and runs it to its end. -/
  | work (job : Int)
  /-- Takes a pass off the queue and drops it. -/
  | cancel (job : Int)
  /-- Takes a pass off the queue and lets it fail. -/
  | fail (job : Int)
deriving Repr

inductive Reply where
  | line (l : Line)
  | numbers (ns : List Nat)
  | nothing
  | config (c : Config)
  | report (r : Report)
  | diagnostics (ds : List Diagnostic)
  | count (n : Nat)
  | flag (b : Bool)
deriving Repr

inductive DeskError where
  | edit (e : EditError)
  | goal (e : ParseError)
  | config (e : ConfigError)
  | missing (m : Missing)
  | noTicket
  /-- The place of a ticket with too many bits. -/
  | ticketRange
  | emptyQueue
  | noJob
  /-- The place of a pass with too many bits. -/
  | jobRange
deriving Repr

def DeskError.message : DeskError → String
  | .edit e => e.message
  | .goal e => e.message
  | .config e => e.message
  | .missing m => m.message
  | .noTicket => "list index out of range"
  | .ticketRange => "cannot fit 'int' into an index-sized integer"
  | .emptyQueue => "pop from empty list"
  | .noJob => "pop index out of range"
  | .jobRange => "Python int too large to convert to C ssize_t"

/-- A reply, or why there is none, with the change that is announced if there is one. -/
structure Response where
  reply : Except DeskError Reply
  change : Option Change
deriving Repr

namespace Response

def plain (r : Reply) : Response := ⟨.ok r, none⟩

def failed (e : DeskError) : Response := ⟨.error e, none⟩

end Response

namespace Desk

def start (d : Document) (config : Config) : Desk := ⟨Session.start d config, [], []⟩

def ticket (d : Desk) (i : Int) : Except DeskError Ticket :=
  if !isWord i then .error .ticketRange
  else match (placeIn d.tickets i).bind (d.tickets[·]?) with
    | some t => .ok t
    | none => .error .noTicket

/-- The report on a ticket. -/
def reportOn (d : Desk) (i : Int) : Except DeskError Report := do
  let t ← d.ticket i
  t.verify.mapError .missing

/-- Takes a pass off the queue. -/
def take (d : Desk) (job : Int) : Except DeskError (Ticket × Desk) :=
  if !isWord job then .error .jobRange
  else if d.queue.isEmpty then .error .emptyQueue
  else match placeIn d.queue job with
    | none => .error .noJob
    | some i =>
      match d.queue[i]? with
      | none => .error .noJob
      | some t => .ok (t, { d with queue := d.queue.eraseIdx i })

def withSession (d : Desk) (s : Session) : Desk := { d with session := s }

def complete (d : Desk) (ticket reportOf : Int) : Except DeskError (Desk × Bool) := do
  let t ← d.ticket ticket
  let r ← d.reportOn reportOf
  let (s, published) := d.session.complete t r
  return (d.withSession s, published)

/-- Runs a pass to its end. Nothing is published where it comes to no report. -/
def finish (d : Desk) (t : Ticket) : Desk × Response :=
  match t.verify with
  | .error m => (d, .failed (.missing m))
  | .ok r => (d.withSession (d.session.complete t r).1, .plain .nothing)

def handle (d : Desk) : Request → Desk × Response
  | .edit e =>
    match d.session.edit e with
    | .error e => (d, .failed (.edit e))
    | .ok (s, change, .line l) => (d.withSession s, ⟨.ok (.line l), some change⟩)
    | .ok (s, change, .removed ns) => (d.withSession s, ⟨.ok (.numbers ns), some change⟩)
  | .setGoal goal =>
    match Document.readGoal ((goal.map Json.str).getD .null) with
    | .error e => (d, .failed (.goal e))
    | .ok g => (d.withSession (d.session.setGoal g), .plain .nothing)
  | .setConfig data =>
    match Config.ofJson data with
    | .error e => (d, .failed (.config e))
    | .ok c => (d.withSession (d.session.setConfig c), .plain (.config c))
  | .run =>
    match d.session.run with
    | (s, .error m) => (d.withSession s, .failed (.missing m))
    | (s, .ok r) => (d.withSession s, .plain (.report r))
  | .display => (d, .plain (.diagnostics d.session.diagnostics))
  | .begin =>
    let (s, t) := d.session.begin
    ({ d with session := s, tickets := d.tickets ++ [t] }, .plain (.count t.number))
  | .complete ticket reportOf =>
    match d.complete ticket reportOf with
    | .error e => (d, .failed e)
    | .ok (d, published) => (d, .plain (.flag published))
  | .verifyTicket i =>
    match d.reportOn i with
    | .error e => (d, .failed e)
    | .ok r => (d, .plain (.report r))
  | .defer =>
    let (s, t) := d.session.begin
    ({ d with session := s, queue := d.queue ++ [t] }, .plain (.count (d.queue.length + 1)))
  | .work job =>
    match d.take job with
    | .error e => (d, .failed e)
    | .ok (t, d) => d.finish t
  | .cancel job =>
    match d.take job with
    | .error e => (d, .failed e)
    | .ok (_, d) => (d, .plain (.flag true))
  | .fail job =>
    match d.take job with
    | .error e => (d, .failed e)
    | .ok (_, d) => (d, .plain .nothing)

end Desk

end ModalFitch
