import Workflow.Process.World
import Workflow.Rehearsal.Script

/-!
# Rehearsals

A rehearsal is a world that follows a script in a time of its own. Time passes only while a process
waits, and then it goes straight to the call that ends first. Everything that was asked is noted
with its time.
-/

namespace Workflow.Rehearsal

open Json (Value)

/-- Something that a handler or the host was told. -/
inductive Note where
  | handler (id : String) (time : Nat) (input : Option Value)
  | phase (name : String) (completed : List String)

/-- A call that has begun. -/
structure Pending where
  ticket : Ticket
  due : Nat
  settlement : Settlement

/-- The state of a rehearsal. -/
structure Stage where
  script : Script := {}
  now : Nat := 0
  /-- The time after which nothing is settled any more. -/
  deadline : Option Nat := none
  /-- The time from which on every call is cancelled. -/
  cancelAt : Option Nat := none
  pending : List Pending := []
  tickets : Nat := 0
  dispatches : List (Nat × Dispatch.Request) := []
  notes : List Note := []
  events : List (Nat × Audit.Event) := []

namespace Stage

/-- Whether the run is cancelled by now. -/
def isCancelled (x : Stage) : Bool := x.cancelAt.any (· ≤ x.now)

/-- When and how a call ends that would take some time. Of ends at one time, cancelling comes
first and the limit last. -/
def ending (x : Stage) (limit : Option Nat) (time : Nat) (reply : Reply) : Nat × Settlement :=
  let answered :=
    match limit with
    | some limit =>
      if limit < time then (x.now + limit, Settlement.timedOut limit)
      else (x.now + time, .replied reply)
    | none => (x.now + time, .replied reply)
  match x.cancelAt with
  | some t => if t ≤ answered.1 then (t, .cancelled) else answered
  | none => answered

/-- Begins a call that takes some time. -/
def launch (x : Stage) (limit : Option Nat) (time : Nat) (reply : Reply) : Beginning × Stage :=
  if time = 0 then (.settled (.replied reply), x)
  else
    let (due, settlement) := x.ending limit time reply
    (.pending x.tickets,
      { x with
        tickets := x.tickets + 1
        pending := x.pending ++ [⟨x.tickets, due, settlement⟩] })

/-- Begins a call. A request is composed and noted even if it is cancelled at once; a handler is
then not called any more. -/
def call (x : Stage) (c : Call) (limit : Option Nat) : Beginning × Stage :=
  match c with
  | .dispatch r =>
    let ((time, reply), script) := x.script.dispatch r
    let x := { x with script, dispatches := x.dispatches ++ [(x.now, r)] }
    if x.isCancelled then (.settled .cancelled, x) else x.launch limit time reply
  | .handler id c input =>
    if x.isCancelled then (.settled .cancelled, x)
    else
      let ((time, reply), script) := x.script.handle id c input
      { x with script, notes := x.notes ++ [Note.handler id x.now input] }.launch limit time reply

/-- The call among some that ends first; of two at one time the one that began first. -/
def first? (tickets : List Ticket) (x : Stage) : Option Pending :=
  (x.pending.filter fun p ↦ p.ticket ∈ tickets).foldl
    (fun best p ↦
      match best with
      | some b => if p.due < b.due then some p else some b
      | none => some p) none

/-- Goes to the end of the call that ends first, unless the deadline comes before. -/
def settle (tickets : List Ticket) (x : Stage) : Option (Ticket × Settlement) × Stage :=
  match x.first? tickets with
  | none => (none, x)
  | some p =>
    -- what ends at the deadline itself is still settled
    match x.deadline.filter (· < p.due) with
    | some t => (none, { x with now := t })
    | none =>
      (some (p.ticket, p.settlement),
        { x with now := p.due, pending := x.pending.filter fun q ↦ q.ticket != p.ticket })

/-- Takes an event, unless the sink is scripted to fail at it. -/
def report (e : Audit.Event) (x : Stage) : Option String × Stage :=
  match x.script.sinkFailure with
  | some (step, status, reason) =>
    if e.step == step && e.status == status then (some reason, x)
    else (none, { x with events := x.events ++ [(x.now, e)] })
  | none => (none, { x with events := x.events ++ [(x.now, e)] })

def announce (phase : String) (c : Context) (x : Stage) : Option String × Stage :=
  (x.script.hostFailures.get? phase,
    { x with notes := x.notes ++ [.phase phase c.completedPhases] })

/-- A stage at the beginning of a run, with the script as it has been left. -/
def restart (x : Stage) (cancelAt : Option Nat) : Stage := { script := x.script, cancelAt }

end Stage

def world : World Stage where
  report := Stage.report
  clock := Stage.now
  announce := Stage.announce
  call c limit x := x.call c limit
  limit ms x := { x with deadline := some (x.now + ms) }
  settle := Stage.settle

end Workflow.Rehearsal
