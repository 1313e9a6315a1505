import Workflow.Audit.Entry

/-!
# Sinks of the audit trail

A sink takes entries one at a time, in the order in which they are reported, or fails with a reason.
-/

namespace Workflow.Audit

/-- What takes entries, with a state of type `σ`. -/
structure Sink (σ : Type) where
  record : Entry → σ → Except String σ

/-- A queue between the run and someone who reads the trail, for as long as they do. -/
structure Channel where
  isOpen : Bool := true
  queued : List Entry := []
  deriving DecidableEq, Repr

namespace Sink

def null : Sink Unit where
  record _ _ := .ok ()

def memory : Sink (List Entry) where
  record e es := .ok (es ++ [e])

/-- Queues entries until nobody reads them any more. -/
def channel : Sink Channel where
  record e c :=
    if c.isOpen then .ok { c with queued := c.queued ++ [e] }
    else .error "audit receiver dropped"

/-- Asks a function why it refuses an entry, if it does. -/
def ofRefusal (refuse : Entry → Option String) : Sink Unit where
  record e _ :=
    match refuse e with
    | none => .ok ()
    | some reason => .error reason

end Sink

end Workflow.Audit
