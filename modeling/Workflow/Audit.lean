import Workflow.Json.Value

/-!
# The audit trail

Every step reports when it starts and how it ends. An event is what is reported; a sink that takes
the events may fail, and a failing sink ends the run.
-/

namespace Workflow.Audit

open Json (Value Members)

/-- What happened to a step. -/
inductive Status where
  | started
  | completed
  | failed
  | skipped
  | paused
  deriving DecidableEq, Repr

namespace Status

def text : Status → String
  | started => "started"
  | completed => "completed"
  | failed => "failed"
  | skipped => "skipped"
  | paused => "paused"

def byName : List (String × Status) :=
  [("started", started), ("completed", completed), ("failed", failed), ("skipped", skipped),
    ("paused", paused)]

end Status

/-- One report of a step. -/
structure Event where
  step : String
  status : Status
  metadata : Members Value := []
  deriving DecidableEq, Repr

/-- An event with metadata in the order of its names. -/
def Event.make (step : String) (status : Status) (metadata : List (String × Value)) : Event :=
  ⟨step, status, Members.ofList metadata⟩

/-- The text of a failure of a sink. -/
def failureText (reason : String) : String := "audit sink failed: " ++ reason

end Workflow.Audit
