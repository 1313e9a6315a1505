import Workflow.Agent.Document
import Workflow.Audit
import Workflow.Dispatch
import Workflow.Step

/-!
# How steps fail

A step fails for one of the reasons below. A pause is among them: it asks for a person, and the run
can be resumed from it later. `StepError.isFatal` tells the failures that end a run in any case.
-/

namespace Workflow

/-- Why a step did not complete. -/
inductive StepError where
  | dispatch (step reason : String)
  | handler (step id reason : String)
  | unknownHandler (step id : String)
  | missingAgent (step : String)
  | load (step : String) (e : LoadError)
  /-- The path of the tasks leads to no list. -/
  | taskSource (step source reason : String)
  | timeout (step : String) (limit : Nat)
  /-- A loop that has to clear its condition did not. -/
  | exhausted (step blocker : String)
  /-- A loop asks for help. -/
  | paused (step blocker : String)
  | cancelled (step : String)
  | audit (reason : String)
  deriving DecidableEq

namespace StepError

private def inStep (step text : String) : String := "step '" ++ step ++ "'" ++ text

def message : StepError → String
  | dispatch step reason => inStep step (": " ++ Dispatch.failureText reason)
  | handler step id reason => inStep step (": handler '" ++ id ++ "' failed: " ++ reason)
  | unknownHandler step id => inStep step (": no handler registered for '" ++ id ++ "'")
  | missingAgent step => inStep step ": no agent named and the workflow has no default agent"
  | load step e => inStep step (": " ++ e.message)
  | taskSource step source reason =>
    inStep step (": per-task source '" ++ source ++ "' " ++ reason)
  | timeout step limit => inStep step (" timed out after " ++ toString limit ++ "ms")
  | exhausted _ blocker => blocker
  | paused step blocker => "paused at '" ++ step ++ "': " ++ blocker
  | cancelled step => inStep step " cancelled"
  | audit reason => Audit.failureText reason

def isPause : StepError → Bool
  | paused .. => true
  | _ => false

theorem isPause_iff {e : StepError} :
    e.isPause = true ↔ ∃ step blocker, e = paused step blocker := by
  cases e <;> simp [isPause]

/-- Whether an error is the breach of a limit on time. -/
def isSafetyLimit : StepError → Bool
  | timeout .. => true
  | _ => false

/-- Whether an error ends the run even if failing steps do not. -/
def isFatal : StepError → Bool
  | timeout .. | cancelled _ | exhausted .. | audit _ => true
  | _ => false

theorem isPause_of_isFatal {e : StepError} (h : e.isFatal = true) : e.isPause = false := by
  cases e with
  | paused step blocker => cases h
  | _ => rfl

/-- What blocks a loop that has no pass left. -/
def blocker? : StepError → Option String
  | paused _ blocker | exhausted _ blocker => some blocker
  | _ => none

end StepError

end Workflow
