import Workflow.Definition.Document
import Workflow.Step.Error

/-!
# How runs are aborted
-/

namespace Workflow

/-- Why there is no result of a run. -/
inductive RunError where
  | definition (e : DefinitionError)
  | resolution (e : ResolutionError)
  /-- The document that the run is about cannot be read. -/
  | spec (e : LoadError)
  | step (phase : String) (e : StepError)
  /-- The run took longer than its workflow allows. -/
  | timeout (workflow : String) (limit : Nat)
  | announcement (phase reason : String)
  | audit (reason : String)
  | unknownPhase (name : String)
  deriving DecidableEq

namespace RunError

/-- Why a run is aborted in a phase: for the error of the phase, or for the sink that it met. -/
def ofStep (phase : String) : StepError → RunError
  | .audit reason => audit reason
  | e => step phase e

/-- The text on a phase that failed. -/
def phaseFailure (phase reason : String) : String := "phase '" ++ phase ++ "' failed: " ++ reason

def message : RunError → String
  | definition e => e.message
  | resolution e => e.message
  | spec e => "failed to load spec: " ++ e.message
  | step phase e => phaseFailure phase e.message
  | timeout workflow limit =>
    "workflow '" ++ workflow ++ "' exceeded its " ++ toString limit ++ "ms duration limit"
  | announcement phase reason => "phase hook failed after '" ++ phase ++ "': " ++ reason
  | audit reason => Audit.failureText reason
  | unknownPhase name => "phase '" ++ name ++ "' not found in workflow"

/-- Whether a limit on time ended the run. -/
def isSafetyLimit : RunError → Bool
  | timeout .. => true
  | step _ e => e.isSafetyLimit
  | _ => false

/-- Whether the run was cancelled. -/
def isCancelled : RunError → Bool
  | step _ (.cancelled _) => true
  | _ => false

end RunError

end Workflow
