import Workflow.Checkpoint
import Workflow.Uuid

/-!
# Results of runs

What a run comes to when it is not aborted: all phases were walked, or a loop asked for help and the
run paused with a checkpoint to resume it from.
-/

namespace Workflow

open Json (Value Members RecordField Decoder optionalMember)

/-- How a run ended. -/
inductive RunStatus where
  | completed
  | failed
  | paused
  deriving DecidableEq, Repr

namespace RunStatus

def text : RunStatus → String
  | completed => "completed"
  | failed => "failed"
  | paused => "paused"

def byName : List (String × RunStatus) :=
  [("completed", completed), ("failed", failed), ("paused", paused)]

end RunStatus

/-- The result of a run. -/
structure RunResult where
  runId : Uuid
  workflow : String
  status : RunStatus
  completedPhases : List String
  /-- All variables at the end of the run. -/
  outputs : Members Value
  changedFiles : List String
  /-- The phases that failed in a workflow that goes on after failures. -/
  failedPhases : List String := []
  pausedAt : Option String := none
  blocker : Option String := none
  error : Option String := none
  /-- Where to resume from, if the run paused. -/
  checkpoint : Option Checkpoint := none
  deriving DecidableEq, Repr

namespace RunResult

/-- Whether a run paused. -/
def isPaused (r : RunResult) : Bool := r.status == .paused

/-! ## Documents -/

private def textArray (xs : List String) : Value := .array (xs.map .string)

def toValue (r : RunResult) : Value :=
  .object (Members.ofList (
    [("runId", .string r.runId.text), ("workflowName", .string r.workflow),
      ("status", .string r.status.text), ("completedPhases", textArray r.completedPhases),
      ("outputs", .object r.outputs), ("changedFiles", textArray r.changedFiles)] ++
    (if r.failedPhases.isEmpty then [] else [("failedPhases", textArray r.failedPhases)]) ++
    optionalMember "pausedAtPhase" r.pausedAt ++ optionalMember "blockerDetails" r.blocker ++
    optionalMember "error" r.error ++
    (r.checkpoint.map fun cp ↦ ("checkpoint", cp.toValue)).toList))

private def idField : RecordField Uuid := ⟨"runId", Uuid.decode, none, []⟩

private def workflowField : RecordField String := ⟨"workflowName", .text, none, []⟩

private def statusField : RecordField RunStatus := ⟨"status", .variant RunStatus.byName, none, []⟩

private def phasesField : RecordField (List String) := ⟨"completedPhases", .list .text, none, []⟩

private def outputsField : RecordField (Members Value) := ⟨"outputs", .members, none, []⟩

private def filesField : RecordField (List String) := ⟨"changedFiles", .list .text, none, []⟩

private def failedField : RecordField (List String) := .withDefault "failedPhases" (.list .text) []

private def pausedField : RecordField (Option String) := .optional "pausedAtPhase" .text

private def blockerField : RecordField (Option String) := .optional "blockerDetails" .text

private def errorField : RecordField (Option String) := .optional "error" .text

private def checkpointField : RecordField (Option Checkpoint) :=
  .optional "checkpoint" Checkpoint.decode

def decode : Decoder RunResult := fun v ↦ do
  let fields ← Json.Record.fields "struct RunResult"
    [idField.rule, workflowField.rule, statusField.rule, phasesField.rule, outputsField.rule,
      filesField.rule, failedField.rule, pausedField.rule, blockerField.rule, errorField.rule,
      checkpointField.rule] v
  return {
    runId := ← Json.Record.get fields idField
    workflow := ← Json.Record.get fields workflowField
    status := ← Json.Record.get fields statusField
    completedPhases := ← Json.Record.get fields phasesField
    outputs := ← Json.Record.get fields outputsField
    changedFiles := ← Json.Record.get fields filesField
    failedPhases := ← Json.Record.get fields failedField
    pausedAt := ← Json.Record.get fields pausedField
    blocker := ← Json.Record.get fields blockerField
    error := ← Json.Record.get fields errorField
    checkpoint := ← Json.Record.get fields checkpointField }

end RunResult

end Workflow
