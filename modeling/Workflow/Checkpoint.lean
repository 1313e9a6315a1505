import Workflow.Context
import Workflow.Json.Decode

/-!
# Checkpoints

A checkpoint is what remains of a context between two runs. `Context.checkpoint` takes it and
`Context.restore` continues from it; the record of the task at hand is not kept.
-/

namespace Workflow

open Json (Value Members RecordField Decoder)

/-- The state that a paused run hands to the run that resumes it. -/
structure Checkpoint where
  vars : Members Value := []
  completedPhases : List String := []
  changedFiles : List String := []
  currentTask : Option String := none
  deriving DecidableEq, Repr

namespace Context

/-- The checkpoint of a context. The task at hand comes before one that was paused in. -/
def checkpoint (c : Context) : Checkpoint where
  vars := c.vars
  completedPhases := c.completedPhases
  changedFiles := c.changedFiles
  currentTask := (c.task.map (·.id)).or c.pausedTask

/-- The context that a checkpoint describes. Repeated phases count once, and no task is at hand. -/
def ofCheckpoint (cp : Checkpoint) : Context where
  vars := cp.vars
  completedPhases := (cp.completedPhases.foldl markCompleted empty).completedPhases
  changedFiles := Text.NameSet.ofList cp.changedFiles
  task := none
  pausedTask := cp.currentTask

/-- Puts a checkpoint in place of the whole state. The task of the checkpoint is remembered as one
that was paused in, and none is at hand afterwards. -/
def restore (c : Context) (cp : Checkpoint) : Context :=
  let emptied := { c with vars := cp.vars, completedPhases := [] }
  { cp.completedPhases.foldl markCompleted emptied with
    changedFiles := Text.NameSet.ofList cp.changedFiles
    task := none
    pausedTask := cp.currentTask }

end Context

namespace Checkpoint

/-! ## Documents -/

/-- Variables as a document gives them. Of a repeated name the last value counts. -/
def decodeVariables : Decoder (Members Value) := fun v ↦ Decoder.members v.normalize

private def variablesField : RecordField (Members Value) :=
  .withDefault "variables" decodeVariables []

private def completedField : RecordField (List String) :=
  .withDefault "completedPhases" (.list .text) []

private def changedField : RecordField (List String) := .withDefault "changedFiles" (.list .text) []

private def taskField : RecordField (Option String) := .optional "currentTaskId" .text

def rules : List Json.FieldRule :=
  [variablesField.rule, completedField.rule, changedField.rule, taskField.rule]

def decode : Decoder Checkpoint := fun v ↦ do
  let fields ← Json.Record.fields "struct Checkpoint" rules v
  return {
    vars := ← Json.Record.get fields variablesField
    completedPhases := ← Json.Record.get fields completedField
    changedFiles := ← Json.Record.get fields changedField
    currentTask := ← Json.Record.get fields taskField }

def toValue (cp : Checkpoint) : Value :=
  .object (Members.ofList (
    [("variables", .object cp.vars),
      ("completedPhases", .array (cp.completedPhases.map .string)),
      ("changedFiles", .array (cp.changedFiles.map .string))] ++
    (cp.currentTask.map fun id ↦ ("currentTaskId", Value.string id)).toList))

end Checkpoint

end Workflow
