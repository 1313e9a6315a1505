import Workflow.Instant
import Workflow.Json.Reader
import Workflow.Run.Result

/-!
# Saved checkpoints

What is written down of a paused run: its checkpoint, the run and workflow it belongs to, and where
and why the run paused. A file may also hold a checkpoint alone, written by hand; it then says
nothing about where to go on.
-/

namespace Workflow

open Json (Value Members RecordField)

/-- The record of a paused run. -/
structure SavedCheckpoint where
  runId : Uuid
  workflow : String
  pausedAt : String
  blocker : Option String := none
  checkpoint : Checkpoint
  savedAt : Instant
  deriving DecidableEq, Repr

/-- The record of a run, if it paused. -/
def RunResult.saved? (r : RunResult) (time : Instant) : Option SavedCheckpoint := do
  if !r.isPaused then none
  let pausedAt ← r.pausedAt
  let checkpoint ← r.checkpoint
  return {
    runId := r.runId, workflow := r.workflow, pausedAt, blocker := r.blocker, checkpoint
    savedAt := time }

namespace SavedCheckpoint

private def savedIdField : RecordField Uuid := ⟨"runId", Uuid.decode, none, []⟩

private def savedWorkflowField : RecordField String := ⟨"workflowName", .text, none, []⟩

private def savedPausedField : RecordField String := ⟨"pausedAtPhase", .text, none, []⟩

private def savedBlockerField : RecordField (Option String) := .optional "blocker" .text

private def savedCheckpointField : RecordField Checkpoint :=
  ⟨"checkpoint", Checkpoint.decode, none, []⟩

private def savedAtField : RecordField Instant := ⟨"savedAt", Instant.decode, none, []⟩

def decode : Json.Decoder SavedCheckpoint := fun v ↦ do
  let fields ← Json.Record.fields "struct SavedCheckpoint"
    [savedIdField.rule, savedWorkflowField.rule, savedPausedField.rule, savedBlockerField.rule,
      savedCheckpointField.rule, savedAtField.rule] v
  return {
    runId := ← Json.Record.get fields savedIdField
    workflow := ← Json.Record.get fields savedWorkflowField
    pausedAt := ← Json.Record.get fields savedPausedField
    blocker := ← Json.Record.get fields savedBlockerField
    checkpoint := ← Json.Record.get fields savedCheckpointField
    savedAt := ← Json.Record.get fields savedAtField }

def toValue (s : SavedCheckpoint) : Value :=
  .object (Members.ofList [
    ("runId", .string s.runId.text), ("workflowName", .string s.workflow),
    ("pausedAtPhase", .string s.pausedAt),
    ("blocker", (s.blocker.map Value.string).getD .null), ("checkpoint", s.checkpoint.toValue),
    ("savedAt", .string s.savedAt.text)])

end SavedCheckpoint

/-- What a checkpoint file holds. -/
inductive LoadedCheckpoint where
  | saved (s : SavedCheckpoint)
  | bare (cp : Checkpoint)
  deriving DecidableEq, Repr

namespace LoadedCheckpoint

def checkpoint : LoadedCheckpoint → Checkpoint
  | saved s => s.checkpoint
  | bare cp => cp

/-- The phase that the run paused at, if the file says so. -/
def pausedAt? : LoadedCheckpoint → Option String
  | saved s => some s.pausedAt
  | bare _ => none

/-- What a document holds: the record of a run, or else a checkpoint alone. -/
def decode (v : Value) : Except Json.DecodeError LoadedCheckpoint :=
  match SavedCheckpoint.decode v with
  | .ok s => .ok (.saved s)
  | .error _ => (Checkpoint.decode v).map bare

/-- What a text holds, if it is a document at all. -/
def parse? (text : String) : Option LoadedCheckpoint :=
  (Json.Value.parse? text).bind fun v ↦ (decode v).toOption

end LoadedCheckpoint

end Workflow
