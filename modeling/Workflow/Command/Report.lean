import Workflow.Audit
import Workflow.Definition
import Workflow.Run.Result
import Workflow.Text.Table

/-!
# What commands say

The lines that commands print for people: the phases of a workflow, the progress of a run and its
result.
-/

namespace Workflow.Command.Report

open Json (Value Members)

/-! ## Workflows -/

/-- What a step does, in one line. -/
def summary : Step → String
  | .agent s =>
    ", ".intercalate (
      (s.agent.map ("agent " ++ ·)).toList ++ (s.prompt.map ("prompt " ++ ·)).toList ++
      (s.condition.map ("if " ++ ·)).toList ++ if s.enabled then [] else ["disabled"])
  | .code s => "handler " ++ s.handler
  | .parallel _ ss => toString ss.length ++ " concurrent steps"
  | .loop l _ =>
    "while " ++ l.condition ++ " (max " ++ toString l.maxRetries ++ ", then " ++
      l.onExhausted.text ++ ")"
  | .perTask p _ => "for each task in " ++ p.source

/-- The table of the phases of a workflow. -/
def definitionTable (d : Definition) : List String :=
  Text.Table.lines ["#", "Phase", "Type", "Details"]
    (d.phases.zipIdx.map fun (p, i) ↦ [toString (i + 1), p.name, p.kind.text, summary p])

/-- What is said of a workflow that is valid. -/
def definition (d : Definition) : List String :=
  let limit (label : String) (ms : Option Nat) : List String :=
    (ms.map fun ms ↦ "  " ++ label ++ ": " ++ toString ms ++ "ms").toList
  ["", "  ✓ Workflow '" ++ d.name ++ "' v" ++ d.version ++ " is valid"] ++
    (d.defaults.agent.map ("  Default agent: " ++ ·)).toList ++
    (match d.safety with
      | some s =>
        limit "Duration limit" s.maxWorkflowDurationMs ++ limit "Step timeout" s.maxStepTimeoutMs ++
          if s.failOnStepError then [] else ["  Continues past failing phases"]
      | none => []) ++
    "" :: definitionTable d ++ [""]

/-! ## Progress -/

/-- The mark of a status. -/
def mark : Audit.Status → String
  | .started => "▸"
  | .completed => "✓"
  | .failed => "✗"
  | .skipped => "-"
  | .paused => "‖"

/-- What an event says of itself, besides the step and the status. -/
def detail? (e : Audit.Event) : Option String :=
  let text (name : String) : Option String := (e.metadata.get? name).bind (·.string?)
  match e.status with
  | .started => none
  | .completed =>
    (((e.metadata.get? "durationMs").bind (·.number?)).bind (·.toNat?)).map fun ms ↦
      toString ms ++ "ms"
  | .failed => text "error"
  | .skipped => text "reason"
  | .paused => text "blocker"

/-- The line of an event. -/
def event (e : Audit.Event) : String :=
  "  " ++ mark e.status ++ " " ++ e.step ++ ((detail? e).map (" " ++ ·)).getD ""

/-- What is said before a run. -/
def starting (d : Definition) : List String :=
  ["", "  Running '" ++ d.name ++ "' (" ++ toString d.phases.length ++ " phases, dry run)", ""]

/-- What is said before a run is resumed. -/
def resuming (d : Definition) (fromPhase : Option String) (cp : Checkpoint) : List String :=
  ["", "  Resuming '" ++ d.name ++ "' from " ++ fromPhase.getD "the first phase" ++ " (" ++
    toString cp.completedPhases.length ++ " phases already completed)", ""]

/-! ## Results -/

/-- What became of a phase. -/
def phaseStatus (r : RunResult) (phase : String) : String :=
  if r.completedPhases.contains phase then "completed"
  else if r.failedPhases.contains phase then "failed"
  else if r.pausedAt = some phase then "paused"
  else "-"

/-- The table of the phases of a run. -/
def resultTable (d : Definition) (r : RunResult) : List String :=
  Text.Table.lines ["Phase", "Type", "Status", "Output"]
    (d.phases.map fun p ↦
      [p.name, p.kind.text, phaseStatus r p.name,
        (p.outputKey.filter (r.outputs.contains ·)).getD "-"])

/-- What is said of a result, with the path of the checkpoint if one was saved. -/
def result (d : Definition) (r : RunResult) (saved : Option String) : List String :=
  "" :: resultTable d r ++
    ["", "  Status: " ++ r.status.text, "  Run ID: " ++ r.runId.text] ++
    (if r.changedFiles.isEmpty then []
     else "  Changed files:" :: r.changedFiles.map ("    " ++ ·)) ++
    (r.blocker.map ("  Blocker: " ++ ·)).toList ++
    (match saved with
      | some path => ["  Checkpoint: " ++ path,
          "  Resume with: phaseflow resume " ++ d.name ++ " --checkpoint " ++ path]
      | none => []) ++
    [""]

/-- The document of a result, with the path of the checkpoint if one was saved. -/
def resultDocument (r : RunResult) (saved : Option String) : Value :=
  match r.toValue, saved with
  | .object ms, some path => .object (Members.insert "checkpointPath" (.string path) ms)
  | v, _ => v

/-- What is said of a result that is a failure. -/
def failure (d : Definition) (r : RunResult) : String :=
  "workflow '" ++ d.name ++ "' failed: " ++ r.error.getD "one or more phases failed"

end Workflow.Command.Report
