import Workflow.Process.World
import Workflow.Run.Error
import Workflow.Run.Result
import Workflow.Step.Behaviour

/-!
# Runs of workflows

A run walks the phases of a workflow in their order, from the first one or from where a paused run
left off, and never runs a phase that is completed already. `Run.walk` is that walk as a process;
`Run.start` and `Run.resume` carry it out in a world and sum it up.
-/

namespace Workflow

open Json (Value Members)

/-- What the host chooses for a run, apart from the workflow. -/
structure RunOptions where
  skippedSteps : List String := []
  skipChecks : Bool := false
  worktree : Option String := none
  /-- What templates see as the session; the id of the run when absent. -/
  sessionId : Option String := none
  branch : Option String := none
  /-- The document that templates see when a run is resumed. -/
  specPath : Option String := none
  /-- The limit on each call for workflows that declare none. -/
  stepTimeout : Option Nat := none

/-- What a host provides for its runs. -/
structure Host where
  files : Files
  tiers : Tiers
  handlers : List String := []
  options : RunOptions := {}

/-- How a walk through the phases ended. -/
inductive Walk where
  /-- With the phases that failed and the texts of their errors. -/
  | finished (failed : List (String × String))
  | paused (phase blocker : String)
  deriving DecidableEq, Repr

namespace Run

/-! ## Phases -/

/-- What a host hears after a phase, and what it may answer. -/
def announcing (phase : String) (next : Process Context (Except RunError Walk)) :
    Process Context (Except RunError Walk) :=
  .read fun c ↦ .announce phase c fun
    | none => next
    | some reason => .done (.error (.announcement phase reason))

/-- The report of a phase that is completed already. -/
def passed (phase : String) : Audit.Event :=
  .make phase .skipped [("reason", .string "completed in previous run")]

/-- Goes past a phase that is completed already, and reports that. -/
def passing (phase : String) (next : Process Context (Except RunError Walk)) :
    Process Context (Except RunError Walk) :=
  .report (passed phase) fun
    | none => next
    | some reason => .done (.error (.audit reason))

/-- Goes on after a phase, with the phases that have failed by then, or ends the walk with it. The
first pause ends the walk, and so does an error, unless the workflow goes on after failures and the
error is no fatal one. -/
def proceeding (failFast : Bool) (failed : List (String × String)) (phase : String)
    (next : List (String × String) → Process Context (Except RunError Walk)) :
    Except StepError StepStatus → Process Context (Except RunError Walk)
  | .ok .completed => .write (·.markCompleted phase) (announcing phase (next failed))
  | .ok .skipped => next failed
  | .error e =>
    if e.isPause then .done (.ok (.paused phase (e.blocker?.getD "")))
    else if failFast || e.isFatal then .done (.error (.ofStep phase e))
    else next (failed ++ [(phase, e.message)])

/-- Walks phases. Those that are completed are passed over. -/
def walk (env : Environment) (failFast : Bool) :
    List (String × String) → List Step → Process Context (Except RunError Walk)
  | failed, [] => .done (.ok (.finished failed))
  | failed, phase :: phases =>
    .read fun c ↦
      if c.isCompleted phase.name then passing phase.name (walk env failFast failed phases)
      else
        (phase.process env).bind
          (proceeding failFast failed phase.name fun failed ↦ walk env failFast failed phases)

/-! ## Results -/

/-- The result of a walk that left a context. -/
def result (runId : Uuid) (d : Definition) (c : Context) (w : Walk) : RunResult :=
  let base : RunResult :=
    { runId, workflow := d.name, status := .completed, completedPhases := c.completedPhases
      outputs := c.vars, changedFiles := c.changedFiles }
  match w with
  | .finished [] => base
  | .finished failed =>
    { base with
      status := .failed
      error := some ("; ".intercalate (failed.map fun (phase, reason) ↦
        RunError.phaseFailure phase reason))
      failedPhases := failed.map (·.1) }
  | .paused phase blocker =>
    -- phases that failed before the pause are not told of
    { base with
      status := .paused
      pausedAt := some phase
      blocker := some blocker
      checkpoint := some c.checkpoint }

/-- What the steps of a run share. -/
def environment (host : Host) (d : Definition) (runId : Uuid) (spec : Option SpecDocument) :
    Environment where
  defaults := d.defaults
  files := host.files
  tiers := host.tiers
  handlers := host.handlers
  facts :=
    { spec, worktree := host.options.worktree
      sessionId := host.options.sessionId.getD runId.text
      branch := host.options.branch }
  skippedSteps := host.options.skippedSteps
  skipChecks := host.options.skipChecks
  stepTimeout := (d.safety.bind (·.maxStepTimeoutMs)).or host.options.stepTimeout
  maxLoopRetries := d.safety.bind (·.maxLoopRetries)

variable {ω : Type}

/-- What a walk comes to that was carried out, or cut off at its limit. -/
def conclude (runId : Uuid) (d : Definition) :
    Option (Except RunError Walk × Context) × ω → Except RunError RunResult × ω
  | (some (.ok ended, c), x) => (.ok (result runId d c ended), x)
  | (some (.error e, _), x) => (.error e, x)
  | (none, x) => (.error (.timeout d.name (d.limit.getD 0)), x)

/-- Walks the phases of a workflow from one of them on, in a world. -/
def execute (host : Host) (w : World ω) (runId : Uuid) (d : Definition) (c : Context)
    (first : Nat) (spec : Option SpecDocument) (x : ω) : Except RunError RunResult × ω :=
  let phases := walk (environment host d runId spec) d.failFast [] (d.phases.drop first)
  conclude runId d (phases.run w c (w.within d.limit x))

/-! ## Starting and resuming -/

/-- Whether a reference to a workflow is a path rather than a name: it has a slash, or the extension
of a document, or leads to a file. -/
def isPath (fs : Files) (reference : String) : Bool :=
  reference.toList.any (fun c ↦ c == '/' || c == '\\') ||
    ["yaml", "yml", "json"].any (fun e ↦ Path.extension? reference == some e) ||
    fs.isFile reference

/-- The workflow that a path or a name refers to. -/
def load (host : Host) (reference : String) : Except RunError Definition := do
  let path ←
    if isPath host.files reference then pure reference
    else do
      let r ← (host.tiers.resolve host.files .workflow reference).mapError RunError.resolution
      pure r.path
  (Definition.load host.files path).mapError .definition

/-- The document at a path, for templates. -/
def loadSpec (fs : Files) (path : Option String) : Except RunError (Option SpecDocument) :=
  path.mapM fun path ↦ do
    let content ← (readDocument fs path).mapError RunError.spec
    return ⟨path, Path.stem path, content⟩

/-- Runs a workflow from its first phase. -/
def start (host : Host) (w : World ω) (runId : Uuid) (d : Definition) (specPath : Option String)
    (x : ω) : Except RunError RunResult × ω :=
  match loadSpec host.files specPath with
  | .error e => (.error e, x)
  | .ok spec => execute host w runId d .empty 0 spec x

/-- The position of the phase that a run is resumed at. -/
def firstPhase (d : Definition) : Option String → Except RunError Nat
  | none => .ok 0
  | some phase =>
    match d.phaseIndex? phase with
    | some i => .ok i
    | none => .error (.unknownPhase phase)

/-- Resumes a workflow from a checkpoint, at a phase or at the first one. -/
def resume (host : Host) (w : World ω) (runId : Uuid) (d : Definition) (cp : Checkpoint)
    (fromPhase : Option String) (x : ω) : Except RunError RunResult × ω :=
  match firstPhase d fromPhase with
  | .error e => (.error e, x)
  | .ok first =>
    match loadSpec host.files host.options.specPath with
    | .error e => (.error e, x)
    | .ok spec => execute host w runId d (.ofCheckpoint cp) first spec x

end Run

end Workflow
