import Workflow.Checkpoint.Store
import Workflow.Command
import Workflow.Command.Report
import Workflow.DryRun
import Workflow.Run
import Workflow.Settings

/-!
# Carrying out commands

`Invocation.execute` carries out a command on the files of a project. Runs are dry runs: prompts are
composed and every step is reported, but nothing is dispatched. A run that pauses is saved, so that
it can be resumed.
-/

namespace Workflow

open Json (Value)

/-- Where a command is carried out. -/
structure Surroundings where
  files : Files
  /-- The root folder of the project, unless the command names one. -/
  root : String := files.homePath
  /-- The folder with the data of the program. -/
  dataFolder : String
  /-- The identifier and the time of a run, should there be one. -/
  runId : Uuid
  time : Instant

/-- What a command leaves behind: its exit code, the lines it prints and those it says on the side,
and the files. -/
structure Outcome where
  exit : Nat := 0
  output : List String := []
  asides : List String := []
  files : Files

namespace Outcome

def fail (o : Outcome) (message : String) : Outcome :=
  { o with exit := 1, asides := o.asides ++ ["Error: " ++ message] }

def print (o : Outcome) (lines : List String) : Outcome := { o with output := o.output ++ lines }

def printValue (o : Outcome) (v : Value) : Outcome := o.print [v.pretty]

end Outcome

/-- The project that a command is about. -/
structure Project where
  settings : Settings
  layout : Layout

namespace Project

def load (s : Surroundings) (root : String) : Except SettingsError Project := do
  let settings ← Settings.load s.files root
  return ⟨settings, .of root s.dataFolder settings⟩

/-- What the project provides for a run. -/
def host (p : Project) (s : Surroundings) (choices : RunChoices) : Host where
  files := s.files
  tiers := p.layout.tiers
  options :=
    { skippedSteps := choices.skippedSteps
      skipChecks := choices.skipChecks
      worktree := choices.worktree.or p.settings.worktree
      branch := choices.branch
      specPath := choices.spec
      stepTimeout := p.settings.stepTimeout }

/-- The paused runs of the project. -/
def store (p : Project) : Checkpoint.Store := ⟨p.layout.checkpointFolder⟩

/-- The paths that a command may look at. -/
def paths (p : Project) (c : Command) : List String :=
  [p.layout.projectFolder, p.layout.builtinFolder, p.layout.checkpointFolder] ++
    match c with
    | .validate workflow => [workflow]
    | .run workflow choices => workflow :: choices.spec.toList
    | .resume workflow checkpoint _ choices =>
      workflow :: (checkpoint.toList ++ choices.spec.toList)
    | .resolve _ _ | .completions _ => []

end Project

namespace Command

variable (i : Invocation) (s : Surroundings) (p : Project)

def showWorkflow (o : Outcome) (workflow : String) : Outcome :=
  match Run.load (p.host s {}) workflow with
  | .error e => o.fail e.message
  | .ok d => if i.json then o.printValue d.toValue else o.print (Report.definition d)

def showResolution (o : Outcome) (kind : ArtifactKind) (name : String) : Outcome :=
  match p.layout.tiers.resolve s.files kind name with
  | .error e => o.fail e.message
  | .ok r =>
    if i.json then
      o.printValue (.object [("kind", .string kind.text), ("name", .string name),
        ("path", .string r.path), ("source", .string r.tier.text)])
    else o.print [r.path ++ " from " ++ r.tier.text]

/-- Shows a result, after saving it if the run paused. -/
def showResult (o : Outcome) (d : Definition) (r : RunResult) : Outcome :=
  let saved : Except Checkpoint.StoreError (Option String) × Files :=
    match r.saved? s.time with
    | none => (.ok none, o.files)
    | some saved =>
      let (path, files) := p.store.save o.files saved
      (path.map some, files)
  let o := { o with files := saved.2 }
  match saved.1 with
  | .error e => o.fail e.message
  | .ok path =>
    let o :=
      if i.json then o.printValue (Report.resultDocument r path)
      else if i.verbosity.quiet then o
      else o.print (Report.result d r path)
    if r.status = .failed then o.fail (Report.failure d r) else o

/-- Shows how a run went: what was said before it, its events and how it ended. -/
def showRun (o : Outcome) (d : Definition) (before : List String)
    (run : Except RunError RunResult × DryRun.Log) : Outcome :=
  let o :=
    if i.isTalkative then { o with asides := o.asides ++ before ++ run.2.events.map Report.event }
    else o
  match run.1 with
  | .error e => o.fail e.message
  | .ok r => showResult i s p o d r

def runWorkflow (o : Outcome) (workflow : String) (choices : RunChoices) : Outcome :=
  let host := p.host s choices
  match Run.load host workflow with
  | .error e => o.fail e.message
  | .ok d =>
    showRun i s p o d (Report.starting d)
      (Run.start host DryRun.world s.runId d choices.spec {})

/-- The path of the checkpoint to resume a workflow from, or why there is none. -/
def checkpointPath (d : Definition) (checkpoint : Option String) : Except String String :=
  match checkpoint with
  | some path => .ok path
  | none =>
    match p.store.latest? s.files d.name with
    | .error e => .error e.message
    | .ok (some path) => .ok path
    | .ok none =>
      .error ("no saved checkpoint for '" ++ d.name ++ "' in " ++ p.store.folder ++
        "; pass --checkpoint")

def resumeWorkflow (o : Outcome) (workflow : String) (checkpoint fromPhase : Option String)
    (choices : RunChoices) : Outcome :=
  let host := p.host s choices
  match Run.load host workflow with
  | .error e => o.fail e.message
  | .ok d =>
    match checkpointPath s p d checkpoint with
    | .error message => o.fail message
    | .ok path =>
      match Checkpoint.load s.files path with
      | .error e => o.fail e.message
      | .ok loaded =>
        let fromPhase := fromPhase.or loaded.pausedAt?
        showRun i s p o d (Report.resuming d fromPhase loaded.checkpoint)
          (Run.resume host DryRun.world s.runId d loaded.checkpoint fromPhase {})

end Command

/-- Carries out a command. Completions need no project. -/
def Invocation.execute (i : Invocation) (s : Surroundings) : Outcome :=
  let o : Outcome := { files := s.files }
  match i.command with
  | .completions _ => o
  | command =>
    match Project.load s (i.root.getD s.root) with
    | .error e => o.fail e.message
    | .ok p =>
      match command with
      | .validate workflow => Command.showWorkflow i s p o workflow
      | .resolve kind name => Command.showResolution i s p o kind name
      | .run workflow choices => Command.runWorkflow i s p o workflow choices
      | .resume workflow checkpoint fromPhase choices =>
        Command.resumeWorkflow i s p o workflow checkpoint fromPhase choices
      | .completions _ => o

end Workflow
