import Workflow.Artifact

/-!
# Commands

What the program can be told to do, with the choices that hold for every command.
-/

namespace Workflow

/-- How much the program logs on the side. -/
structure Verbosity where
  /-- How many times more detail was asked for. -/
  raised : Nat := 0
  quiet : Bool := false
  deriving DecidableEq, Repr

/-- What is logged. Asking for detail goes before asking for quiet. -/
def Verbosity.filter (v : Verbosity) : String :=
  match v.raised with
  | 0 => if v.quiet then "error" else "warn"
  | 1 => "info,phaseflow_core=debug"
  | _ => "trace"

/-- The shells that completions can be made for. -/
inductive Shell where
  | bash
  | elvish
  | fish
  | powershell
  | zsh
  deriving DecidableEq, Repr

def Shell.byName : List (String × Shell) :=
  [("bash", bash), ("elvish", elvish), ("fish", fish), ("powershell", powershell), ("zsh", zsh)]

/-- The choices for a run or for resuming one. -/
structure RunChoices where
  spec : Option String := none
  skippedSteps : List String := []
  skipChecks : Bool := false
  worktree : Option String := none
  branch : Option String := none
  deriving DecidableEq, Repr

/-- What to do. -/
inductive Command where
  | validate (workflow : String)
  | resolve (kind : ArtifactKind) (name : String)
  | run (workflow : String) (choices : RunChoices)
  /-- The latest checkpoint is taken unless there is a path to one, and the run goes on where it
  paused unless there is a phase. -/
  | resume (workflow : String) (checkpoint fromPhase : Option String) (choices : RunChoices)
  | completions (shell : Shell)
  deriving DecidableEq, Repr

/-- A command with the choices that hold for every command. -/
structure Invocation where
  command : Command
  json : Bool := false
  verbosity : Verbosity := {}
  /-- Whether traces of the run are exported. -/
  traced : Bool := false
  /-- The root folder of the project; the working folder when absent. -/
  root : Option String := none
  deriving DecidableEq, Repr

/-- Whether a run tells on the side what it does. -/
def Invocation.isTalkative (i : Invocation) : Bool := !i.json && !i.verbosity.quiet

end Workflow
