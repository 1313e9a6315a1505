import Workflow.Command
import Workflow.Command.Grammar

/-!
# The arguments of the program

The grammar of every command, and `Invocation.ofArguments`, which reads a command line. Options that
hold for every command may stand before its name and after it; what stands after it counts.
-/

namespace Workflow

namespace Command

def programName : String := "phaseflow"

def globalOptions : List OptionRule :=
  [ { long := "json", arity := .flag
      summary := "Output machine-readable JSON instead of styled text" },
    { long := "quiet", arity := .flag, summary := "Suppress all output except errors" },
    { long := "verbose", short := some 'v', arity := .count
      summary := "Detailed output (-v for verbose, -vv for debug/trace)" },
    { long := "otel", arity := .flag
      summary := "Export tracing spans through OpenTelemetry (stdout exporter)" },
    { long := "root", arity := .value "ROOT", isPath := true
      summary :=
        "Project root holding \x60phaseflow.toml\x60 (defaults to the current directory)" }]

def runOptions : List OptionRule :=
  [ { long := "spec", arity := .value "SPEC", isPath := true
      summary := "Spec document exposed to prompts as \x60\x7b\x7b spec.* \x7d\x7d\x60" },
    { long := "skip-step", arity := .values "SKIP_STEPS"
      summary := "Skip the agent step with this name (repeatable)" },
    { long := "skip-checks", arity := .flag
      summary := "Skip agent steps named like reviews or checks" },
    { long := "worktree", arity := .value "WORKTREE", isPath := true
      summary := "Working directory handed to every task" },
    { long := "branch", arity := .value "BRANCH"
      summary := "Branch name exposed to prompts as \x60\x7b\x7b branch \x7d\x7d\x60" }]

/-- The options of a command that resumes a run, before those of every run. -/
def resumeOptions : List OptionRule :=
  [ { long := "checkpoint", arity := .value "CHECKPOINT", isPath := true
      summary := "Checkpoint file (defaults to the newest saved for this workflow)" },
    { long := "from", arity := .value "FROM_PHASE"
      summary := "Phase to restart at (defaults to the phase the run paused at)" }]

/-- The operand that refers to a workflow. -/
def workflowOperand : OperandRule :=
  { name := "WORKFLOW", summary := "Workflow name or path to a definition file" }

/-- The grammar of the program before the name of a command. -/
def programGrammar : Grammar where
  name := programName
  summary := "Command-line front end for the phaseflow workflow engine"
  options := globalOptions
  operands := []

def grammars : List Grammar :=
  [ { name := "validate", summary := "Validate a workflow and show its phases"
      options := globalOptions, operands := [workflowOperand] },
    { name := "resolve", summary := "Show which file a name resolves to, and from which tier"
      options := globalOptions
      operands := [{ name := "KIND", choices := ArtifactKind.byName.map (·.1) },
        { name := "NAME" }] },
    { name := "run", summary := "Run a workflow from its first phase"
      options := runOptions ++ globalOptions, operands := [workflowOperand] },
    { name := "resume", summary := "Resume a paused run from a checkpoint file"
      options := resumeOptions ++ runOptions ++ globalOptions, operands := [workflowOperand] },
    { name := "completions", summary := "Generate shell completions"
      options := globalOptions
      operands := [{ name := "SHELL", choices := Shell.byName.map (·.1)
                     summary := "Shell to generate completions for" }] }]

def grammar? (name : String) : Option Grammar := grammars.find? fun g ↦ g.name == name

/-- The name of the command that shows help. -/
def helpName : String := "help"

def names : List String := grammars.map (·.name) ++ [helpName]

/-- The choices for a run among what is given. -/
def runChoices (g : Given) : RunChoices where
  spec := g.value? "spec"
  skippedSteps := g.values "skip-step"
  skipChecks := g.has "skip-checks"
  worktree := g.value? "worktree"
  branch := g.value? "branch"

/-- The command of a name with what is given. -/
def ofGiven? (name : String) (g : Given) : Option Command :=
  match name, g.operands with
  | "validate", [workflow] => some (validate workflow)
  | "resolve", [kind, artifact] =>
    (ArtifactKind.byName.lookup kind).map fun kind ↦ resolve kind artifact
  | "run", [workflow] => some (run workflow (runChoices g))
  | "resume", [workflow] =>
    some (resume workflow (g.value? "checkpoint") (g.value? "from") (runChoices g))
  | "completions", [shell] => (Shell.byName.lookup shell).map completions
  | _, _ => none

/-- Why there is no command to carry out, with the name of the command that help or the version is
about, if it is about one. -/
structure Refusal where
  command : Option String := none
  halt : Halt
  deriving DecidableEq, Repr

/-- What is asked of the command that shows help: the help of the program or of one command. -/
def helpFor : List String → Refusal
  | [] => ⟨none, .help⟩
  | [name] =>
    if names.contains name then ⟨some name, .help⟩ else ⟨none, .usage (.unknownCommand name)⟩
  | name :: next :: _ =>
    ⟨none, .usage (.unknownCommand (if names.contains name then next else name))⟩

end Command

/-- The command that arguments ask for. -/
def Invocation.ofArguments (arguments : List String) : Except Command.Refusal Invocation := do
  let (before, rest) ←
    (Command.programGrammar.scan Command.names false {} arguments).mapError (⟨none, ·⟩)
  match rest with
  | [] => throw ⟨none, .usage .noCommand⟩
  | name :: rest =>
    match Command.grammar? name with
    | none => throw (Command.helpFor rest)
    | some g =>
      let given ← (g.scanAll rest).mapError (⟨some name, ·⟩)
      match Command.ofGiven? name given with
      | none => throw ⟨some name, .usage .noCommand⟩
      | some command =>
        let raised := (given.values "verbose").length
        return {
          command
          json := before.has "json" || given.has "json"
          verbosity := {
            raised := min 255 (if raised = 0 then (before.values "verbose").length else raised)
            quiet := before.has "quiet" || given.has "quiet" }
          traced := before.has "otel" || given.has "otel"
          root := (given.value? "root").or (before.value? "root") }

end Workflow
