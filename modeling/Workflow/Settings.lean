import Workflow.Artifact
import Workflow.Toml.Document

/-!
# Settings of a project

A project may have a file with settings in its root folder; without one, and for every setting that
it leaves out, there are defaults. A file that cannot be understood is an error, since a setting
with a slip in it must not be passed over. The layout of a project says where its folders are, with
relative paths taken from the root.
-/

namespace Workflow

open Json (Members)

structure Settings where
  /-- The folder with the workflows, agents and prompts of the project. -/
  projectFolder : String := ".phaseflow"
  /-- The folder with the built-in ones. -/
  builtinFolder : Option String := none
  /-- The folder that agents work in. -/
  worktree : Option String := none
  /-- The limit on each call, in milliseconds, for workflows that declare none. -/
  stepTimeout : Option Nat := none
  /-- The folder where paused runs are saved. -/
  checkpointFolder : String := ".phaseflow/checkpoints"
  deriving DecidableEq, Repr

/-- Why there are no settings. -/
inductive SettingsError where
  | unreadable (path : String)
  | malformed (path : String)
  deriving DecidableEq, Repr

def SettingsError.message : SettingsError → String
  | unreadable path => "failed to read " ++ path
  | malformed path => "failed to parse " ++ path

namespace Settings

def fileName : String := "phaseflow.toml"

/-- A text under a name, if the name is given at all. -/
def text? (table : Members Toml.Value) (name : String) : Option (Option String) :=
  match table.get? name with
  | none => some none
  | some (.string s) => some (some s)
  | some _ => none

/-- A number of at most 64 bits under a name, if the name is given at all. -/
def natural? (table : Members Toml.Value) (name : String) : Option (Option Nat) :=
  match table.get? name with
  | none => some none
  | some (.integer n) => if 0 ≤ n then some (some n.toNat) else none
  | some _ => none

/-- The settings in a document. Other names are passed over. -/
def ofTable? (table : Members Toml.Value) : Option Settings := do
  let defaults : Settings := {}
  return {
    projectFolder := (← text? table "project_dir").getD defaults.projectFolder
    builtinFolder := ← text? table "builtin_dir"
    worktree := ← text? table "worktree"
    stepTimeout := ← natural? table "default_step_timeout_ms"
    checkpointFolder := (← text? table "checkpoint_dir").getD defaults.checkpointFolder }

/-- The settings of the project in a folder. -/
def load (fs : Files) (root : String) : Except SettingsError Settings :=
  let path := Path.join root fileName
  match fs.read path with
  | .error .notFound => .ok {}
  | .error _ => .error (.unreadable path)
  | .ok text =>
    match (Toml.parse? text).bind ofTable? with
    | some settings => .ok settings
    | none => .error (.malformed path)

end Settings

/-- Where the folders of a project are. -/
structure Layout where
  projectFolder : String
  builtinFolder : String
  checkpointFolder : String
  deriving DecidableEq, Repr

namespace Layout

/-- The layout of the project in a folder. The built-in artifacts come with the data of the program
unless the settings say otherwise. -/
def of (root dataFolder : String) (settings : Settings) : Layout where
  projectFolder := Path.join root settings.projectFolder
  builtinFolder :=
    match settings.builtinFolder with
    | some folder => Path.join root folder
    | none => Path.join dataFolder "builtin"
  checkpointFolder := Path.join root settings.checkpointFolder

/-- The folders that names are looked up in. -/
def tiers (l : Layout) : Tiers := ⟨l.projectFolder, some l.builtinFolder⟩

end Layout

end Workflow
