import Workflow.Json.Path
import Workflow.Text.NameSet

/-!
# The context of a run

All the state that flows between steps: the named variables, the phases completed so far, the files
changed so far and the task at hand. A per-task step works on a fork of the context and folds it
back with `Context.merge`, which never touches a variable that the parent holds.
-/

namespace Workflow

open Json (Value Members)

/-- The element of a task list at hand, and its place in the list. -/
structure Task where
  id : String
  index : Nat
  count : Nat
  record : Value
  deriving DecidableEq, Repr

/-- The state of a run. -/
structure Context where
  vars : Members Value := []
  /-- Completed phases in the order of their completion, without repetition. -/
  completedPhases : List String := []
  changedFiles : Text.NameSet := []
  task : Option Task := none
  /-- The task that a pause happened in. No template sees it. -/
  pausedTask : Option String := none
  deriving DecidableEq, Repr

namespace Context

/-- The context a run starts from. -/
def empty : Context := {}

/-! ## Variables -/

/-- Looks a dotted path up. A variable whose name is the whole path comes first. -/
def get? (c : Context) (path : String) : Option Value :=
  match c.vars.get? path with
  | some v => some v
  | none =>
    match Text.segments path with
    | [] => none
    | root :: rest => (c.vars.get? root).bind (·.descend rest)

def set (c : Context) (name : String) (v : Value) : Context :=
  { c with vars := c.vars.insert name v }

def contains (c : Context) (name : String) : Bool := c.vars.contains name

/-! ## Phases and files -/

/-- Whether a phase is completed. -/
def isCompleted (c : Context) (phase : String) : Bool := c.completedPhases.contains phase

/-- Records a phase as completed, once. -/
def markCompleted (c : Context) (phase : String) : Context :=
  if c.isCompleted phase then c
  else { c with completedPhases := c.completedPhases ++ [phase] }

/-- Records a file as changed. -/
def addFile (c : Context) (path : String) : Context :=
  { c with changedFiles := c.changedFiles.insert path }

def addFiles (c : Context) (paths : List String) : Context := paths.foldl addFile c

/-- Remembers the task a pause happened in. -/
def markPaused (c : Context) (task : String) : Context := { c with pausedTask := some task }

/-! ## Forks -/

/-- The context one task is worked on in. -/
def fork (c : Context) (task : Task) : Context := { c with task := some task, pausedTask := none }

/-- Folds a fork back: its new variables and its files are added, and nothing else changes. -/
def merge (c child : Context) : Context :=
  { c with
    vars := c.vars.union child.vars
    changedFiles := c.changedFiles.insertAll child.changedFiles }

end Context

end Workflow
