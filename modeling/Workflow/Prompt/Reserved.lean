import Workflow.Text.Split

/-!
# Names that templates define themselves

Inside a template these names stand for facts about the run, so no step may write a variable under
one of them or below it.
-/

namespace Workflow.Prompt

/-- The names that templates define themselves. -/
def reservedNames : List String :=
  ["spec", "worktree", "sessionId", "branch", "input", "task", "taskId", "taskIndex", "taskCount"]

/-- The part of a path before its first dot. -/
def head (path : String) : String := String.ofList (path.toList.takeWhile (· != '.'))

/-- Whether a template would read a path from the facts about the run. -/
def isReserved (path : String) : Bool := reservedNames.contains (head path)

end Workflow.Prompt
