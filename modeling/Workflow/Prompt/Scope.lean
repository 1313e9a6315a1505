import Workflow.Context
import Workflow.Prompt.Reserved
import Workflow.Template

/-!
# What a template sees

A template looks its keys up among the facts about the run first and among the variables of the
context otherwise. A fact hides every variable whose path starts with its name; `lookup_hidden` says
so for literally dotted names as well.
-/

namespace Workflow

open Json (Value Members)

/-- The document that a run was started for. -/
structure SpecDocument where
  path : String
  name : String
  content : String
  deriving DecidableEq, Repr

/-- The facts about a run that every template can show. -/
structure RunFacts where
  spec : Option SpecDocument := none
  worktree : Option String := none
  sessionId : String := ""
  branch : Option String := none
  deriving DecidableEq, Repr

namespace Prompt

def SpecDocument.toValue (s : SpecDocument) : Value :=
  .object [("content", .string s.content), ("name", .string s.name), ("path", .string s.path)]

/-- The facts of a run and of the task at hand, by name. -/
def facts (run : RunFacts) (c : Context) : Members Value :=
  (run.spec.map fun s ↦ ("spec", SpecDocument.toValue s)).toList ++
    (run.worktree.map fun w ↦ ("worktree", Value.string w)).toList ++
    [("sessionId", .string run.sessionId)] ++
    (run.branch.map fun b ↦ ("branch", Value.string b)).toList ++
    match c.task with
    | none => []
    | some t => [("task", t.record), ("taskId", .string t.id), ("taskIndex", .ofNat t.index),
        ("taskCount", .ofNat t.count)]

/-- What a template is rendered over. -/
structure Scope where
  facts : Members Value
  context : Context

namespace Scope

/-- The scope of a run in a context. -/
def of (run : RunFacts) (c : Context) : Scope := ⟨Prompt.facts run c, c⟩

/-- The scope with the input of a step as one more fact. -/
def withInput (s : Scope) (input : Value) : Scope :=
  { s with facts := s.facts.insert "input" input }

/-- Looks a key up. -/
def lookup (s : Scope) (path : String) : Option Value :=
  match s.facts.get? (head path) with
  | some fact => fact.descend (Text.segments path).tail
  | none => s.context.get? path

theorem lookup_hidden {s : Scope} {path : String} {fact : Value}
    (h : s.facts.get? (head path) = some fact) :
    s.lookup path = fact.descend (Text.segments path).tail := by
  simp [lookup, h]

def render (s : Scope) (template : String) : String := Template.render s.lookup template

mutual

/-- Renders every string inside a value. -/
def renderValue (s : Scope) : Value → Value
  | .string t => .string (s.render t)
  | .array xs => .array (renderItems s xs)
  | .object ms => .object (renderMembers s ms)
  | v => v

def renderItems (s : Scope) : List Value → List Value
  | [] => []
  | x :: xs => renderValue s x :: renderItems s xs

def renderMembers (s : Scope) : List (String × Value) → List (String × Value)
  | [] => []
  | (k, x) :: ms => (k, renderValue s x) :: renderMembers s ms

end

end Scope

end Prompt

end Workflow
