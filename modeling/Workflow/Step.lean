import Workflow.Json.Decode

/-!
# Steps

One unit of work: a prompt for an agent, a call of a handler, or a group of further steps that run
side by side, again and again, or once per task. `Step.outputKey` names the variable that a step
writes, and `Step.toValue` is the document form that the validator reads back.
-/

namespace Workflow

open Json (Value Members optionalMember)

/-- The input of an agent step: a template, or values with templates inside. -/
inductive AgentInput where
  | text (template : String)
  | structured (members : Members Value)
  deriving DecidableEq, Repr

/-- A step that sends a composed prompt to an agent. -/
structure AgentStep where
  name : String
  agent : Option String := none
  prompt : Option String := none
  model : Option String := none
  /-- The variable for the result; the name of the step when absent. -/
  output : Option String := none
  input : Option AgentInput := none
  enabled : Bool := true
  /-- The step is skipped unless this condition holds. -/
  condition : Option String := none
  deriving DecidableEq, Repr

/-- A step that calls a handler of the host. -/
structure CodeStep where
  name : String
  handler : String
  /-- The path of the value that is passed to the handler. -/
  input : Option String := none
  /-- The variable for the result, which is dropped when absent. -/
  output : Option String := none
  deriving DecidableEq, Repr

/-- What a group of concurrent steps is, apart from its steps. -/
structure Group where
  name : String
  /-- The variable for the outputs of all children together. -/
  output : Option String := none
  deriving DecidableEq, Repr

/-- What happens when a loop has no pass left and its condition still holds. -/
inductive Exhaustion where
  | escalate
  | warn
  | fail
  deriving DecidableEq, Repr

/-- What a loop is, apart from its steps. -/
structure Loop where
  name : String
  condition : String
  /-- The largest number of passes, at least one. -/
  maxRetries : Nat
  onExhausted : Exhaustion
  deriving DecidableEq, Repr

/-- What an iteration over tasks is, apart from its steps. -/
structure PerTask where
  name : String
  /-- The path of the list of tasks. -/
  source : String
  deriving DecidableEq, Repr

/-- A step with all steps inside it. -/
inductive Step where
  | agent (step : AgentStep)
  | code (step : CodeStep)
  | parallel (group : Group) (steps : List Step)
  | loop (loop : Loop) (steps : List Step)
  | perTask (iteration : PerTask) (steps : List Step)
  deriving Repr

inductive StepKind where
  | agent | code | parallel | loop | perTask
  deriving DecidableEq, Repr

namespace StepKind

def text : StepKind → String
  | agent => "agent"
  | code => "code"
  | parallel => "parallel"
  | loop => "loop"
  | perTask => "per-task"

/-- The kind that a tag names. Agent steps have no tag. -/
def ofTag? : String → Option StepKind
  | "code" => some code
  | "parallel" => some parallel
  | "loop" => some loop
  | "per-task" => some perTask
  | _ => none

end StepKind

namespace Exhaustion

def text : Exhaustion → String
  | escalate => "escalate"
  | warn => "warn"
  | fail => "fail"

def byName : List (String × Exhaustion) :=
  [("escalate", escalate), ("warn", warn), ("fail", fail)]

end Exhaustion

namespace Step

def name : Step → String
  | agent s => s.name
  | code s => s.name
  | parallel g _ => g.name
  | loop l _ => l.name
  | perTask p _ => p.name

def kind : Step → StepKind
  | agent _ => .agent
  | code _ => .code
  | parallel _ _ => .parallel
  | loop _ _ => .loop
  | perTask _ _ => .perTask

/-- The steps directly inside a step. -/
def children : Step → List Step
  | agent _ | code _ => []
  | parallel _ ss | loop _ ss | perTask _ ss => ss

/-- The variable a step writes its result to. Loops and iterations write none of their own. -/
def outputKey : Step → Option String
  | agent s => some (s.output.getD s.name)
  | code s => s.output
  | parallel g _ => g.output
  | loop _ _ | perTask _ _ => none

/-! ## Equality -/

mutual

def decEq : (s t : Step) → Decidable (s = t)
  | agent a, agent b => decidable_of_iff (a = b) (by simp)
  | code a, code b => decidable_of_iff (a = b) (by simp)
  | parallel a ss, parallel b ts =>
    have := decEqAll ss ts
    decidable_of_iff (a = b ∧ ss = ts) (by simp)
  | loop a ss, loop b ts =>
    have := decEqAll ss ts
    decidable_of_iff (a = b ∧ ss = ts) (by simp)
  | perTask a ss, perTask b ts =>
    have := decEqAll ss ts
    decidable_of_iff (a = b ∧ ss = ts) (by simp)
  | agent _, code _ | agent _, parallel _ _ | agent _, loop _ _ | agent _, perTask _ _
  | code _, agent _ | code _, parallel _ _ | code _, loop _ _ | code _, perTask _ _
  | parallel _ _, agent _ | parallel _ _, code _ | parallel _ _, loop _ _
  | parallel _ _, perTask _ _ | loop _ _, agent _ | loop _ _, code _ | loop _ _, parallel _ _
  | loop _ _, perTask _ _ | perTask _ _, agent _ | perTask _ _, code _
  | perTask _ _, parallel _ _ | perTask _ _, loop _ _ => isFalse nofun

def decEqAll : (ss ts : List Step) → Decidable (ss = ts)
  | [], [] => isTrue rfl
  | [], _ :: _ => isFalse nofun
  | _ :: _, [] => isFalse nofun
  | s :: ss, t :: ts =>
    have := decEq s t
    have := decEqAll ss ts
    decidable_of_iff (s = t ∧ ss = ts) (by simp)

end

instance : DecidableEq Step := decEq

end Step

/-! ## Documents -/

/-- The document of an input. -/
def AgentInput.toValue : AgentInput → Value
  | text t => .string t
  | structured ms => .object ms

def AgentStep.members (s : AgentStep) : List (String × Value) :=
  ("name", .string s.name) ::
    (optionalMember "agent" s.agent ++ optionalMember "prompt" s.prompt ++
      optionalMember "model" s.model ++ optionalMember "output" s.output ++
      (s.input.map fun i ↦ ("input", i.toValue)).toList ++
      [("enabled", .bool s.enabled)] ++ optionalMember "condition" s.condition)

def CodeStep.members (s : CodeStep) : List (String × Value) :=
  [("name", .string s.name), ("handler", .string s.handler)] ++ optionalMember "input" s.input ++
    optionalMember "output" s.output

namespace Step

/-- The tag that every document of a step but that of an agent step starts with. -/
def tag (k : StepKind) : String × Value := ("type", .string k.text)

mutual

/-- The document of a step, its members in the order in which they are written. -/
def toValue : Step → Value
  | agent s => .object s.members
  | code s => .object (tag .code :: s.members)
  | parallel g ss =>
    .object ([tag .parallel, ("name", .string g.name), ("steps", .array (toValues ss))] ++
      optionalMember "output" g.output)
  | loop l ss =>
    .object [tag .loop, ("name", .string l.name), ("condition", .string l.condition),
      ("maxRetries", .ofNat l.maxRetries), ("onExhausted", .string l.onExhausted.text),
      ("steps", .array (toValues ss))]
  | perTask p ss =>
    .object [tag .perTask, ("name", .string p.name), ("source", .string p.source),
      ("steps", .array (toValues ss))]

def toValues : List Step → List Value
  | [] => []
  | s :: ss => s.toValue :: toValues ss

end

end Step

end Workflow
