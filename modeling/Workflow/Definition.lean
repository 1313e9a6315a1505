import Workflow.Step

/-!
# Workflow definitions

A workflow is a list of phases, which are steps, with defaults for its agent steps and limits for
its runs. `Definition.toValue` is the document form.
-/

namespace Workflow

open Json (Value Members RecordField Decoder optionalMember)

/-- What agent steps fall back to. -/
structure Defaults where
  agent : Option String := none
  model : Option String := none
  permissionMode : Option String := none
  settingSources : List String := []
  deriving DecidableEq, Repr

/-- The limits of a run. -/
structure Safety where
  /-- No loop makes more passes than this. -/
  maxLoopRetries : Option Nat := none
  /-- How long one dispatch or one call of a handler may take, in milliseconds. -/
  maxStepTimeoutMs : Option Nat := none
  /-- How long the whole run may take, in milliseconds. -/
  maxWorkflowDurationMs : Option Nat := none
  /-- Whether the first failing phase ends the run. -/
  failOnStepError : Bool := true
  deriving DecidableEq, Repr

structure Definition where
  name : String
  version : String
  defaults : Defaults
  safety : Option Safety
  phases : List Step
  deriving DecidableEq, Repr

namespace Definition

/-- The position of the phase with a name. -/
def phaseIndex? (d : Definition) (phase : String) : Option Nat :=
  d.phases.findIdx? fun p ↦ p.name == phase

/-- Whether the first failing phase ends a run. -/
def failFast (d : Definition) : Bool := (d.safety.map (·.failOnStepError)).getD true

/-- How long a run may take, in milliseconds, if there is a limit. -/
def limit (d : Definition) : Option Nat := d.safety.bind (·.maxWorkflowDurationMs)

end Definition

/-! ## Reading defaults and limits -/

namespace Defaults

private def agentField : RecordField (Option String) := .optional "agent" .text

private def modelField : RecordField (Option String) := .optional "model" .text

private def permissionField : RecordField (Option String) := .optional "permissionMode" .text

private def sourcesField : RecordField (List String) :=
  .withDefault "settingSources" (.list .text) []

def decode : Decoder Defaults := fun v ↦ do
  let fields ← Json.Record.fields "struct WorkflowDefaults"
    [agentField.rule, modelField.rule, permissionField.rule, sourcesField.rule] v
  return {
    agent := ← Json.Record.get fields agentField
    model := ← Json.Record.get fields modelField
    permissionMode := ← Json.Record.get fields permissionField
    settingSources := ← Json.Record.get fields sourcesField }

end Defaults

namespace Safety

private def retriesField : RecordField (Option Nat) :=
  .optional "maxLoopRetries" (.natural 32 "u32")

private def stepField : RecordField (Option Nat) := .optional "maxStepTimeoutMs" (.natural 64 "u64")

private def durationField : RecordField (Option Nat) :=
  .optional "maxWorkflowDurationMs" (.natural 64 "u64")

private def failField : RecordField Bool := .withDefault "failOnStepError" .flag true

def decode : Decoder Safety := fun v ↦ do
  let fields ← Json.Record.fields "struct SafetyConfig"
    [retriesField.rule, stepField.rule, durationField.rule, failField.rule] v
  return {
    maxLoopRetries := ← Json.Record.get fields retriesField
    maxStepTimeoutMs := ← Json.Record.get fields stepField
    maxWorkflowDurationMs := ← Json.Record.get fields durationField
    failOnStepError := ← Json.Record.get fields failField }

end Safety

/-! ## Documents -/

private def numberMember (name : String) (n : Option Nat) : List (String × Value) :=
  (n.map fun n ↦ (name, Value.ofNat n)).toList

def Defaults.toValue (d : Defaults) : Value :=
  .object (optionalMember "agent" d.agent ++ optionalMember "model" d.model ++
    optionalMember "permissionMode" d.permissionMode ++
    (if d.settingSources.isEmpty then []
     else [("settingSources", .array (d.settingSources.map .string))]))

def Safety.toValue (s : Safety) : Value :=
  .object (numberMember "maxLoopRetries" s.maxLoopRetries ++
    numberMember "maxStepTimeoutMs" s.maxStepTimeoutMs ++
    numberMember "maxWorkflowDurationMs" s.maxWorkflowDurationMs ++
    [("failOnStepError", .bool s.failOnStepError)])

/-- The document of a definition, its members in the order in which they are written. -/
def Definition.toValue (d : Definition) : Value :=
  .object ([("name", .string d.name), ("version", .string d.version),
    ("defaults", d.defaults.toValue)] ++
    (d.safety.map fun s ↦ ("safety", s.toValue)).toList ++
    [("phases", .array (Step.toValues d.phases))])

end Workflow
