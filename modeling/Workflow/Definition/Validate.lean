import Workflow.Condition.Access
import Workflow.Definition
import Workflow.Json.Printer
import Workflow.Prompt.Reserved

/-!
# Validation of workflow documents

`Step.validate` and `Definition.validate` read raw documents. All that a run relies on is checked
here: names that are not blank, conditions that can be read, at least one phase. A refusal is a
`Fault`, which says where and why; its place is relative to the value that was validated, so a step
is refused in the same words wherever it stands.
-/

namespace Workflow

open Json (Value Members RecordField Decoder DecodeError)

/-! ## Faults -/

/-- One part of a place: a field, or an item of the list under a field. -/
structure Place where
  field : String
  item : Option Nat := none
  deriving DecidableEq, Repr

/-- Why a document is refused. -/
inductive Fault.Cause where
  | notAMapping
  | notAStep
  | missing
  | blank
  | notAString (found : Value)
  | badVersion
  | undecodable (error : DecodeError)
  | lessThanOne
  | notPositive
  | notAListOfSteps
  | noPhases
  | repeatedPhase (name : String)
  | unknownKind (tag : String)
  | kindNotAString (found : Value)
  | neitherAgentNorPrompt
  | reservedKey (key : String)
  | badCondition (source : String) (reason : Condition.Malformed)
  | retriesMissing
  | badRetries (found : Value)
  | badExhaustion (found : Value)
  deriving DecidableEq

/-- A refusal: the place of the fault, from the outside in, and its cause. -/
structure Fault where
  place : List Place
  cause : Fault.Cause
  deriving DecidableEq

namespace Fault

def placeText (p : Place) : String :=
  match p.item with
  | none => p.field
  | some i => p.field ++ "[" ++ toString i ++ "]"

def path (f : Fault) : String := ".".intercalate (f.place.map placeText)

def Cause.message : Cause → String
  | notAMapping => "expected a mapping"
  | notAStep => "expected a step mapping"
  | missing => "is required"
  | blank => "must not be empty"
  | notAString found => "must be a string, got " ++ found.compact
  | badVersion => "must be a non-empty string or a number"
  | undecodable e => e.message
  | lessThanOne => "must be at least 1"
  | notPositive => "must be greater than 0"
  | notAListOfSteps => "must be a list of steps"
  | noPhases => "workflow must have at least one phase"
  | repeatedPhase name => "duplicate phase name '" ++ name ++ "'"
  | unknownKind tag =>
    "unknown step type '" ++ tag ++ "' (expected one of: code, parallel, loop, per-task)"
  | kindNotAString found => "step type must be a string, got " ++ found.compact
  | neitherAgentNorPrompt => "step has no type and neither an 'agent' nor a 'prompt' field"
  | reservedKey key => "'" ++ key ++ "' is a reserved template variable"
  | badCondition source reason => "invalid condition '" ++ source ++ "': " ++ reason.message
  | retriesMissing => "is required for loop steps"
  | badRetries found => "must be an integer >= 1, got " ++ found.compact
  | badExhaustion found => "must be one of escalate, warn, fail; got " ++ found.compact

def message (f : Fault) : String := f.cause.message

/-- A fault of the value itself. -/
def here (cause : Cause) : Fault := ⟨[], cause⟩

/-- A fault of a field. -/
def atField (field : String) (cause : Cause) : Fault := ⟨[⟨field, none⟩], cause⟩

/-- The fault of a part, as a fault of the whole. -/
def under (p : Place) (f : Fault) : Fault := ⟨p :: f.place, f.cause⟩

end Fault

namespace Validate

/-! ## Fields -/

/-- A field that must be a string with something other than blanks in it. -/
def requiredText (ms : Members Value) (field : String) : Except Fault String :=
  match ms.get? field with
  | some (.string s) => if Text.isBlankText s then .error (.atField field .blank) else .ok s
  | some v => .error (.atField field (.notAString v))
  | none => .error (.atField field .missing)

/-- A field that may be absent or null and otherwise is as `requiredText` asks. -/
def optionalText (ms : Members Value) (field : String) : Except Fault (Option String) :=
  match ms.get? field with
  | none | some .null => .ok none
  | some _ => (requiredText ms field).map some

/-- Refuses a variable that templates could not read. -/
def checkKey (key : String) : Except Fault Unit :=
  if Prompt.isReserved key then .error (.atField "output" (.reservedKey key)) else .ok ()

/-- The variable that a step writes to. -/
def outputField (ms : Members Value) : Except Fault (Option String) := do
  let output ← optionalText ms "output"
  match output with
  | some key => checkKey key
  | none => pure ()
  return output

/-- Refuses a condition that cannot be read. -/
def checkCondition (source : String) : Except Fault Unit :=
  match Condition.parse source with
  | .ok _ => .ok ()
  | .error reason => .error (.atField "condition" (.badCondition source reason))

/-- The largest number of passes of a loop, an integer of 32 bits that is at least one. -/
def retriesField (ms : Members Value) : Except Fault Nat :=
  match ms.get? "maxRetries" with
  | none => .error (.atField "maxRetries" .retriesMissing)
  | some v =>
    match v with
    | .number (.int n) =>
      if 1 ≤ n ∧ Bits.fitsUnsigned 32 n then .ok n.toNat
      else .error (.atField "maxRetries" (.badRetries v))
    | v => .error (.atField "maxRetries" (.badRetries v))

/-- What a loop does when it is exhausted; it escalates unless it says otherwise. -/
def exhaustionField (ms : Members Value) : Except Fault Exhaustion :=
  match ms.get? "onExhausted" with
  | none | some .null => .ok .escalate
  | some v =>
    match Decoder.variant Exhaustion.byName v with
    | .ok e => .ok e
    | .error _ => .error (.atField "onExhausted" (.badExhaustion v))

/-- The kind that a step document is tagged with; agent steps have no tag. -/
def kindField (ms : Members Value) : Except Fault StepKind :=
  match ms.get? "type" with
  | none | some .null => .ok .agent
  | some (.string tag) =>
    match StepKind.ofTag? tag with
    | some k => .ok k
    | none => .error (.atField "type" (.unknownKind tag))
  | some v => .error (.atField "type" (.kindNotAString v))

/-! ## Agent steps -/

def decodeInput : Decoder AgentInput
  | .string s => .ok (.text s)
  | .object ms => .ok (.structured ms)
  | _ => .error (.noVariant "StepInput")

private def nameField : RecordField String := ⟨"name", .text, none, []⟩

private def agentField : RecordField (Option String) := .optional "agent" .text

private def promptField : RecordField (Option String) := .optional "prompt" .text

private def modelField : RecordField (Option String) := .optional "model" .text

private def keyField : RecordField (Option String) := .optional "output" .text

private def inputField : RecordField (Option AgentInput) := .optional "input" decodeInput

private def enabledField : RecordField Bool := .withDefault "enabled" .flag true

private def conditionField : RecordField (Option String) := .optional "condition" .text

/-- Reads an agent step without the checks of its condition and of its variable. -/
def decodeAgentStep : Decoder AgentStep := fun v ↦ do
  let fields ← Json.Record.fields "struct AgentPromptStep"
    [nameField.rule, agentField.rule, promptField.rule, modelField.rule, keyField.rule,
      inputField.rule, enabledField.rule, conditionField.rule] v
  return {
    name := ← Json.Record.get fields nameField
    agent := ← Json.Record.get fields agentField
    prompt := ← Json.Record.get fields promptField
    model := ← Json.Record.get fields modelField
    output := ← Json.Record.get fields keyField
    input := ← Json.Record.get fields inputField
    enabled := ← Json.Record.get fields enabledField
    condition := ← Json.Record.get fields conditionField }

def isGiven (ms : Members Value) (field : String) : Bool :=
  match ms.get? field with
  | none | some .null => false
  | some _ => true

/-- An agent step from the members of its document. -/
def agentStep (ms : Members Value) : Except Fault Step := do
  -- before the fields are decoded, so that their errors come second
  if !isGiven ms "agent" && !isGiven ms "prompt" then throw (.here .neitherAgentNorPrompt)
  let step ←
    match decodeAgentStep (.object ms) with
    | .ok step => pure step
    | .error e => throw (.here (.undecodable e))
  match step.condition with
  | some c => checkCondition c
  | none => pure ()
  match step.output with
  | some key => checkKey key
  | none => pure ()
  return .agent step

end Validate

/-! ## Steps -/

namespace Step

open Validate

mutual

/-- Reads a step from its document. -/
def validate : Value → Except Fault Step
  | .object ms => do
    let name ← requiredText ms "name"
    match ← kindField ms with
    | .agent => agentStep ms
    | .code =>
      let handler ← requiredText ms "handler"
      let input ← optionalText ms "input"
      let output ← outputField ms
      return .code ⟨name, handler, input, output⟩
    | .parallel =>
      let steps ← validateChildren ms
      let output ← outputField ms
      return .parallel ⟨name, output⟩ steps
    | .loop =>
      let condition ← requiredText ms "condition"
      checkCondition condition
      let maxRetries ← retriesField ms
      let onExhausted ← exhaustionField ms
      let steps ← validateChildren ms
      return .loop ⟨name, condition, maxRetries, onExhausted⟩ steps
    | .perTask =>
      let source ← requiredText ms "source"
      let steps ← validateChildren ms
      return .perTask ⟨name, source⟩ steps
  | _ => .error (.here .notAStep)

/-- Reads the steps inside a step from the first member that lists them. -/
def validateChildren : List (String × Value) → Except Fault (List Step)
  | [] => .error (.atField "steps" .notAListOfSteps)
  | (name, v) :: ms =>
    if name = "steps" then
      match v with
      | .array items => validateItems "steps" 0 items
      | _ => .error (.atField "steps" .notAListOfSteps)
    else validateChildren ms

/-- Reads the steps of a list from a position on. -/
def validateItems (list : String) (i : Nat) : List Value → Except Fault (List Step)
  | [] => .ok []
  | v :: vs =>
    match validate v with
    | .error f => .error (f.under ⟨list, some i⟩)
    | .ok s => do
      let ss ← validateItems list (i + 1) vs
      return s :: ss

end

end Step

/-! ## Definitions -/

namespace Definition

open Validate

/-- The version of a workflow: a string, or a number in its own text. -/
def versionField (ms : Members Value) : Except Fault String :=
  match ms.get? "version" with
  | some (.string s) =>
    if Text.isBlankText s then .error (.atField "version" .badVersion) else .ok s
  | some (.number n) => .ok n.text
  | some _ => .error (.atField "version" .badVersion)
  | none => .error (.atField "version" .missing)

def defaultsField (ms : Members Value) : Except Fault Defaults :=
  match ms.get? "defaults" with
  | none | some .null => .ok {}
  | some v => (Defaults.decode v).mapError fun e ↦ .atField "defaults" (.undecodable e)

/-- Refuses limits that allow nothing. -/
def checkSafety (s : Safety) : Except Fault Unit :=
  if s.maxLoopRetries = some 0 then
    .error ⟨[⟨"safety", none⟩, ⟨"maxLoopRetries", none⟩], .lessThanOne⟩
  else if s.maxStepTimeoutMs = some 0 then
    .error ⟨[⟨"safety", none⟩, ⟨"maxStepTimeoutMs", none⟩], .notPositive⟩
  else if s.maxWorkflowDurationMs = some 0 then
    .error ⟨[⟨"safety", none⟩, ⟨"maxWorkflowDurationMs", none⟩], .notPositive⟩
  else .ok ()

def safetyField (ms : Members Value) : Except Fault (Option Safety) :=
  match ms.get? "safety" with
  | none | some .null => .ok none
  | some v => do
    let s ← (Safety.decode v).mapError fun e ↦ .atField "safety" (.undecodable e)
    checkSafety s
    return some s

/-- Reads the phases from a position on; no two phases have one name. -/
def validatePhases (i : Nat) (seen : List String) : List Value → Except Fault (List Step)
  | [] => .ok []
  | v :: vs =>
    match Step.validate v with
    | .error f => .error (f.under ⟨"phases", some i⟩)
    | .ok s =>
      if seen.contains s.name then .error ⟨[⟨"phases", some i⟩], .repeatedPhase s.name⟩
      else do
        let ss ← validatePhases (i + 1) (s.name :: seen) vs
        return s :: ss

def phasesField (ms : Members Value) : Except Fault (List Step) :=
  match ms.get? "phases" with
  | some (.array []) => .error (.atField "phases" .noPhases)
  | some (.array vs) => validatePhases 0 [] vs
  | _ => .error (.atField "phases" .notAListOfSteps)

/-- Reads a workflow from its document. -/
def validate : Value → Except Fault Definition
  | .object ms => do
    let name ← (requiredText ms "name").mapError (·.under ⟨"workflow", none⟩)
    let version ← versionField ms
    let defaults ← defaultsField ms
    let safety ← safetyField ms
    let phases ← phasesField ms
    return ⟨name, version, defaults, safety, phases⟩
  | _ => .error (.atField "workflow" .notAMapping)

end Definition

end Workflow
