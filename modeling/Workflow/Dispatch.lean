import Workflow.Json.Decode

/-!
# Dispatches

What is sent to an agent and what comes back: a request with its options, and a stream of messages
that may break off. `Outcome.ofMessages` drains a stream; only the last result message counts.
-/

namespace Workflow.Dispatch

open Json (Value Members RecordField Decoder DecodeError optionalMember)

/-! ## Requests -/

/-- The options of a request. -/
structure Options where
  systemPrompt : String
  tools : List String := []
  model : Option String := none
  workingDirectory : Option String := none
  permissionMode : Option String := none
  settingSources : List String := []
  deriving DecidableEq, Repr

/-- A composed prompt on its way to an agent. -/
structure Request where
  prompt : String
  options : Options
  deriving DecidableEq, Repr

def Options.toValue (o : Options) : Value :=
  .object (Members.ofList (
    [("systemPrompt", .string o.systemPrompt), ("tools", .array (o.tools.map .string)),
      ("settingSources", .array (o.settingSources.map .string))] ++
    optionalMember "model" o.model ++ optionalMember "workingDirectory" o.workingDirectory ++
    optionalMember "permissionMode" o.permissionMode))

def Request.toValue (r : Request) : Value :=
  .object [("options", r.options.toValue), ("prompt", .string r.prompt)]

/-! ## Messages -/

/-- A message of an agent. -/
inductive Message where
  | system (subtype : String) (data : Value)
  | assistant (text : String)
  | toolUse (name : String) (input : Value)
  | result (structuredOutput : Option Value)
  deriving DecidableEq, Repr

/-- The tools whose use changes a file. -/
def fileWritingTools : List String := ["Write", "Edit", "MultiEdit", "NotebookEdit"]

namespace Message

/-- The file that a message says was changed: the path given to a tool that writes files. -/
def changedFile : Message → Option String
  | toolUse name input =>
    if fileWritingTools.contains name then
      ((input.member? "file_path").or (input.member? "notebook_path")).bind Value.string?
    else none
  | _ => none

def toValue : Message → Value
  | system subtype data =>
    .object [("data", data), ("subtype", .string subtype), ("type", .string "system")]
  | assistant text => .object [("text", .string text), ("type", .string "assistant")]
  | toolUse name input =>
    .object [("input", input), ("name", .string name), ("type", .string "tool_use")]
  | result output =>
    .object [("structuredOutput", output.getD .null), ("type", .string "result")]

/-! ### Reading messages -/

/-- The kinds of messages. -/
inductive Kind where
  | system | assistant | toolUse | result
  deriving DecidableEq, Repr

def Kind.byTag : List (String × Kind) :=
  [("system", .system), ("assistant", .assistant), ("tool_use", .toolUse), ("result", .result)]

def Kind.decode : Decoder Kind
  | .string tag =>
    match Members.get? tag Kind.byTag with
    | some k => .ok k
    | none => .error (.unknownVariant tag (Kind.byTag.map (·.1)))
  | v => .error (.wrongKind v "variant identifier")

private def subtypeField : RecordField String := ⟨"subtype", .text, none, []⟩

private def dataField : RecordField Value := .withDefault "data" .any .null

private def textField : RecordField String := ⟨"text", .text, none, []⟩

private def toolField : RecordField String := ⟨"name", .text, none, []⟩

private def toolInputField : RecordField Value := .withDefault "input" .any .null

private def outputField : RecordField (Option Value) :=
  ⟨"structuredOutput", Decoder.any.optional, some none, ["structured_output"]⟩

/-- The rules of the fields of a kind, beside its tag. -/
def Kind.rules : Kind → List Json.FieldRule
  | system => [subtypeField.rule, dataField.rule]
  | assistant => [textField.rule]
  | toolUse => [toolField.rule, toolInputField.rule]
  | result => [outputField.rule]

/-- The message of a kind with the given fields. -/
def ofFields (fields : Members Value) : Kind → Except DecodeError Message
  | .system => do
    return .system (← Json.Record.get fields subtypeField) (← Json.Record.get fields dataField)
  | .assistant => do return .assistant (← Json.Record.get fields textField)
  | .toolUse => do
    return .toolUse (← Json.Record.get fields toolField) (← Json.Record.get fields toolInputField)
  | .result => do return .result (← Json.Record.get fields outputField)

/-- How messages about a kind call it. -/
def Kind.label : Kind → String
  | system => "struct variant AgentMessage::System"
  | assistant => "struct variant AgentMessage::Assistant"
  | toolUse => "struct variant AgentMessage::ToolUse"
  | result => "struct variant AgentMessage::Result"

/-- Reads a message: an object with a tag among its members, or an array that starts with one. -/
def decode : Decoder Message
  | .object ms =>
    match Members.get? "type" ms with
    | none => .error (.missingField "type")
    | some tag => do
      let kind ← Kind.decode tag
      let fields ← Json.Record.fromMembers kind.rules [] (ms.filter fun m ↦ m.1 != "type")
      ofFields fields kind
  | .array [] => .error (.missingField "type")
  | .array (tag :: items) => do
    let kind ← Kind.decode tag
    let rules := kind.rules
    let (fields, rest) ←
      Json.Record.fromItems (Json.Record.expectation kind.label rules) 0 [] rules items
    if !rest.isEmpty then
      let noun := if rules.length = 1 then " element in sequence" else " elements in sequence"
      throw (.badLength items.length (toString rules.length ++ noun))
    ofFields fields kind
  | v => .error (.wrongKind v "internally tagged enum AgentMessage")

end Message

/-! ## Outcomes -/

/-- What a drained stream amounts to. -/
structure Outcome where
  /-- The payload of the last result message. -/
  output : Option Value := none
  /-- The files changed on the way, in order. -/
  changedFiles : List String := []
  messageCount : Nat := 0
  deriving DecidableEq, Repr

namespace Outcome

def add (o : Outcome) (m : Message) : Outcome where
  output :=
    match m with
    | .result output => output
    | _ => o.output
  changedFiles := o.changedFiles ++ m.changedFile.toList
  messageCount := o.messageCount + 1

def ofMessages (ms : List Message) : Outcome := ms.foldl add {}

end Outcome

/-- The text of a failure of an agent. -/
def failureText (reason : String) : String := "task executor failed: " ++ reason

end Workflow.Dispatch
