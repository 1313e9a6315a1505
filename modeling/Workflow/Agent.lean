import Workflow.Json.Value

/-!
# Agents and prompts

What the documents of agents and prompts say once they are read.
-/

namespace Workflow

open Json (Value Members)

/-- An agent; the body of its document is its system prompt. -/
structure Agent where
  name : String
  description : String := ""
  /-- The tools it may use; none means the usual ones. -/
  tools : List String := []
  model : Option String := none
  systemPrompt : String
  deriving DecidableEq, Repr

/-- A prompt, whose body is a template. -/
structure PromptText where
  name : String
  description : String := ""
  body : String
  deriving DecidableEq, Repr

def Agent.toValue (a : Agent) : Value :=
  .object (Members.ofList (
    [("name", .string a.name), ("description", .string a.description),
      ("tools", .array (a.tools.map .string)), ("system_prompt", .string a.systemPrompt)] ++
    (a.model.map fun m ↦ ("model", Value.string m)).toList))

def PromptText.toValue (p : PromptText) : Value :=
  .object (Members.ofList [("name", .string p.name), ("description", .string p.description),
    ("body", .string p.body)])

end Workflow
