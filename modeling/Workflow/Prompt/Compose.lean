import Workflow.Agent
import Workflow.Definition
import Workflow.Dispatch
import Workflow.Prompt.Scope

/-!
# Composing dispatches

The request of an agent step: the rendered body of its prompt, with the input of the step either
where the body asks for it or after the body.
-/

namespace Workflow.Prompt

open Json (Value)

/-- The agent a step goes to: its own, or the default of the workflow. -/
def agentName (step : AgentStep) (defaults : Defaults) : Option String :=
  step.agent.or defaults.agent

/-- The rendered input of a step. -/
def renderInput (scope : Scope) : AgentInput → Value
  | .text t => .string (scope.render t)
  | .structured ms => scope.renderValue (.object ms)

/-- An input as text: a string raw, anything else one item to a line. -/
def inputText : Value → String
  | .string s => s
  | v => v.pretty

/-- Whether the body of a prompt asks for the input of its step. -/
def mentionsInput (body : String) : Bool :=
  Text.occursIn (Template.opening ++ " input".toList) body.toList ||
    Text.occursIn (Template.opening ++ "input".toList) body.toList

/-- The text sent to the agent. -/
def userPrompt (scope : Scope) (prompt : Option PromptText) (input : Option Value) : String :=
  match prompt, input with
  | none, none => ""
  | none, some v => inputText v
  | some p, none => scope.render p.body
  | some p, some v =>
    let body := (scope.withInput v).render p.body
    if mentionsInput p.body then body else body ++ "\n\n" ++ inputText v

/-- The request of an agent step. -/
def compose (step : AgentStep) (agent : Agent) (prompt : Option PromptText) (defaults : Defaults)
    (run : RunFacts) (c : Context) : Dispatch.Request :=
  let scope := Scope.of run c
  let input := step.input.map (renderInput scope)
  { prompt := userPrompt scope prompt input
    options := {
      systemPrompt := agent.systemPrompt
      tools := agent.tools
      model := (step.model.or agent.model).or defaults.model
      workingDirectory := run.worktree
      permissionMode := defaults.permissionMode
      settingSources := defaults.settingSources } }

end Workflow.Prompt
