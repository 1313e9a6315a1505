import Workflow.Account
import Workflow.Condition.Access
import Workflow.Process
import Workflow.Prompt.Compose

/-!
# The behaviour of steps

`Step.process` is what a step does: whether it is skipped, what it asks of agents and handlers, and
what it leaves in the context. Every step goes through `Step.audited`, which decides on skipping and
puts the report of the start before, and the report of the end after everything that happens inside.

`Step.call` is the same process with an account of everything that was called in it. Only its ending
is used when a workflow runs.
-/

namespace Workflow

open Json (Value Members)

/-- What all steps of a run share besides the context. The files are those that there are when the
run begins: agents and prompts are looked up among them at every call, and nothing that is done in
the run, or beside it, is taken to change them. -/
structure Environment where
  defaults : Defaults := {}
  files : Files
  tiers : Tiers
  /-- The names of the handlers there are. -/
  handlers : List String := []
  facts : RunFacts := {}
  /-- The agent steps to skip. -/
  skippedSteps : List String := []
  /-- Whether agent steps that check something are skipped. -/
  skipChecks : Bool := false
  /-- The limit on each call. -/
  stepTimeout : Option Nat := none
  /-- The limit on the passes of every loop. -/
  maxLoopRetries : Option Nat := none

/-- A behaviour that may fail. -/
abbrev Behaviour (α : Type) := Process Context (Except StepError α)

/-! ## Skipping -/

/-- The words of ASCII letters and digits in a name. -/
def nameWords (name : String) : List String :=
  let masked := name.toList.map fun c ↦ if c.isAlphanum then c.toLower else ' '
  (Text.splitOn ' ' masked).map String.ofList

/-- Whether the name of a step says that it reviews or checks something. -/
def isCheckName (name : String) : Bool :=
  (nameWords name).any fun w ↦ w == "review" || w == "check" || w == "checks"

/-- Why a step is skipped, if it is. Only agent steps ever are. -/
def skipReason (env : Environment) (c : Context) : Step → Option String
  | .agent s =>
    if !s.enabled then some "disabled in workflow definition"
    else if env.skippedSteps.contains s.name then some ("--skip-step=" ++ s.name)
    else if env.skipChecks && isCheckName s.name then some "--skip-checks"
    else
      match s.condition with
      | none => none
      | some condition =>
        if Condition.evaluate condition c.vars then none
        else some ("condition not met: " ++ condition)
  | _ => none

/-! ## Reports -/

/-- Reports an event and goes on, unless the sink fails. -/
def reporting {α : Type} (e : Audit.Event) (refused : StepError → α) (next : Process Context α) :
    Process Context α :=
  .report e fun
    | none => next
    | some reason => .done (refused (.audit reason))

/-- The last event of a step, by how it ended in a context. -/
def closingEvent (step : Step) (duration : Nat) (c : Context) :
    Except StepError Unit → Audit.Event
  | .ok () =>
    .make step.name .completed (("durationMs", .ofNat duration) ::
      match step.outputKey with
      | some key => [("outputKey", .string key), ("outputStored", .bool (c.contains key))]
      | none => [])
  | .error e =>
    if e.isPause then
      .make step.name .paused
        [("blocker", .string (e.blocker?.getD "")), ("durationMs", .ofNat duration)]
    else
      .make step.name .failed [("error", .string e.message), ("durationMs", .ofNat duration)]

/-- Skips a step, or does what is inside it between the reports of its start and its end. -/
def Step.audited (env : Environment) (step : Step) (body : Process Context Course) :
    Process Context Account :=
  .read fun c ↦
    match skipReason env c step with
    | some reason =>
      reporting (.make step.name .skipped [("reason", .string reason)])
        (fun e ↦ ⟨step, c, [], .error e⟩) (.done ⟨step, c, [], .ok .skipped⟩)
    | none =>
      reporting (.make step.name .started [("type", .string step.kind.text)])
        (fun e ↦ ⟨step, c, [], .error e⟩) <|
        -- the time of a step begins after the report of its start
        .clock fun started ↦ body.bind fun (inside, r) ↦ .clock fun ended ↦ .read fun left ↦
          reporting (closingEvent step (ended - started) left r)
            (fun e ↦ ⟨step, c, inside, .error e⟩)
            (.done ⟨step, c, inside, r.map fun _ ↦ .completed⟩)

/-! ## Steps without steps inside -/

/-- A behaviour in which no step is called. -/
def Behaviour.alone (p : Behaviour Unit) : Process Context Course := p.bind fun r ↦ .done ([], r)

/-- The reply to a call, unless it ended otherwise. -/
def calling (env : Environment) (step : String) (c : Call) (next : Reply → Behaviour Unit) :
    Behaviour Unit :=
  (Process.settle c env.stepTimeout).bind fun
    | .replied reply => next reply
    | .timedOut limit => .done (.error (.timeout step limit))
    | .cancelled => .done (.error (.cancelled step))

/-- The files that a value names as changed. -/
def namedFiles (v : Value) : List String :=
  ["changedFiles", "filesChanged"].flatMap fun key ↦
    (((v.member? key).bind Value.array?).getD []).filterMap Value.string?

/-- What a reply to an agent step does to the context. -/
def Context.takeOutcome (step : AgentStep) (o : Dispatch.Outcome) (c : Context) : Context :=
  let c := c.addFiles o.changedFiles
  match o.output with
  | some v => (c.addFiles (namedFiles v)).set (step.output.getD step.name) v
  | none => c

/-- Sends the composed prompt of an agent step. -/
def AgentStep.process (env : Environment) (s : AgentStep) : Behaviour Unit :=
  match Prompt.agentName s env.defaults with
  | none => .done (.error (.missingAgent s.name))
  | some agentName =>
    let loaded : Except LoadError (Agent × Option PromptText) := do
      let agent ← Agent.load env.tiers env.files agentName
      let prompt ← s.prompt.mapM (PromptText.load env.tiers env.files)
      return (agent, prompt)
    match loaded with
    | .error e => .done (.error (.load s.name e))
    | .ok (agent, prompt) =>
      .read fun c ↦
        calling env s.name (.dispatch (Prompt.compose s agent prompt env.defaults env.facts c))
          fun reply ↦
            match reply.ending with
            | .error reason => .done (.error (.dispatch s.name reason))
            | .ok _ =>
              .write (Context.takeOutcome s (.ofMessages reply.messages)) (.done (.ok ()))

/-- What the value of a handler does to the context. Null does nothing. -/
def Context.takeValue (step : CodeStep) (v : Value) (c : Context) : Context :=
  if v.isNull then c
  else
    let c := c.addFiles (namedFiles v)
    match step.output with
    | some key => c.set key v
    | none => c

/-- Calls the handler of a code step. -/
def CodeStep.process (env : Environment) (s : CodeStep) : Behaviour Unit :=
  if !env.handlers.contains s.handler then .done (.error (.unknownHandler s.name s.handler))
  else
    .read fun c ↦
      calling env s.name (.handler s.handler c (s.input.bind c.get?)) fun reply ↦
        match reply.ending with
        | .error reason => .done (.error (.handler s.name s.handler reason))
        | .ok v => .write (Context.takeValue s v) (.done (.ok ()))

/-! ## Groups -/

/-- The outputs of several steps, as far as there are any. -/
def Context.outputs (steps : List Step) (c : Context) : Value :=
  .object (Members.ofList (steps.filterMap fun s ↦ do
    let key ← s.outputKey
    return (key, ← c.get? key)))

/-- How a group ends after its children. The first error to come is that of the group; without one,
the outputs of the children are gathered. -/
def Group.closing (g : Group) (steps : List Step) (inside : List Account) :
    Process Context Course :=
  match inside.findSome? Account.error? with
  | some e => .done (inside, .error e)
  | none =>
    match g.output with
    | some key => .write (fun c ↦ c.set key (c.outputs steps)) (.done (inside, .ok ()))
    | none => .done (inside, .ok ())

/-- Runs the children of a group side by side until all have ended. -/
def Group.process (g : Group) (steps : List Step) (children : List (Process Context Account)) :
    Process Context Course :=
  (Process.arrivals children).bind (g.closing steps)

/-! ## Loops -/

/-- How often a loop is run at most: once at least. -/
def Loop.passes (cap : Option Nat) (l : Loop) : Nat :=
  max 1 (match cap with
    | some cap => min l.maxRetries cap
    | none => l.maxRetries)

/-- Whether the condition of a loop holds. -/
def Loop.holds (l : Loop) (c : Context) : Bool := Condition.evaluate l.condition c.vars

/-- What blocks a loop after its last pass. -/
def Loop.blocker (l : Loop) (passes : Nat) : String :=
  "loop '" ++ l.name ++ "' exhausted " ++ toString passes ++ " retries with condition '" ++
    l.condition ++ "' still true"

/-- How a loop ends whose condition still holds after its last pass. -/
def Loop.exhaustion (l : Loop) (passes : Nat) : Except StepError Unit :=
  match l.onExhausted with
  | .escalate => .error (.paused l.name (l.blocker passes))
  | .fail => .error (.exhausted l.name (l.blocker passes))
  | .warn => .ok ()

/-- Runs the passes of a loop that are left, after those so far. Before all but the first pass the
condition is looked at once more. -/
def Loop.iterate (l : Loop) (passes : Nat) (body : List Account → Process Context Course) :
    Bool → Nat → List Account → Process Context Course
  | _, 0, so => .done (so, l.exhaustion passes)
  | again, left + 1, so =>
    .read fun c ↦
      if again && !l.holds c then .done (so, .ok ())
      else
        (body so).bind fun
          | (so, .error e) => .done (so, .error e)
          | (so, .ok ()) => .read fun c ↦
            if l.holds c then l.iterate passes body true left so else .done (so, .ok ())

def Loop.process (env : Environment) (l : Loop) (body : List Account → Process Context Course) :
    Process Context Course :=
  let passes := l.passes env.maxLoopRetries
  l.iterate passes body false passes []

/-! ## Iterations over tasks -/

/-- The id of a task: its own, or one made from its place. -/
def taskId (record : Value) (index : Nat) : String :=
  match record.member? "id" with
  | some (.string id) => id
  | some (.number n) => n.text
  | _ => "task-" ++ toString (index + 1)

/-- What a message calls a value that is no list. -/
def kindText : Value → String
  | .null => "null"
  | .bool _ => "a boolean"
  | .number _ => "a number"
  | .string _ => "a string"
  | .array _ => "an array"
  | .object _ => "an object"

/-- The tasks at the path of an iteration. -/
def PerTask.tasks (p : PerTask) (c : Context) : Except StepError (List Value) :=
  match c.get? p.source with
  | some (.array tasks) => .ok tasks
  | some v => .error (.taskSource p.name p.source ("is " ++ kindText v ++ ", not an array"))
  | none => .error (.taskSource p.name p.source "is not set")

/-- Runs the iterations for the tasks that are left, after those so far, each in a fork of the
context that is folded back however the iteration ends. -/
def PerTask.iterate (body : List Account → Process Context Course) (count : Nat) :
    Nat → List Value → List Account → Process Context Course
  | _, [], so => .done (so, .ok ())
  | index, record :: rest, so =>
    .read fun c ↦
      let task : Task := ⟨taskId record index, index, count, record⟩
      (Process.isolated (c.fork task) (body so)).bind fun ((so, r), fork) ↦
        -- merged before the result is looked at, so also after a failure or a pause
        .write (·.merge fork) <|
          match r with
          | .ok () => iterate body count (index + 1) rest so
          | .error e =>
            if e.isPause then .write (·.markPaused task.id) (.done (so, .error e))
            else .done (so, .error e)

/-- Runs an iteration over tasks. -/
def PerTask.process (p : PerTask) (body : List Account → Process Context Course) :
    Process Context Course :=
  .read fun c ↦
    match p.tasks c with
    | .error e => .done ([], .error e)
    | .ok tasks => iterate body tasks.length 0 tasks []

/-! ## Steps -/

namespace Step

mutual

/-- What a step does, with the account of its call. -/
def call (env : Environment) : Step → Process Context Account
  | agent s => audited env (agent s) (s.process env).alone
  | code s => audited env (code s) (s.process env).alone
  | parallel g ss => audited env (parallel g ss) (g.process ss (calls env ss))
  | loop l ss => audited env (loop l ss) (l.process env (.inOrder Account.error? (calls env ss)))
  | perTask p ss =>
    audited env (perTask p ss) (p.process (.inOrder Account.error? (calls env ss)))

/-- What several steps do, each by itself. -/
def calls (env : Environment) : List Step → List (Process Context Account)
  | [] => []
  | s :: ss => s.call env :: calls env ss

end

theorem calls_eq_map (env : Environment) (ss : List Step) : calls env ss = ss.map (call env) := by
  induction ss with
  | nil => rfl
  | cons s ss ih => simp [calls, ih]

/-- What a step does, as far as a run asks how it ended. -/
def process (env : Environment) (s : Step) : Behaviour StepStatus :=
  (s.call env).bind fun a ↦ .done a.ending

end Step

end Workflow
