import Workflow.DryRun

/-!
# Scripts of rehearsals

A script says beforehand what agents and handlers answer. Answers stand in lines: the line of a
prompt or of a handler gives its answers one after another, and the last one again and again.
-/

namespace Workflow.Rehearsal

open Json (Value Members)

/-- A piece of a scripted stream of messages. -/
inductive Cue where
  /-- Time passes, in milliseconds. -/
  | delay (ms : Nat)
  | message (m : Dispatch.Message)
  /-- The stream breaks off. -/
  | fail (reason : String)

/-- What a handler is scripted to do. -/
inductive Act where
  | fail (reason : String)
  /-- Counts one more than the number at a path, and tells whether that is below a bound. -/
  | count (path : String) (below : Nat)
  /-- Returns a description of the context it was given. -/
  | snapshot
  /-- Returns its input. -/
  | echo
  | give (v : Value)

/-- A scripted answer of a handler. -/
structure Action where
  delay : Nat := 0
  act : Act

/-- Answers in their order, with the number of those given so far. -/
structure Line (α : Type) where
  answers : List α
  given : Nat := 0

namespace Line

variable {α : Type}

/-- The next answer; the last one is repeated. -/
def next? (l : Line α) : Option α := (l.answers[l.given]?).or l.answers.getLast?

/-- A line after one more answer. -/
def advance (l : Line α) : Line α := { l with given := l.given + 1 }

end Line

/-- What everyone answers. -/
structure Script where
  /-- The lines of prompts; that of `*` serves all prompts without one of their own. -/
  replies : Members (Line (List Cue)) := []
  handlers : Members (Line Action) := []
  /-- Whether requests are answered by a dry run instead. -/
  dryRun : Bool := false
  /-- The number of requests so far. -/
  requests : Nat := 0
  /-- The phases at which the host fails, with the reasons. -/
  hostFailures : Members String := []
  /-- The step and status at which the audit sink fails, with the reason. -/
  sinkFailure : Option (String × Audit.Status × String) := none

/-- How long a stream takes and what it amounts to. -/
def play : List Cue → Nat × Reply
  | [] => (0, {})
  | .delay ms :: cues => let (t, r) := play cues; (ms + t, r)
  | .message m :: cues => let (t, r) := play cues; (t, { r with messages := m :: r.messages })
  | .fail reason :: _ => (0, { ending := .error reason })

/-- The value of a context as a whole. -/
def describe (c : Context) : Value :=
  let texts (xs : List String) : Value := .array (xs.map .string)
  .object [
    ("changedFiles", texts c.changedFiles),
    ("completedPhases", texts c.completedPhases),
    ("currentTask", match c.task with
      | none => .null
      | some t => .object [("count", .ofNat t.count), ("id", .string t.id),
          ("index", .ofNat t.index)]),
    ("pausedTaskId", (c.pausedTask.map Value.string).getD .null),
    ("record", (c.task.map (·.record)).getD .null),
    ("variables", .object c.vars)]

/-- What a handler comes to, given a copy of the context and its input. -/
def Act.perform (c : Context) (input : Option Value) : Act → Except String Value
  | fail reason => .error reason
  | count path below =>
    let before := (((c.get? path).bind Value.number?).bind Json.Number.toNat?).getD 0
    .ok (.object [("again", .bool (before + 1 < below)), ("n", .ofNat (before + 1))])
  | snapshot => .ok (describe c)
  | echo => .ok (input.getD .null)
  | give v => .ok v

namespace Script

/-- The name that stands for every prompt without a line of its own. -/
def anyPrompt : String := "*"

/-- The answer to a prompt that has no line at all. -/
def usualReply (prompt : String) : Reply where
  messages := [.result (some (.object [("done", .string prompt)]))]

/-- The answer to a request, with the time it takes. -/
def dispatch (s : Script) (r : Dispatch.Request) : (Nat × Reply) × Script :=
  let s := { s with requests := s.requests + 1 }
  if s.dryRun then ((0, DryRun.reply s.requests r), s)
  else
    let key := if s.replies.contains r.prompt then r.prompt else anyPrompt
    match s.replies.get? key with
    | some line =>
      ((line.next?.map play).getD (0, {}),
        { s with replies := s.replies.insert key line.advance })
    | none => ((0, usualReply r.prompt), s)

/-- The answer of a handler, with the time it takes. -/
def handle (s : Script) (id : String) (c : Context) (input : Option Value) :
    (Nat × Reply) × Script :=
  match s.handlers.get? id with
  | some line =>
    let s := { s with handlers := s.handlers.insert id line.advance }
    match line.next? with
    | some action => ((action.delay, { ending := action.act.perform c input }), s)
    | none => ((0, {}), s)
  | none => ((0, {}), s)

end Script

end Workflow.Rehearsal
