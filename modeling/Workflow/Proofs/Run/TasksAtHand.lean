import Workflow.Proofs.Prompt.Readable
import Workflow.Proofs.Run.Deeds
import Workflow.Proofs.Step.Asking

/-!
# The task that templates see

A template shows a task if the step that it belongs to is called in a turn of an iteration over
tasks, and then it is the task of the innermost such turn. `Account.Amid` says in which turns a call
is made, by where it stands among the calls and by the list of tasks that each iteration found, and
without a look at the context of the call. The theorem is that the context has the same task at
hand: `Account.Passage.task_of_amid`.

Nothing of it is left when the iteration ends, in whatever way, nor does it come from a checkpoint:
the contexts that phases are called in have no task at hand.
-/

namespace Workflow

open Json (Value Members)

namespace Prompt

/-! ## Names of the task -/

/-- A scope has the names of a task stand for one, or for nothing. -/
structure Scope.Shows (s : Scope) (t : Option Task) : Prop where
  task : s.facts.get? "task" = t.map Task.record
  taskId : s.facts.get? "taskId" = t.map fun t ↦ .string t.id
  taskIndex : s.facts.get? "taskIndex" = t.map fun t ↦ .ofNat t.index
  taskCount : s.facts.get? "taskCount" = t.map fun t ↦ .ofNat t.count

theorem Scope.shows_of (run : RunFacts) (c : Context) : (Scope.of run c).Shows c.task := by
  obtain ⟨_ | spec, _ | worktree, sessionId, _ | branch⟩ := run
  all_goals
    obtain ⟨vars, completedPhases, changedFiles, _ | t, pausedTask⟩ := c
    all_goals exact ⟨rfl, rfl, rfl, rfl⟩

theorem Scope.Shows.withInput {s : Scope} {t : Option Task} (h : s.Shows t) (input : Value) :
    (s.withInput input).Shows t where
  task := (Members.get?_insert ..).trans h.task
  taskId := (Members.get?_insert ..).trans h.taskId
  taskIndex := (Members.get?_insert ..).trans h.taskIndex
  taskCount := (Members.get?_insert ..).trans h.taskCount

theorem Scope.Over.shows {s : Scope} {c : Context} (h : s.Over c) : s.Shows c.task := by
  cases h with
  | of run => exact shows_of run c
  | withInput run input => exact (shows_of run c).withInput input

theorem facts_congr (run : RunFacts) {c d : Context} (h : c.task = d.task) :
    facts run c = facts run d := by
  rw [facts, facts, h]

end Prompt

/-! ## Turns that a call is made in -/

namespace Account

/-- A call lies in another one, in the turns of some tasks, the innermost one first. -/
inductive Amid (b : Account) : List Task → Account → Prop where
  | refl : Amid b [] b
  | inside {a c : Account} {ts : List Task} :
      c ∈ a.inside → a.step.kind ≠ .perTask → Amid b ts c → Amid b ts a
  | turn {p : PerTask} {ss : List Step} {d : Context} {inside : List Account}
      {r : Except StepError StepStatus} {k : Nat} {c : Account} {tasks : List Value}
      {record : Value} {ts : List Task} :
      inside[k]? = some c → p.tasks d = .ok tasks → tasks[k / ss.length]? = some record →
        Amid b ts c →
        Amid b (ts ++ [⟨taskId record (k / ss.length), k / ss.length, tasks.length, record⟩])
          ⟨.perTask p ss, d, inside, r⟩

variable {env : Environment} {shared : Bool} {a b : Account} {as : List (Process.Act Context)}
  {d : Context} {ts : List Task}

/-- Outside iterations over tasks, a call inside has the task at hand that the outer one has. -/
theorem Passage.task_of_mem (h : a.Passage env shared as d) (ha : a.step.kind ≠ .perTask)
    (hb : b ∈ a.inside) : b.context.task = a.context.task := by
  rcases h.cases with hdeclines | ⟨bs, r, answer, hperforms⟩
  · rw [hdeclines.inside_eq] at hb
    cases hb
  · exact Step.task_of_body ha hperforms.body b hb

/-- In an iteration, a call inside has the task at hand in whose turn it is made. -/
theorem Passage.task_of_turn {p : PerTask} {ss : List Step} {c : Context} {inside : List Account}
    {r : Except StepError StepStatus} (h : (⟨.perTask p ss, c, inside, r⟩ : Account).Passage env
      shared as d) {k : Nat} (hb : inside[k]? = some b) :
    ∃ tasks record, p.tasks c = .ok tasks ∧ tasks[k / ss.length]? = some record ∧
      b.context.task =
        some ⟨taskId record (k / ss.length), k / ss.length, tasks.length, record⟩ := by
  have hmem := List.mem_of_getElem? hb
  rcases h.cases with hdeclines | ⟨bs, r, answer, hperforms⟩
  · have hnone : inside = [] := hdeclines.inside_eq
    rw [hnone] at hmem
    cases hmem
  · rcases Step.onTasks_of_body hperforms.body with hnone | ⟨tasks, htasks, hon⟩
    · have hnone : inside = [] := hnone
      rw [hnone] at hmem
      cases hmem
    · obtain ⟨-, record, hrecord, htask⟩ := hon hb
      rw [Nat.zero_add] at htask
      exact ⟨tasks, record, htasks, hrecord, htask⟩

/-- **The task at hand.** A call has the task at hand of the innermost turn that it is made in, and
outside all turns the one that the outermost call has. -/
theorem Passage.task_of_amid (h : a.Passage env shared as d) (hb : b.Amid ts a) :
    b.context.task = ts.head?.or a.context.task := by
  induction hb generalizing shared as d with
  | refl => rfl
  | inside hc hkind _ ih =>
    obtain ⟨bs, e, hpassage⟩ := h.exists_inside hc
    rw [ih hpassage, h.task_of_mem hkind hc]
  | @turn p ss c inside r k child tasks record ts hc htasks hrecord _ ih =>
    obtain ⟨bs, e, hpassage⟩ := h.exists_inside (List.mem_of_getElem? hc)
    obtain ⟨tasks', record', htasks', hrecord', htask⟩ := h.task_of_turn hc
    obtain rfl := Except.ok.inj (htasks.symm.trans htasks')
    obtain rfl := Option.some.inj (hrecord.symm.trans hrecord')
    rw [ih hpassage, htask, List.head?_append, List.head?_singleton, Option.or_assoc,
      Option.some_or]

theorem Passage.exists_amid {shared' : Bool} (h : a.Passage env shared as d)
    (hb : b.Lies shared' a shared) : ∃ ts, b.Amid ts a := by
  induction hb generalizing as d with
  | refl => exact ⟨[], .refl⟩
  | @inside a c shared hc _ ih =>
    obtain ⟨bs, e, hpassage⟩ := h.exists_inside hc
    obtain ⟨ts, hts⟩ := ih hpassage
    by_cases hkind : a.step.kind = .perTask
    · obtain ⟨s, ctx, inside, r⟩ := a
      cases s with
      | perTask p ss =>
        obtain ⟨k, hk⟩ := List.mem_iff_getElem?.1 hc
        obtain ⟨tasks, record, htasks, hrecord, -⟩ := h.task_of_turn hk
        exact ⟨_, .turn hk htasks hrecord hts⟩
      | _ => cases hkind
    · exact ⟨ts, .inside hc hkind hts⟩

end Account

/-! ## Runs -/

namespace Run

open Process (Deed deeds)

variable {ω : Type} {l : Launch} {w : World ω} {x₀ : ω} {env : Environment} {a b : Account}
  {shared : Bool}

theorem Launch.Makes.exists_passage (h : l.Makes w x₀ env a b shared) :
    a.context.task = none ∧ ∃ as d, a.Passage env false as d := by
  obtain ⟨q, phase, rest, c, y, hq, hcalls⟩ := h.called
  obtain ⟨hpassage, -, hctx⟩ := hcalls.passage
  exact ⟨hctx ▸ hq.atRest.task_eq, _, c, hpassage⟩

theorem Launch.Makes.task_of_amid (h : l.Makes w x₀ env a b shared) {ts : List Task}
    (hb : b.Amid ts a) : b.context.task = ts.head? := by
  obtain ⟨hnone, as, d, hpassage⟩ := h.exists_passage
  rw [hpassage.task_of_amid hb, hnone, Option.or_none]

/-- **The task that templates see.** Whatever a run sets out from, each call in it is made in
certain turns of iterations over tasks, or in none. Every scope over the context of the call has
`task`, `taskId`, `taskIndex` and `taskCount` stand for the record, the id, the index and the count
of the innermost of these turns, or for nothing if there is none; and so does every scope over the
context that the call leaves, however it ends, so that nothing of the turns inside it is left. Every
request of the run is composed in the context of such a call, by its agent step. -/
theorem Launch.shows_innermost (l : Launch) (w : World ω) (x₀ : ω) :
    (∀ {env a b shared}, l.Makes w.patient x₀ env a b shared → ∃ ts, b.Amid ts a ∧
      (∀ ts', b.Amid ts' a → ts'.head? = ts.head?) ∧
      (∀ s : Prompt.Scope, s.Over b.context → s.Shows ts.head?) ∧
      ∀ as d, b.Passage env shared as d →
        Prompt.facts env.facts d = Prompt.facts env.facts b.context ∧
        ∀ s : Prompt.Scope, s.Over d → s.Shows ts.head?) ∧
    ∀ {request limit begun}, .call (.dispatch request) limit begun ∈ deeds (l.acts w x₀) →
      ∃ env a b shared s agent prompt, l.Makes w.patient x₀ env a b shared ∧ b.step = .agent s ∧
        request = Prompt.compose s agent prompt env.defaults env.facts b.context := by
  constructor
  · intro env a b shared h
    obtain ⟨-, as, d, hpassage⟩ := h.exists_passage
    obtain ⟨ts, hts⟩ := hpassage.exists_amid h.lies
    refine ⟨ts, hts, fun ts' hts' ↦ ?_, fun s hs ↦ ?_, fun bs e hb ↦ ?_⟩
    · rw [← h.task_of_amid hts, ← h.task_of_amid hts']
    · rw [← h.task_of_amid hts]
      exact hs.shows
    · have htask : e.task = b.context.task := Context.task_eq_of_later hb.later
      refine ⟨Prompt.facts_congr env.facts htask, fun s hs ↦ ?_⟩
      rw [← h.task_of_amid hts, ← htask]
      exact hs.shows
  · intro request limit begun hmem
    rcases exists_owner hmem with ⟨phase, answer, heq⟩ |
      ⟨env, a, b, shared, bs, e, hmakes, -, -, -, howns⟩
    · cases heq
    · obtain ⟨s, agent, prompt, hs, hrequest⟩ := howns.eq_compose
      exact ⟨env, a, b, shared, s, agent, prompt, hmakes, hs, hrequest⟩

/-! ## A run that is resumed with a task -/

/-- A workflow with an iteration over tasks and a step after it. Both steps ask for the id of the
task. -/
def sortingDocument : Value :=
  .object [("name", .string "sorting"),
    ("phases", .array [
      .object [("name", .string "each"), ("source", .string "tasks"),
        ("steps", .array [
          .object [("agent", .string "writer"), ("input", .string "do \x7b\x7b taskId \x7d\x7d"),
            ("name", .string "work")]]),
        ("type", .string "per-task")],
      .object [("agent", .string "writer"), ("input", .string "after \x7b\x7b taskId \x7d\x7d"),
        ("name", .string "wrap")]]),
    ("version", .string "1")]

/-- A run of that workflow from a checkpoint that holds the tasks and names one of them. -/
def sorting : Launch where
  host :=
    { files :=
        { entries := [(["project"], .folder), (["project", "agents"], .folder),
            (["project", "agents", "writer.md"], .file "---\nname: writer\n---\n")] }
      tiers := { project := "project" } }
  runId := ⟨0⟩
  workflow := ⟨"sorting", "1", {}, none, [
    .perTask ⟨"each", "tasks"⟩
      [.agent
        { name := "work", agent := some "writer"
          input := some (.text "do \x7b\x7b taskId \x7d\x7d") }],
    .agent
      { name := "wrap", agent := some "writer"
        input := some (.text "after \x7b\x7b taskId \x7d\x7d") }]⟩
  outset := .resumed
    { vars := [("tasks", .array [.object [("id", .string "t1")], .string "x"])]
      currentTask := some "t1" } none

def requests (ds : List Deed) : List Dispatch.Request :=
  ds.filterMap fun
    | .call (.dispatch request) _ _ => some request
    | _ => none

theorem prompts_sorting :
    Definition.validate sortingDocument = .ok sorting.workflow ∧
    (requests (deeds (sorting.acts DryRun.world {}))).map (·.prompt) =
      ["do t1", "do task-2", "after \x7b\x7b taskId \x7d\x7d"] := by
  decide +kernel

theorem exists_of_mem_requests {ds : List Deed} {request : Dispatch.Request}
    (h : request ∈ requests ds) : ∃ limit begun, .call (.dispatch request) limit begun ∈ ds := by
  obtain ⟨x, hx, heq⟩ := List.mem_filterMap.1 h
  split at heq
  · cases heq
    exact ⟨_, _, hx⟩
  · cases heq

theorem shows_innermost_sorting :
    ∃ request limit begun env a b shared s agent prompt ts,
      .call (.dispatch request) limit begun ∈ deeds (sorting.acts DryRun.world {}) ∧
      request.prompt = "do task-2" ∧ sorting.Makes DryRun.world.patient {} env a b shared ∧
      b.step = .agent s ∧
      request = Prompt.compose s agent prompt env.defaults env.facts b.context ∧ b.Amid ts a ∧
      ∀ scope : Prompt.Scope, scope.Over b.context → scope.Shows ts.head? := by
  obtain ⟨hcalls, hrequests⟩ := sorting.shows_innermost DryRun.world {}
  have hmem : "do task-2" ∈ (requests (deeds (sorting.acts DryRun.world {}))).map (·.prompt) := by
    rw [prompts_sorting.2]
    decide
  obtain ⟨request, hrequest, hprompt⟩ := List.mem_map.1 hmem
  obtain ⟨limit, begun, hdeed⟩ := exists_of_mem_requests hrequest
  obtain ⟨env, a, b, shared, s, agent, prompt, hmakes, hs, hcompose⟩ := hrequests hdeed
  obtain ⟨ts, hts, -, hshows, -⟩ := hcalls hmakes
  exact ⟨request, limit, begun, env, a, b, shared, s, agent, prompt, ts, hdeed, hprompt, hmakes, hs,
    hcompose, hts, hshows⟩

end Run

end Workflow
