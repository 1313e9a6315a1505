import Workflow.Proofs.Step.Growth
import Workflow.Proofs.Step.Turn

/-!
# What iterations over tasks leave

An iteration over tasks takes one turn of its steps for each task, in a fork of the context that
the turns before have left, and folds the fork back however the turn ends. `PerTask.Iterations`
says so without the process, and `PerTask.run_iterate_iff` that the two agree. In its turn a task
is at hand, and all else is as it was: `Context.ForkedFor`.

Folding back never touches a variable that there is. So of all turns that write a variable, the
first one to create it decides on its value, and what the others write to it is lost. This is
`Context.Merged`: the context that is left, by the forks in their order.
-/

namespace Workflow

open Json (Members Value)

/-! ## Runs on a state of their own -/

theorem Process.run_isolated {σ τ α ω : Type} (w : World ω) (p : Process τ α) (t : τ) (s : σ)
    (x : ω) :
    (Process.isolated t p : Process σ (α × τ)).run w s x =
      match p.run w t x with
      | (some (a, t), x) => (some ((a, t), s), x)
      | (none, x) => (none, x) := by
  induction p generalizing t x with
  | done a => rfl
  | read k ih => exact ih t t x
  | write f p ih => exact ih (f t) x
  | report e k ih => exact ih _ t _
  | clock k ih => exact ih _ t x
  | announce n c k ih => exact ih _ t _
  | call c l k ih => exact ih _ t _
  | await ts k ih =>
    rw [isolated, onSecond, zoom, withLocal, run, run]
    split
    · next t' r y _ => exact ih t' r t y
    · rfl

/-! ## Forks -/

namespace Context

variable {c d f : Context} {fs : List Context}

/-- A context is a fork of another one, made for a task: that task is at hand, no paused task is
remembered, and all else is as in the other one. -/
structure ForkedFor (c : Context) (task : Task) (d : Context) : Prop where
  task_eq : d.task = some task
  vars_eq : d.vars = c.vars
  changedFiles_eq : d.changedFiles = c.changedFiles
  completedPhases_eq : d.completedPhases = c.completedPhases
  pausedTask_eq : d.pausedTask = none

theorem forkedFor_fork (c : Context) (task : Task) : c.ForkedFor task (c.fork task) :=
  ⟨rfl, rfl, rfl, rfl, rfl⟩

/-! ## Folding back -/

/-- What is left of a context into which some forks were folded back, one after another. -/
structure Merged (c : Context) (fs : List Context) (d : Context) : Prop where
  get?_eq : ∀ name, d.vars.get? name = (c.vars.get? name).or (fs.findSome? fun f ↦ f.vars.get? name)
  mem_changedFiles : ∀ file,
    file ∈ d.changedFiles ↔ file ∈ c.changedFiles ∨ ∃ f ∈ fs, file ∈ f.changedFiles
  task_eq : d.task = c.task
  completedPhases_eq : d.completedPhases = c.completedPhases

theorem merged_nil (c : Context) : Merged c [] c where
  get?_eq _ := Option.or_none.symm
  mem_changedFiles file := by simp
  task_eq := rfl
  completedPhases_eq := rfl

theorem Merged.cons (h : Merged (c.merge f) fs d) : Merged c (f :: fs) d where
  get?_eq name := by
    rw [h.get?_eq, merge, Members.get?_union, Option.or_assoc, List.findSome?_cons]
    cases f.vars.get? name with
    | none => rfl
    | some v => rfl
  mem_changedFiles file := by
    have hfile := h.mem_changedFiles file
    rw [merge, Text.NameSet.mem_insertAll, or_assoc] at hfile
    rw [hfile, List.exists_mem_cons_iff]
  task_eq := h.task_eq
  completedPhases_eq := h.completedPhases_eq

/-- What an iteration leaves that ends with an error in the turn for a task. -/
def stop (c f : Context) (task : Task) (e : StepError) : Context :=
  if e.isPause then (c.merge f).markPaused task.id else c.merge f

theorem merged_stop (c f : Context) (task : Task) (e : StepError) :
    Merged c [f] (c.stop f task e) := by
  rw [stop]
  have hmerged : Merged c [f] (c.merge f) := (merged_nil _).cons
  split
  · exact ⟨hmerged.get?_eq, hmerged.mem_changedFiles, rfl, rfl⟩
  · exact hmerged

end Context

theorem Turn.task_eq {ω : Type} {env : Environment} {w : World ω} {ss : List Step} {c d : Context}
    {x y : ω} {as : List Account} {r : Except StepError Unit} (h : Turn env w ss c x as r d y) :
    ∀ a ∈ as, a.context.task = c.task := by
  induction h with
  | done => exact nofun
  | next hrun _ _ ih =>
    refine List.forall_mem_cons.2 ⟨by rw [Step.context_of_run hrun], fun a ha ↦ ?_⟩
    rw [ih a ha, (Step.framed_of_run hrun).task_eq]
  | failed hrun _ =>
    exact List.forall_mem_singleton.2 (by rw [Step.context_of_run hrun])

namespace PerTask

variable {ω : Type}

/-! ## Turns for tasks -/

/-- The task that stands at a place of a list of some length. -/
def taskAt (n i : Nat) (v : Value) : Task := ⟨taskId v i, i, n, v⟩

/-- The turns for the tasks from a place on, in a list of `n` tasks: by what the fork of each turn
became, and the calls, to what the iteration ended with and the context and the world it left. -/
inductive Iterations (env : Environment) (w : World ω) (ss : List Step) (n : Nat) :
    Nat → List Value → Context → ω →
      List Context → List Account → Except StepError Unit → Context → ω → Prop where
  | done (i : Nat) (c : Context) (x : ω) : Iterations env w ss n i [] c x [] [] (.ok ()) c x
  | next {i : Nat} {v : Value} {vs : List Value} {c f d : Context} {x y z : ω}
      {as bs : List Account} {fs : List Context} {r : Except StepError Unit} :
      Turn env w ss (c.fork (taskAt n i v)) x as (.ok ()) f y →
        Iterations env w ss n (i + 1) vs (c.merge f) y fs bs r d z →
        Iterations env w ss n i (v :: vs) c x (f :: fs) (as ++ bs) r d z
  | stopped {i : Nat} {v : Value} {vs : List Value} {c f : Context} {x y : ω}
      {as : List Account} {e : StepError} :
      Turn env w ss (c.fork (taskAt n i v)) x as (.error e) f y →
        Iterations env w ss n i (v :: vs) c x [f] as (.error e) (c.stop f (taskAt n i v) e) y

variable {env : Environment} {w : World ω} {ss : List Step} {n i : Nat} {v : Value}
  {vs : List Value} {c d : Context} {x y : ω} {as so out : List Account} {fs : List Context}
  {r : Except StepError Unit} {body : List Account → Process Context Course}

/-- What an iteration makes of the end of a turn: it folds the fork back and goes on, if no step
failed. -/
def afterTurn (w : World ω) (c : Context) (task : Task)
    (next : List Account → Process Context Course) :
    Option (Course × Context) × ω → Option (Course × Context) × ω
  | (some ((out, .ok ()), f), y) => (next out).run w (c.merge f) y
  | (some ((out, .error e), f), y) => (some ((out, .error e), c.stop f task e), y)
  | (none, y) => (none, y)

theorem run_iterate_cons :
    (iterate body n i (v :: vs) so).run w c x =
      afterTurn w c (taskAt n i v) (iterate body n (i + 1) vs)
        ((body so).run w (c.fork (taskAt n i v)) x) := by
  rw [iterate, Process.run, Process.run_bind, Process.run_isolated, taskAt]
  rcases (body so).run w (c.fork ⟨taskId v i, i, n, v⟩) x with ⟨_ | ⟨⟨out, e | _⟩, f⟩, y⟩
  · rfl
  · dsimp only
    rw [Process.run, afterTurn, Context.stop]
    split
    · rfl
    · rfl
  · rfl

/-- Iterations are what runs for the tasks one after another take. -/
theorem run_iterate_iff :
    (iterate (.inOrder Account.error? (Step.calls env ss)) n i vs so).run w c x =
        (some ((out, r), d), y) ↔
      ∃ fs as, out = so ++ as ∧ Iterations env w ss n i vs c x fs as r d y := by
  induction vs generalizing i so c x with
  | nil =>
    constructor
    · intro h
      cases h
      exact ⟨[], [], (List.append_nil _).symm, .done _ _ _⟩
    · rintro ⟨fs, as, rfl, hiter⟩
      cases hiter
      rw [List.append_nil]
      rfl
  | cons v vs ih =>
    rw [run_iterate_cons]
    constructor
    · intro h
      rcases hbody : (Process.inOrder Account.error? (Step.calls env ss) so).run w
        (c.fork (taskAt n i v)) x with ⟨_ | ⟨⟨out', e | _⟩, f⟩, y'⟩
      · rw [hbody] at h
        cases h
      · rw [hbody] at h
        obtain ⟨as, rfl, hturn⟩ := run_inOrder_iff.1 hbody
        cases h
        exact ⟨[f], as, rfl, .stopped hturn⟩
      · rw [hbody] at h
        obtain ⟨as, rfl, hturn⟩ := run_inOrder_iff.1 hbody
        obtain ⟨fs, bs, rfl, hiter⟩ := ih.1 h
        exact ⟨f :: fs, as ++ bs, List.append_assoc .., .next hturn hiter⟩
    · rintro ⟨fs, as, rfl, hiter⟩
      cases hiter with
      | next hturn hiter =>
        rw [hturn.run_eq, afterTurn, ih, ← List.append_assoc]
        exact ⟨_, _, rfl, hiter⟩
      | stopped hturn =>
        rw [hturn.run_eq]
        rfl

/-! ## What is left -/

namespace Iterations

/-- Every turn runs in a fork of what the turns before have left, made for its task, and but for the
last one no turn fails. -/
theorem exists_turn (h : Iterations env w ss n i vs c x fs as r d y) {k : Nat}
    (hk : k < fs.length) :
    ∃ v s bs f z z', vs[k]? = some v ∧ fs[k]? = some f ∧
      ((fs.take k).foldl Context.merge c).ForkedFor (taskAt n (i + k) v) s ∧
      Turn env w ss s z bs (if k + 1 < fs.length then .ok () else r) f z' ∧ bs <:+: as := by
  induction h generalizing k with
  | done => cases hk
  | @next i v vs c f d x y z as bs fs r hturn hiter ih =>
    cases k with
    | zero =>
      have hr : (if 0 + 1 < (f :: fs).length then .ok () else r) = .ok () := by
        cases hiter with
        | done => rfl
        | next | stopped => exact if_pos (by simp)
      refine ⟨v, _, as, f, x, y, rfl, rfl, c.forkedFor_fork _, ?_, (List.prefix_append _ _).isInfix⟩
      rw [hr]
      exact hturn
    | succ k =>
      obtain ⟨v', s, bs', f', z, z', hv, hf, hfork, hturn', hbs⟩ := ih (Nat.lt_of_succ_lt_succ hk)
      have hplace : i + (k + 1) = i + 1 + k := by omega
      simp only [List.length_cons, Nat.add_lt_add_iff_right]
      refine ⟨v', s, bs', f', z, z', hv, hf, ?_, hturn', hbs.trans (List.suffix_append _ _).isInfix⟩
      rw [hplace]
      exact hfork
  | @stopped i v vs c f x y as e hturn =>
    obtain rfl : k = 0 := Nat.lt_one_iff.1 hk
    exact ⟨v, _, as, f, x, y, rfl, rfl, c.forkedFor_fork _, hturn, List.infix_refl _⟩

theorem merged (h : Iterations env w ss n i vs c x fs as r d y) : c.Merged fs d := by
  induction h with
  | done i c x => exact c.merged_nil
  | next _ _ ih => exact ih.cons
  | stopped _ => exact Context.merged_stop ..

/-- As long as no step fails, there is a turn for every task. -/
theorem length_eq (h : Iterations env w ss n i vs c x fs as (.ok ()) d y) :
    fs.length = vs.length := by
  generalize hr : (.ok () : Except StepError Unit) = r at h
  induction h with
  | done => rfl
  | next _ _ ih => rw [List.length_cons, List.length_cons, ih hr]
  | stopped _ => cases hr

/-- An iteration that fails does so in the last of its turns, with the error of the last call. -/
theorem exists_of_error {e : StepError}
    (h : Iterations env w ss n i vs c x fs as (.error e) d y) :
    (0 < fs.length ∧ fs.length ≤ vs.length) ∧
      ∃ before a, as = before ++ [a] ∧ a.error? = some e := by
  generalize hr : (.error e : Except StepError Unit) = r at h
  induction h with
  | done => cases hr
  | @next i v vs c f d x y z as bs fs r _ _ ih =>
    obtain ⟨⟨-, hle⟩, before, a, rfl, ha⟩ := ih hr
    exact ⟨⟨Nat.zero_lt_succ _, Nat.succ_le_succ hle⟩, as ++ before, a,
      (List.append_assoc ..).symm, ha⟩
  | stopped hturn =>
    cases hr
    obtain ⟨before, a, rfl, ha, -⟩ := hturn.pass.exists_of_error
    exact ⟨⟨Nat.one_pos, Nat.succ_le_succ (Nat.zero_le _)⟩, before, a, rfl, ha⟩

end Iterations

variable {tasks : List Value}

/-- **Iterations over tasks.** If the path of an iteration leads to a list of tasks and no one else
writes to the context, the iteration takes a turn for each task of the list, in a fork of what the
turns before have left, up to the first turn that fails; and it ends with the error of that. In the
fork the task is at hand, with its place and the length of the list, and every step is called so.

However it ends, every variable that there was has the value that it had, and every new one has the
value that the first turn left that has it at its end. The changed files are those that there were
and those of the turns, that of the failing one included. -/
theorem merged_of_run (p : PerTask) (env : Environment) (ss : List Step) (w : World ω)
    (c : Context) (x : ω) (htasks : c.get? p.source = some (.array tasks)) :
    (∀ as r d y,
      (p.process (.inOrder Account.error? (Step.calls env ss))).run w c x =
          (some ((as, r), d), y) ↔
        ∃ fs, Iterations env w ss tasks.length 0 tasks c x fs as r d y) ∧
    ∀ fs as r d y, Iterations env w ss tasks.length 0 tasks c x fs as r d y →
      (r = .ok () → fs.length = tasks.length) ∧
      (∀ e, r = .error e → (0 < fs.length ∧ fs.length ≤ tasks.length) ∧
        ∃ before a, as = before ++ [a] ∧ a.error? = some e) ∧
      (∀ k < fs.length, ∃ v s bs f z z', tasks[k]? = some v ∧ fs[k]? = some f ∧
        ((fs.take k).foldl Context.merge c).ForkedFor ⟨taskId v k, k, tasks.length, v⟩ s ∧
        Turn env w ss s z bs (if k + 1 < fs.length then .ok () else r) f z' ∧ bs <:+: as ∧
        ∀ a ∈ bs, a.context.task = some ⟨taskId v k, k, tasks.length, v⟩) ∧
      (∀ name v, c.vars.get? name = some v → d.vars.get? name = some v) ∧
      (∀ name, c.vars.get? name = none →
        d.vars.get? name = fs.findSome? fun f ↦ f.vars.get? name) ∧
      (∀ file, file ∈ d.changedFiles ↔
        file ∈ c.changedFiles ∨ ∃ f ∈ fs, file ∈ f.changedFiles) ∧
      d.task = c.task ∧ d.completedPhases = c.completedPhases := by
  constructor
  · intro as r d y
    rw [process, Process.run, PerTask.tasks, htasks]
    dsimp only
    rw [run_iterate_iff]
    constructor
    · rintro ⟨fs, _, rfl, hiter⟩
      exact ⟨fs, hiter⟩
    · rintro ⟨fs, hiter⟩
      exact ⟨fs, as, rfl, hiter⟩
  · intro fs as r d y hiter
    have hmerged := hiter.merged
    refine ⟨?_, ?_, ?_, ?_, ?_, hmerged.mem_changedFiles, hmerged.task_eq,
      hmerged.completedPhases_eq⟩
    · rintro rfl
      exact hiter.length_eq
    · rintro e rfl
      exact hiter.exists_of_error
    · intro k hk
      obtain ⟨v, s, bs, f, z, z', hv, hf, hfork, hturn, hbs⟩ := hiter.exists_turn hk
      rw [Nat.zero_add] at hfork
      exact ⟨v, s, bs, f, z, z', hv, hf, hfork, hturn, hbs, fun a ha ↦
        (hturn.task_eq a ha).trans hfork.task_eq⟩
    · intro name v hv
      rw [hmerged.get?_eq, hv, Option.some_or]
    · intro name hnone
      rw [hmerged.get?_eq, hnone, Option.none_or]

/-! ## A variable that is written twice -/

/-- An iteration whose step writes the same variable in every turn. -/
def noting : PerTask := ⟨"each", "tasks"⟩

def notingSteps : List Step := [.code ⟨"note", "note", none, some "noted"⟩]

/-- Three tasks, one of which has an id of its own. -/
def notingTasks : List Value := [.object [("id", .string "t1")], .object [], .null]

def notingContext : Context where
  vars := [("tasks", .array notingTasks)]
  completedPhases := ["plan"]

/-- A stage on which the step succeeds twice, with different values, and then fails. -/
def notingStage : Rehearsal.Stage where
  script :=
    { handlers := [("note", { answers := [{ act := .give (.string "first") },
        { act := .give (.string "second") }, { act := .fail "no" }] })] }

def notingEnvironment : Environment :=
  { files := {}, tiers := { project := "project" }, handlers := ["note"] }

def notingRun : Option (Course × Context) × Rehearsal.Stage :=
  (noting.process (.inOrder Account.error? (Step.calls notingEnvironment notingSteps))).run
    Rehearsal.world notingContext notingStage

/-- The turn for the last task fails. The variable has the value of the first turn, which is not the
last that was written. -/
theorem merged_of_notingRun :
    ∃ as r d y, ∃ fs : List Context, notingRun = (some ((as, r), d), y) ∧
      r = .error (.handler "note" "note" "no") ∧ (0 < fs.length ∧ fs.length ≤ 3) ∧
      d.vars.get? "noted" = some (.string "first") ∧
      (fs.findSome? fun f ↦ f.vars.get? "noted") = some (.string "first") ∧
      (∃ s z q f z', notingContext.ForkedFor ⟨"t1", 0, 3, .object [("id", .string "t1")]⟩ s ∧
        fs[0]? = some f ∧ ∃ bs : List Account,
          Turn notingEnvironment Rehearsal.world notingSteps s z bs q f z' ∧ bs <:+: as ∧
          ∀ a ∈ bs, a.context.task = some ⟨"t1", 0, 3, .object [("id", .string "t1")]⟩) ∧
      d.vars.get? "tasks" = notingContext.vars.get? "tasks" ∧ d.task = none ∧
      d.completedPhases = ["plan"] := by
  have hends : notingRun.1.any (fun r ↦ r.1.2 == .error (.handler "note" "note" "no") &&
      decide (r.2.vars.get? "noted" = some (.string "first"))) = true := by
    decide +kernel
  rcases hrun : notingRun with ⟨_ | ⟨⟨as, r⟩, d⟩, y⟩
  · rw [hrun] at hends
    cases hends
  · rw [hrun] at hends
    obtain ⟨hr, hnoted⟩ := Bool.and_eq_true_iff.1 hends
    have hr := beq_iff_eq.1 hr
    have hnoted := of_decide_eq_true hnoted
    have htasks : notingContext.get? noting.source = some (.array notingTasks) := by
      decide +kernel
    obtain ⟨hiff, hleft⟩ := merged_of_run noting notingEnvironment notingSteps Rehearsal.world
      notingContext notingStage htasks
    obtain ⟨fs, hiter⟩ := (hiff as r d y).1 hrun
    obtain ⟨-, herror, hturns, hkept, hnew, -, htask, hphases⟩ := hleft fs as r d y hiter
    obtain ⟨v, s, bs, f, z, z', hv, hf, hfork, hturn, hbs, htasks'⟩ := hturns 0 (herror _ hr).1.1
    cases hv
    refine ⟨as, r, d, y, fs, rfl, hr, (herror _ hr).1, hnoted, ?_,
      ⟨s, z, _, f, z', hfork, hf, bs, hturn, hbs, htasks'⟩, hkept _ _ rfl, htask, hphases⟩
    rw [← hnew "noted" rfl, hnoted]

end PerTask

end Workflow
