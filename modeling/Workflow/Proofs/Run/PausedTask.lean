import Workflow.Proofs.Run.Pause
import Workflow.Rehearsal

/-!
# The task of a paused run

The checkpoint of a paused run names a task. It should be the one that the run stopped in: that of
the outermost iteration around the loop that asks for help, and none if there is no such iteration.
The checkpoint names instead whatever task was marked last, and a mark is never taken back. A group
that fails for another reason, or on account of another pause, leaves the marks of its children
behind, be it in a phase that the run goes on after.

So the checkpoint names a task exactly if one was marked in the run, and then one of these. It is
the right one unless a group lost a mark, and no group can do so in a workflow without groups.
-/

namespace Workflow.Run

open Context (Remembers)

variable {ω : Type} {env : Environment} {failFast : Bool} {w : World ω}

/-! ## Marks on the way -/

/-- The tasks that are marked in the call at a position, if one ends there. -/
def Position.marks (env : Environment) (w : World ω) (p : Position ω) : Set String :=
  {id | ∃ phase rest a c x, Calls env w p phase rest a c x ∧ a.Marks id}

theorem Calls.marks_eq {p : Position ω} {phase : Step} {rest : List Step} {a : Account}
    {c : Context} {x : ω} (h : Calls env w p phase rest a c x) : p.marks env w = a.marks := by
  ext id
  constructor
  · rintro ⟨phase', rest', a', c', x', h', hid⟩
    obtain ⟨-, -, rfl, -, -⟩ := h.unique h'
    exact hid
  · exact fun hid ↦ ⟨phase, rest, a, c, x, h, hid⟩

theorem Calls.remembers {p : Position ω} {phase : Step} {rest : List Step} {a : Account}
    {c : Context} {x : ω} (h : Calls env w p phase rest a c x) :
    Remembers (p.marks env w) p.context c := by
  rw [h.marks_eq]
  exact (Step.grows_of_run h.run_eq).1.pausedTask

theorem pausedTask_markCompleted (c : Context) (phase : String) :
    (c.markCompleted phase).pausedTask = c.pausedTask := by
  unfold Context.markCompleted
  split <;> rfl

theorem Onward.remembers {p q : Position ω} (h : Onward env failFast w p q) :
    Remembers (p.marks env w) p.context q.context := by
  cases h with
  | passed hl hc hr =>
    refine .inl ⟨Set.eq_empty_of_forall_notMem ?_, rfl⟩
    rintro id ⟨phase, rest, a, c, x, h, -⟩
    rw [h.not_passed hl] at hc
    cases hc
  | completed h he ha =>
    rw [Remembers, pausedTask_markCompleted]
    exact h.remembers
  | skipped h he => exact h.remembers
  | failed h he hp hf hff => exact h.remembers

/-- What a context remembers is what was marked on the way, and on the way there are all positions
that a walk reaches but those that are still to come. -/
theorem Reaches.exists_marks {p q : Position ω} (h : Reaches env failFast w p q) :
    ∃ marks, Remembers marks p.context q.context ∧
      (∀ id ∈ marks, ∃ m, Reaches env failFast w p m ∧ id ∈ m.marks env w) ∧
      ∀ m, Reaches env failFast w p m → Reaches env failFast w q m ∨ m.marks env w ⊆ marks := by
  induction h with
  | refl => exact ⟨∅, Context.remembers_of_eq rfl, nofun, fun m hm ↦ .inl hm⟩
  | @tail q q' hq hnext ih =>
    obtain ⟨marks, hrem, hfrom, hall⟩ := ih
    refine ⟨marks ∪ q.marks env w, hrem.trans hnext.remembers, ?_, fun m hm ↦ ?_⟩
    · rintro id (hid | hid)
      · exact hfrom id hid
      · exact ⟨q, hq, hid⟩
    · rcases hall m hm with hqm | hsub
      · rcases hqm.cases_head with rfl | ⟨q'', hq'', hrest⟩
        · exact .inr Set.subset_union_right
        · obtain rfl := hnext.unique hq''
          exact .inl hrest
      · exact .inr (hsub.trans Set.subset_union_left)

/-! ## Calls that a walk goes on after -/

/-- A walk does not go on after a call in which a task was marked, unless a group lost the mark. -/
theorem Onward.marks_eq_empty {p q : Position ω} (h : Onward env failFast w p q)
    {phase : Step} {rest : List Step} {a : Account} {c : Context} {x : ω}
    (hcalls : Calls env w p phase rest a c x)
    (hkept : ∀ g : Account, g.Within a → ¬g.LosesMark) : p.marks env w = ∅ := by
  rw [hcalls.marks_eq]
  refine Set.eq_empty_of_forall_notMem fun id hid ↦ ?_
  obtain ⟨-, hregular, rs, htrail⟩ := hcalls.trail
  -- such a call pauses, or it ends with what a sink refused, and either is the end of the walk
  have hends : ∃ e, a.ending = .error e ∧ (e.isPause = true ∨ e.isFatal = true) := by
    rcases htrail.pausedBy_of_marks hregular hid hkept with
      ⟨l, blocker, τ, hp, -⟩ | ⟨reason, hreason⟩
    · exact ⟨_, Account.error?_eq_some.1 hp.error_eq, .inl rfl⟩
    · exact ⟨_, Account.error?_eq_some.1 hreason, .inr rfl⟩
  obtain ⟨e, he, hend⟩ := hends
  rcases h.of_calls hcalls with ⟨hok, -⟩ | ⟨hok, -⟩ | ⟨e', he', hp, hf, -⟩
  · cases he.symm.trans hok
  · cases he.symm.trans hok
  · obtain rfl := Except.error.inj (he.symm.trans he')
    rw [hp, hf] at hend
    simp at hend

/-- The pause at the end of a walk is marked with the task of the outermost iteration that it comes
through, and with no other one unless a group lost its mark. -/
theorem Calls.marks_of_pausedBy {p : Position ω} {phase : Step} {rest : List Step} {a : Account}
    {c : Context} {x : ω} (h : Calls env w p phase rest a c x) {l : Loop} {blocker : String}
    {t : Option Task} (hp : a.PausedBy l blocker t)
    (hkept : ∀ g : Account, g.Within a → ¬g.LosesMark) {id : String} (hid : a.Marks id) :
    t.map Task.id = some id := by
  obtain ⟨-, hregular, rs, htrail⟩ := h.trail
  rcases htrail.pausedBy_of_marks hregular hid hkept with ⟨l', blocker', τ, hp', rfl⟩ | ⟨reason, hr⟩
  · rw [hp.unique hp']
    rfl
  · cases hp.error_eq.symm.trans hr

namespace Launch

/-- The tasks that are marked in a run. -/
def marks (l : Launch) (env : Environment) (w : World ω) (x : ω) : Set String :=
  {id | ∃ q, l.Visits w x env q ∧ id ∈ q.marks env w}

/-- In a run there is a group that loses a mark. -/
def LosesMark (l : Launch) (env : Environment) (w : World ω) (x : ω) : Prop :=
  ∃ q phase rest a c y, l.Visits w x env q ∧ Calls env w q phase rest a c y ∧
    ∃ g : Account, g.Within a ∧ g.LosesMark

variable {l : Launch} {x : ω}

/-- A group loses a mark only in a workflow with a group. -/
theorem not_losesMark (h : ∀ phase ∈ l.workflow.phases, ∀ s : Step, s.Inside phase →
    s.kind ≠ .parallel) : ¬l.LosesMark env w x := by
  rintro ⟨q, phase, rest, a, c, y, hq, hcalls, g, hg, hkind, -⟩
  exact h phase (hq.mem_phases hcalls) g.step (hcalls.step_inside hg) hkind

theorem remembers_of_visits {specPath : Option String} (hfresh : l.outset = .fresh specPath)
    {q : Position ω} (hq : l.Visits w x env q) {phase : Step} {rest : List Step} {a : Account}
    {c : Context} {y : ω} (hcalls : Calls env w q phase rest a c y)
    (hlast : ∀ m, ¬Onward env l.workflow.failFast w q m) :
    Remembers (l.marks env w x) .empty c := by
  obtain ⟨p, hp, hreach⟩ := hq
  have hempty : p.context = .empty := by
    obtain ⟨first, spec, -, -, rfl⟩ := exists_of_beginning hp
    exact congrArg Outset.context hfresh
  obtain ⟨marks, hrem, hfrom, hall⟩ := hreach.exists_marks
  have hmarks : l.marks env w x = marks ∪ q.marks env w := by
    ext id
    constructor
    · rintro ⟨m, ⟨p', hp', hm⟩, hid⟩
      obtain ⟨-, rfl⟩ := Prod.mk.inj (Except.ok.inj (hp.symm.trans hp'))
      rcases hall m hm with hqm | hsub
      · rcases hqm.cases_head with rfl | ⟨m', hm', -⟩
        · exact .inr hid
        · exact absurd hm' (hlast m')
      · exact .inl (hsub hid)
    · rintro (hid | hid)
      · obtain ⟨m, hm, hid⟩ := hfrom id hid
        exact ⟨m, ⟨p, hp, hm⟩, hid⟩
      · exact ⟨q, ⟨p, hp, hreach⟩, hid⟩
  rw [hmarks, ← hempty]
  exact hrem.trans hcalls.remembers

theorem marks_subset (hkept : ¬l.LosesMark env w x) {q : Position ω} (hq : l.Visits w x env q)
    (hlast : ∀ m, ¬Onward env l.workflow.failFast w q m) :
    l.marks env w x ⊆ q.marks env w := by
  rintro task ⟨m, hm, hmarked⟩
  obtain ⟨p, hp, hreach⟩ := hq
  obtain ⟨p', hp', hreach'⟩ := hm
  obtain ⟨-, rfl⟩ := Prod.mk.inj (Except.ok.inj (hp.symm.trans hp'))
  have hmq : Reaches env l.workflow.failFast w m q := by
    rcases hreach'.total hreach with hmq | hqm
    · exact hmq
    · rcases hqm.cases_head with rfl | ⟨m', hm', -⟩
      · exact .refl
      · exact absurd hm' (hlast m')
  rcases hmq.cases_head with rfl | ⟨m', hm', -⟩
  · exact hmarked
  · -- a walk would not have gone on after a mark that no group lost
    have ⟨phase, rest, a, c, y, hcalls, _⟩ := hmarked
    rw [hm'.marks_eq_empty hcalls fun g hg hg' ↦
      hkept ⟨m, phase, rest, a, c, y, ⟨p, hp, hreach'⟩, hcalls, g, hg, hg'⟩] at hmarked
    cases hmarked

/-- If no group loses a mark, a paused run remembers the task of the outermost iteration that the
pause comes through, and none if there is no such iteration. -/
theorem pausedTask_eq {specPath : Option String} (hfresh : l.outset = .fresh specPath)
    {q : Position ω} (hq : l.Visits w x env q) {phase : Step} {rest : List Step} {a : Account}
    {c : Context} {y : ω} (hcalls : Calls env w q phase rest a c y)
    (hlast : ∀ m, ¬Onward env l.workflow.failFast w q m) {loop : Loop} {blocker : String}
    {t : Option Task} (hpaused : a.PausedBy loop blocker t) (hkept : ¬l.LosesMark env w x) :
    c.pausedTask = t.map Task.id := by
  have hrun := remembers_of_visits hfresh hq hcalls hlast
  have hsub : l.marks env w x ⊆ a.marks := hcalls.marks_eq ▸ marks_subset hkept hq hlast
  have hgroups : ∀ g : Account, g.Within a → ¬g.LosesMark := fun g hg hg' ↦
    hkept ⟨q, phase, rest, a, c, y, hq, hcalls, g, hg, hg'⟩
  rcases hrun with ⟨hempty, hnone⟩ | ⟨id, hid, hsome⟩
  · cases t with
    | none => exact hnone
    | some τ =>
      -- the iteration marked its task, so something is marked in the run
      have hτ : τ.id ∈ l.marks env w x := ⟨q, hq, hcalls.marks_eq ▸ hpaused.marks⟩
      rw [hempty] at hτ
      cases hτ
  · rw [hsome, hcalls.marks_of_pausedBy hpaused hgroups (hsub hid)]

theorem exists_pausedBy {y : ω} {r : RunResult} (h : l.run w x = (.ok r, y))
    (hp : r.status = .paused) :
    ∃ env q phase rest a c loop blocker t, l.Visits w x env q ∧
      Calls env w q phase rest a c y ∧ (∀ m, ¬Onward env l.workflow.failFast w q m) ∧
      a.PausedBy loop blocker t ∧
      r = result l.runId l.workflow c (.paused phase.name blocker) := by
  obtain ⟨env, q, phase, rest, a, c, step, blocker, hq, hcalls, he, hr⟩ := exists_pause h hp
  obtain ⟨-, hregular, rs, htrail⟩ := hcalls.trail
  obtain ⟨loop, t, -, hpaused⟩ :=
    htrail.exists_pausedBy hregular (Account.error?_eq_some.2 he)
  have hlast : ∀ m, ¬Onward env l.workflow.failFast w q m :=
    (Ends.paused hcalls he).not_onward
  exact ⟨env, q, phase, rest, a, c, loop, blocker, t, hq, hcalls, hlast, hpaused, hr⟩

end Launch

/-- **The task of a pause.** Let a fresh run pause. It has called a phase, and the pause of this
call comes from a loop, which is what the result says to block the run. The checkpoint names a task
if and only if one was marked in the run. It is one of these, and one that was marked in the phase
itself if there is any. Unless there is a group in the run that lost a mark, it is the task that the
outermost iteration around the loop was at, and none is named if there is no iteration around it; so
this holds whenever there is no group in the workflow. -/
theorem currentTask_of_run {l : Launch} {specPath : Option String}
    (hfresh : l.outset = .fresh specPath) {x y : ω} {r : RunResult}
    (h : l.run w x = (.ok r, y)) (hp : r.status = .paused) :
    ∃ env q phase rest a c loop blocker t cp, l.Visits w x env q ∧
      Calls env w q phase rest a c y ∧ r.pausedAt = some phase.name ∧
      a.PausedBy loop blocker t ∧ r.blocker = some blocker ∧ r.checkpoint = some cp ∧
      (cp.currentTask = none ↔ l.marks env w x = ∅) ∧
      (∀ id, cp.currentTask = some id →
        id ∈ l.marks env w x ∧ (a.marks.Nonempty → id ∈ a.marks)) ∧
      (cp.currentTask = t.map Task.id ∨ l.LosesMark env w x) ∧
      ((∀ phase ∈ l.workflow.phases, ∀ s : Step, s.Inside phase → s.kind ≠ .parallel) →
        cp.currentTask = t.map Task.id) := by
  obtain ⟨env, q, phase, rest, a, c, loop, blocker, t, hq, hcalls, hlast, hpaused, rfl⟩ :=
    Launch.exists_pausedBy h hp
  have htask : c.checkpoint.currentTask = c.pausedTask :=
    (hcalls.framed.atRest hq.atRest).currentTask_checkpoint
  have hrun : Remembers (l.marks env w x) .empty c :=
    Launch.remembers_of_visits hfresh hq hcalls hlast
  have hcall : Remembers a.marks q.context c := hcalls.marks_eq ▸ hcalls.remembers
  have hright : c.pausedTask = t.map Task.id ∨ l.LosesMark env w x :=
    or_iff_not_imp_right.2 (Launch.pausedTask_eq hfresh hq hcalls hlast hpaused)
  refine ⟨env, q, phase, rest, a, c, loop, blocker, t, c.checkpoint, hq, hcalls, rfl, hpaused, rfl,
    rfl, ?_⟩
  rw [htask]
  refine ⟨hrun.eq_none_iff rfl, fun id hid ↦ ?_, hright,
    fun hgroups ↦ hright.resolve_right (Launch.not_losesMark hgroups)⟩
  have hmarked : (l.marks env w x).Nonempty := by
    refine Set.nonempty_iff_ne_empty.2 fun hempty ↦ ?_
    cases hid.symm.trans ((hrun.eq_none_iff rfl).2 hempty)
  exact ⟨hrun.mem hmarked hid, fun hmarks ↦ hcall.mem hmarks hid⟩

/-! ## A mark that stays -/

/-- A workflow that goes on after failures. In its first phase a group fails on account of a
handler, and beside it an iteration stops with a pause; the second phase is a loop that asks for
help. -/
def staleDocument : Json.Value :=
  .object [("name", .string "stale"),
    ("phases", .array [
      .object [("condition", .string "false"), ("maxRetries", .ofNat 1), ("name", .string "early"),
        ("steps", .array [
          .object [("handler", .string "plan"), ("name", .string "plan"),
            ("output", .string "tasks"), ("type", .string "code")],
          .object [("name", .string "both"),
            ("steps", .array [
              .object [("handler", .string "bad"), ("name", .string "broken"),
                ("type", .string "code")],
              .object [("name", .string "each"), ("source", .string "tasks"),
                ("steps", .array [
                  .object [("condition", .string "true"), ("maxRetries", .ofNat 1),
                    ("name", .string "inner"),
                    ("steps", .array [
                      .object [("handler", .string "slow"), ("name", .string "slow"),
                        ("type", .string "code")]]),
                    ("type", .string "loop")]]),
                ("type", .string "per-task")]]),
            ("type", .string "parallel")]]),
        ("type", .string "loop")],
      .object [("condition", .string "true"), ("maxRetries", .ofNat 1), ("name", .string "polish"),
        ("steps", .array [
          .object [("handler", .string "good"), ("name", .string "once"),
            ("type", .string "code")]]),
        ("type", .string "loop")]]),
    ("safety", .object [("failOnStepError", .bool false)]),
    ("version", .string "1")]

/-- The last phase of that workflow, a loop outside all iterations. -/
def stalePolish : Step :=
  .loop ⟨"polish", "true", 1, .escalate⟩ [.code ⟨"once", "good", none, none⟩]

def stale : Launch where
  host :=
    { files := {}, tiers := { project := "project" }, handlers := ["bad", "good", "plan", "slow"] }
  runId := ⟨0⟩
  workflow := ⟨"stale", "1", {}, some { failOnStepError := false },
    [.loop ⟨"early", "false", 1, .escalate⟩ [.code ⟨"plan", "plan", none, some "tasks"⟩,
      .parallel ⟨"both", none⟩ [.code ⟨"broken", "bad", none, none⟩,
        .perTask ⟨"each", "tasks"⟩ [.loop ⟨"inner", "true", 1, .escalate⟩
          [.code ⟨"slow", "slow", none, none⟩]]]],
      stalePolish]⟩
  outset := .fresh none

/-- A stage on which there is one task, and a call for it that takes some time. -/
def staleStage : Rehearsal.Stage where
  script :=
    { handlers := [("bad", { answers := [{ act := .fail "no" }] }),
      ("good", { answers := [{ act := .give .null }] }),
      ("plan", { answers := [{ act := .give (.array [.object [("id", .string "t1")]]) }] }),
      ("slow", { answers := [{ delay := 5, act := .give .null }] })] }

theorem exists_run_stale :
    ∃ r y, stale.run Rehearsal.world staleStage = (.ok r, y) ∧ r.status = .paused ∧
      r.pausedAt = some "polish" ∧ r.checkpoint.map Checkpoint.currentTask = some (some "t1") := by
  have hends : (stale.run Rehearsal.world staleStage).1.toOption.map (fun r ↦
      (r.status, r.pausedAt, r.checkpoint.map Checkpoint.currentTask)) =
        some (.paused, some "polish", some (some "t1")) := by
    decide +kernel
  obtain ⟨r, y, hrun, hr⟩ := Launch.exists_result hends
  obtain ⟨hstatus, hr⟩ := Prod.mk.inj hr
  obtain ⟨hat, hcp⟩ := Prod.mk.inj hr
  exact ⟨r, y, hrun, hstatus, hat, hcp⟩

theorem kind_ne_of_inside_stalePolish {s : Step} (h : s.Inside stalePolish) :
    s.kind ≠ .perTask := by
  cases h with
  | refl => decide
  | child hmem h =>
    obtain rfl := List.mem_singleton.1 hmem
    cases h with
    | refl => decide
    | child hmem _ => cases hmem

/-- A run pauses in a phase without an iteration, and its checkpoint names a task. -/
theorem stale_names_task :
    Definition.validate staleDocument = .ok stale.workflow ∧
    ∃ r y cp env q phase rest a c loop blocker,
      stale.run Rehearsal.world staleStage = (.ok r, y) ∧ r.status = .paused ∧
        Calls env Rehearsal.world q phase rest a c y ∧ r.pausedAt = some phase.name ∧
        (∀ s : Step, s.Inside phase → s.kind ≠ .perTask) ∧ a.PausedBy loop blocker none ∧
        r.blocker = some blocker ∧ r.checkpoint = some cp ∧ cp.currentTask = some "t1" := by
  refine ⟨by decide +kernel, ?_⟩
  obtain ⟨r, y, hrun, hstatus, hat, hcp⟩ := exists_run_stale
  obtain ⟨env, q, phase, rest, a, c, loop, blocker, t, hq, hcalls, -, hpaused, hr⟩ :=
    Launch.exists_pausedBy hrun hstatus
  have hname : phase.name = "polish" := by
    rw [hr] at hat
    exact Option.some.inj hat
  obtain rfl : phase = stalePolish := by
    rcases List.mem_pair.1 (hq.mem_phases hcalls) with rfl | rfl
    · exact absurd hname (by decide)
    · rfl
  obtain ⟨cp, hcp, hcurrent⟩ := Option.map_eq_some_iff.1 hcp
  have hnone : t = none := by
    refine Option.eq_none_iff_forall_ne_some.2 fun τ hτ ↦ ?_
    obtain ⟨g, hg, hkind⟩ := (hτ ▸ hpaused).exists_perTask
    exact kind_ne_of_inside_stalePolish (hcalls.step_inside hg) hkind
  exact ⟨r, y, cp, env, q, stalePolish, rest, a, c, loop, blocker, hrun, hstatus, hcalls, hat,
    fun s ↦ kind_ne_of_inside_stalePolish, hnone ▸ hpaused, by rw [hr]; rfl, hcp, hcurrent⟩

theorem currentTask_of_stale :
    ∃ r y cp env, stale.run Rehearsal.world staleStage = (.ok r, y) ∧ r.status = .paused ∧
      r.checkpoint = some cp ∧ cp.currentTask = some "t1" ∧
      "t1" ∈ stale.marks env Rehearsal.world staleStage := by
  obtain ⟨r, y, hrun, hstatus, -, hcp⟩ := exists_run_stale
  obtain ⟨cp, hcp, hcurrent⟩ := Option.map_eq_some_iff.1 hcp
  obtain ⟨env, _, _, _, _, _, _, _, _, cp', _, _, _, _, _, hcp', _, hmarked, _, _⟩ :=
    currentTask_of_run rfl hrun hstatus
  obtain rfl := Option.some.inj (hcp.symm.trans hcp')
  exact ⟨r, y, cp, env, hrun, hstatus, hcp, hcurrent, (hmarked "t1" hcurrent).1⟩

end Workflow.Run
