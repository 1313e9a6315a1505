import Workflow.Proofs.Account.Call
import Workflow.Proofs.Run.Chain
import Workflow.Proofs.Step.Disable

/-!
# Runs that skip agent steps

What the host skips in a run might as well be turned off in the workflow: `Launch.disabling` is the
run that skips nothing of a workflow in which these steps are turned off. `skipping_eq_disabling`
says that nothing but the reasons in the reports of skipped steps tells the two runs apart, and that
a phase which is skipped is never completed.

A world may look at everything that is reported to it, so this is said of worlds that overlook those
reasons. Other worlds can tell the two runs apart, since the reasons do differ.
-/

namespace Workflow

open Process (Act Path)

variable {ω : Type} {w : World ω} {R : ω → ω → Prop}

/-- Runs of two processes that begin in the same state and in related worlds end with the same, in
related worlds, and do the same on the way but for the reasons why steps are skipped. -/
def Process.RunAlike {σ α : Type} (w : World ω) (R : ω → ω → Prop) (p q : Process σ α) : Prop :=
  ∀ s x y, R x y → (p.run w s x).1 = (q.run w s y).1 ∧ R (p.run w s x).2 (q.run w s y).2 ∧
    List.Forall₂ Act.Alike (p.acts w s x) (q.acts w s y)

theorem Process.Similar.runAlike {σ α : Type} {p q : Process σ α} (h : Process.Similar Eq Eq p q)
    (hw : w.Overlooks R) : p.RunAlike w R q := fun s _ _ hxy ↦
  have ⟨hend, hworld⟩ := h.run hw s hxy
  ⟨hend, hworld, h.acts hw s hxy⟩

theorem World.Overlooks.within (hw : w.Overlooks R) (limit : Option Nat) {x y : ω} (hxy : R x y) :
    R (w.within limit x) (w.within limit y) := by
  cases limit with
  | none => exact hxy
  | some ms => exact hw.limit ms hxy

/-- Whether a host skips agent steps of a name. -/
def RunOptions.skips (o : RunOptions) (name : String) : Bool :=
  o.skippedSteps.contains name || o.skipChecks && isCheckName name

namespace Run

/-! ## Walks -/

theorem similar_proceeding {failFast : Bool} {failed : List (String × String)} {phase : String}
    {next next' : List (String × String) → Process Context (Except RunError Walk)}
    (h : ∀ failed, Process.Similar Eq Eq (next failed) (next' failed))
    (r : Except StepError StepStatus) :
    Process.Similar Eq Eq (proceeding failFast failed phase next r)
      (proceeding failFast failed phase next' r) := by
  cases r with
  | ok status =>
    cases status with
    | completed =>
      refine .write (fun c d hcd ↦ by rw [hcd]) (.read fun c d hcd ↦ ?_)
      subst hcd
      refine .announce fun answer ↦ ?_
      cases answer with
      | none => exact h failed
      | some reason => exact .done rfl
    | skipped => exact h failed
  | error e =>
    rw [proceeding, proceeding]
    split
    · exact .done rfl
    · split
      · exact .done rfl
      · exact h _

theorem similar_walk (env : Environment) (failFast : Bool) (failed : List (String × String))
    (phases : List Step) :
    Process.Similar Eq Eq (walk env failFast failed phases)
      (walk env.unskipping failFast failed (Step.disableAll env.skips phases)) := by
  induction phases generalizing failed with
  | nil => exact .done rfl
  | cons phase phases ih =>
    rw [Step.disableAll, walk, walk, Step.name_disable]
    refine .read fun c d hcd ↦ ?_
    subst hcd
    split
    · refine .report (.refl _) fun answer ↦ ?_
      cases answer with
      | none => exact ih failed
      | some reason => exact .done rfl
    · refine (phase.similar_process env).bind fun r r' hr ↦ ?_
      subst hr
      exact similar_proceeding ih r

/-! ## Launches -/

namespace Launch

/-- The same run, with what it skips turned off in the workflow. -/
def disabling (l : Launch) : Launch where
  host :=
    { l.host with options := { l.host.options with skippedSteps := [], skipChecks := false } }
  runId := l.runId
  workflow :=
    { l.workflow with phases := Step.disableAll l.host.options.skips l.workflow.phases }
  outset := l.outset

theorem firstPhase_disabling (l : Launch) (phase : Option String) :
    firstPhase l.disabling.workflow phase = firstPhase l.workflow phase := by
  cases phase with
  | none => rfl
  | some phase =>
    have hindex : l.disabling.workflow.phaseIndex? phase = l.workflow.phaseIndex? phase := by
      rw [Definition.phaseIndex?, Definition.phaseIndex?, disabling]
      simp only [Step.disableAll_eq_map, List.findIdx?_map, Function.comp_def, Step.name_disable]
    rw [firstPhase, firstPhase, hindex]

theorem loadSpec_disabling (l : Launch) :
    loadSpec l.disabling.host.files (l.disabling.outset.specPath l.disabling.host) =
      loadSpec l.host.files (l.outset.specPath l.host) := by
  obtain ⟨_, _, _, _ | _⟩ := l
  · rfl
  · rfl

/-- The two runs begin at the same place, or for the same reason not at all. -/
theorem beginning_disabling (l : Launch) (w : World ω) (x y : ω) :
    (∃ e, l.beginning w x = .error e ∧ l.disabling.beginning w y = .error e) ∨
      ∃ env left, l.beginning w x =
          .ok (env, ⟨[], left, l.outset.context, w.within l.workflow.limit x⟩) ∧
        l.disabling.beginning w y = .ok (env.unskipping,
          ⟨[], Step.disableAll env.skips left, l.outset.context, w.within l.workflow.limit y⟩) := by
  have hfirst : firstPhase l.disabling.workflow l.disabling.outset.fromPhase =
      firstPhase l.workflow l.outset.fromPhase := l.firstPhase_disabling _
  unfold beginning
  rw [hfirst, l.loadSpec_disabling]
  cases firstPhase l.workflow l.outset.fromPhase with
  | error e => exact .inl ⟨e, rfl, rfl⟩
  | ok first =>
    cases loadSpec l.host.files (l.outset.specPath l.host) with
    | error e => exact .inl ⟨e, rfl, rfl⟩
    | ok spec =>
      refine .inr ⟨_, _, rfl, ?_⟩
      rw [Step.disableAll_eq_map, List.map_drop, ← Step.disableAll_eq_map]
      rfl

theorem conclude_disabling (l : Launch) {r r' : Option (Except RunError Walk × Context) × ω}
    (h : r.1 = r'.1) :
    (conclude l.runId l.workflow r).1 =
      (conclude l.disabling.runId l.disabling.workflow r').1 := by
  obtain ⟨r, x⟩ := r
  obtain ⟨_, y⟩ := r'
  obtain rfl : r = _ := h
  obtain _ | ⟨_ | ended, c⟩ := r
  · rfl
  · rfl
  · obtain _ | _ := ended
    · rfl
    · rfl

theorem run_alike (hw : w.Overlooks R) (l : Launch) {x y : ω} (hxy : R x y) :
    (l.run w x).1 = (l.disabling.run w y).1 ∧ R (l.run w x).2 (l.disabling.run w y).2 ∧
      List.Forall₂ Act.Alike (l.acts w x) (l.disabling.acts w y) := by
  rcases l.beginning_disabling w x y with ⟨e, hl, hd⟩ | ⟨env, left, hl, hd⟩
  · rw [run_of_error hl, run_of_error hd, acts, hl, acts, hd]
    exact ⟨rfl, hxy, .nil⟩
  · obtain ⟨hend, hworld, hacts⟩ := (similar_walk env l.workflow.failFast [] left).runAlike hw
      l.outset.context _ _ (hw.within l.workflow.limit hxy)
    rw [run_of_ok hl, run_of_ok hd, acts, hl, acts, hd, snd_conclude, snd_conclude]
    exact ⟨l.conclude_disabling hend, hworld, hacts⟩

end Launch

/-! ## Skipped phases -/

theorem exists_skipReason_of_path {env : Environment} {s : Step} {body : Process Context Course}
    {c : Context} {as : List (Act Context)} {a : Account}
    (h : Path (s.audited env body) (.read c :: as) a) (ha : a.ending = .ok .skipped) :
    ∃ reason, skipReason env c s = some reason := by
  -- the only other ways to end are those of the body, and a refused report
  rcases path_audited_cases h with
    ⟨_, _, reason, heq, hskip, -⟩ | ⟨_, _, course, -, -, hending, -⟩ | ⟨_, _, -, hending⟩
  · cases heq
    exact ⟨reason, hskip⟩
  · rw [ha] at hending
    cases hr : course.2 <;> rw [hr] at hending <;> cases hending
  · rw [ha] at hending
    cases hending

theorem context_eq_of_skipped {env : Environment} {s : Step} {c c' : Context} {x y : ω}
    {a : Account} (h : (s.call env).run w c x = (some (a, c'), y))
    (ha : a.ending = .ok .skipped) : c' = c := by
  obtain ⟨body, hbody⟩ : ∃ body, s.call env = s.audited env body := by
    cases s <;> exact ⟨_, by rw [Step.call]⟩
  rw [hbody] at h
  obtain ⟨reason, hs⟩ := exists_skipReason_of_path (Process.path_acts h) ha
  simp only [Step.audited, Process.run, hs, reporting] at h
  -- the sink may take the report or refuse it, and nothing comes after
  split at h
  · cases h
    rfl
  · cases h
    rfl

variable {env : Environment} {failFast : Bool}

/-- A phase that is skipped is not completed at any position of the walk, unless one of the same
name comes after it. -/
theorem Reaches.not_completed_of_skipped {p q q' : Position ω}
    (hq : Reaches env failFast w p q) (hq' : Reaches env failFast w p q') {phase : Step}
    {rest : List Step} {a : Account} {c : Context} {x : ω} (h : Calls env w q phase rest a c x)
    (ha : a.ending = .ok .skipped) (hname : phase.name ∉ rest.map Step.name) :
    phase.name ∉ q'.context.completedPhases := by
  have hnot := Context.isCompleted_eq_false.1 h.not_completed
  rcases hq.total hq' with hafter | hbefore
  · rcases hafter.cases_head with rfl | ⟨m, hm, hafter⟩
    · exact hnot
    · rcases hm.of_calls h with ⟨hc, -⟩ | ⟨-, rfl⟩ | ⟨e, he, -⟩
      · cases ha.symm.trans hc
      · -- what is completed later are phases that are still left
        obtain ⟨between, new, hl, hnew, hc⟩ := Reaches.advance hafter
        rw [hc, context_eq_of_skipped h.run_eq ha, List.mem_append, not_or]
        refine ⟨hnot, fun hmem ↦ hname ?_⟩
        rw [show rest = between ++ q'.left from hl, List.map_append]
        exact List.mem_append_left _ (hnew.subset hmem)
      · cases ha.symm.trans he
  · obtain ⟨between, new, -, -, hc⟩ := hbefore.advance
    rw [hc] at hnot
    exact fun hmem ↦ hnot (List.mem_append_left _ hmem)

namespace Launch

theorem Visits.not_completed_of_skipped {l : Launch} {x : ω} {q q' : Position ω}
    (hq : l.Visits w x env q) (hq' : l.Visits w x env q') {phase : Step}
    {rest : List Step} {a : Account} {c : Context} {y : ω} (h : Calls env w q phase rest a c y)
    (ha : a.ending = .ok .skipped) (hname : phase.name ∉ rest.map Step.name) :
    phase.name ∉ q'.context.completedPhases := by
  obtain ⟨p, hp, hreach⟩ := hq
  obtain ⟨p', hp', hreach'⟩ := hq'
  obtain ⟨-, rfl⟩ := Prod.mk.inj (Except.ok.inj (hp.symm.trans hp'))
  exact hreach.not_completed_of_skipped hreach' h ha hname

theorem not_completed_of_skipped {l : Launch} {x z : ω} {r : RunResult}
    (hr : l.run w x = (.ok r, z)) {q : Position ω} (hq : l.Visits w x env q) {phase : Step}
    {rest : List Step} {a : Account} {c : Context} {y : ω} (h : Calls env w q phase rest a c y)
    (ha : a.ending = .ok .skipped) (hname : phase.name ∉ rest.map Step.name) :
    phase.name ∉ r.completedPhases := by
  obtain ⟨env', q', ended, c', hq', hend, rfl⟩ := exists_visits_ends hr
  obtain rfl : env' = env := by
    obtain ⟨p, hp, -⟩ := hq
    obtain ⟨p', hp', -⟩ := hq'
    exact (Prod.mk.inj (Except.ok.inj (hp'.symm.trans hp))).1
  rw [completedPhases_result, hend.framed.completedPhases_eq]
  exact hq.not_completed_of_skipped hq' h ha hname

end Launch

/-! ## Skipping equals disabling -/

/-- **Skipping and disabling.** In a world that overlooks the reasons why steps are skipped, let a
step be run that is told to skip some of its parts, and in a related state of the world the step
with these parts turned off, where nothing is skipped. Both end in the same way and leave the same
context; and both do the same in the same order, calls and reports alike, but for those reasons. The
same holds of a run and of the run with what it skips turned off in its workflow. A phase that is
skipped in a run leaves the context as it was, and unless a phase of the same name comes after it,
it is not completed at any position that the run visits, nor in its result. -/
theorem skipping_eq_disabling (hw : w.Overlooks R) :
    (∀ (env : Environment) (s : Step),
      (s.process env).RunAlike w R ((s.disable env.skips).process env.unskipping)) ∧
    (∀ (l : Launch) (x y : ω), R x y →
      (l.run w x).1 = (l.disabling.run w y).1 ∧ R (l.run w x).2 (l.disabling.run w y).2 ∧
        List.Forall₂ Act.Alike (l.acts w x) (l.disabling.acts w y)) ∧
    ∀ (l : Launch) (x y : ω) (env : Environment) (q : Position ω) (phase : Step)
      (rest : List Step) (a : Account) (c : Context), l.Visits w x env q →
        Calls env w q phase rest a c y → a.ending = .ok .skipped →
          c = q.context ∧ (phase.name ∉ rest.map Step.name →
            (∀ q', l.Visits w x env q' → phase.name ∉ q'.context.completedPhases) ∧
              ∀ r z, l.run w x = (.ok r, z) → phase.name ∉ r.completedPhases) := by
  refine ⟨fun env s ↦ (s.similar_process env).runAlike hw, fun l x y ↦ l.run_alike hw, ?_⟩
  intro l x y env q phase rest a c hq h ha
  refine ⟨context_eq_of_skipped h.run_eq ha, fun hname ↦ ⟨fun q' hq' ↦ ?_, fun r z hr ↦ ?_⟩⟩
  · exact hq.not_completed_of_skipped hq' h ha hname
  · exact Launch.not_completed_of_skipped hr hq h ha hname

/-! ## A dry run that skips -/

/-- Two records of dry runs that differ at most in the reasons why steps were skipped. -/
def LogAlike (x y : DryRun.Log) : Prop :=
  x.requests = y.requests ∧ List.Forall₂ Audit.Event.Alike x.events y.events

theorem overlooks_dryRun : DryRun.world.Overlooks LogAlike where
  report he h := ⟨rfl, h.1, List.rel_append h.2 (.cons he .nil)⟩
  clock _ := rfl
  announce _ _ h := ⟨rfl, h⟩
  call c _ h := by
    cases c with
    | dispatch r =>
      have hreply := congrArg (fun n ↦ DryRun.reply (n + 1) r) h.1
      exact ⟨congrArg (fun reply ↦ Beginning.settled (.replied reply)) hreply,
        congrArg (· + 1) h.1, h.2⟩
    | handler id snapshot input => exact ⟨rfl, h⟩
  limit _ h := h
  settle _ h := ⟨rfl, h⟩

/-- A run of a workflow with a review and a loop, in which reviews are skipped, and of the steps in
the loop one by its name. -/
def careful : Launch where
  host :=
    { files := {}, tiers := { project := "project" }, handlers := ["note"]
      options := { skippedSteps := ["lint"], skipChecks := true } }
  runId := ⟨0⟩
  workflow := ⟨"careful", "1", {}, none, [.agent { name := "review" },
    .loop ⟨"tidy", "false", 2, .fail⟩
      [.agent { name := "lint" }, .code ⟨"once", "note", none, none⟩]]⟩
  outset := .fresh none

def carefulEnvironment : Environment := environment careful.host careful.workflow careful.runId none

theorem exists_run_careful :
    ∃ r y, careful.run DryRun.world {} = (.ok r, y) ∧ r.completedPhases = ["tidy"] :=
  Launch.exists_result (by decide +kernel)

theorem exists_calls_careful :
    ∃ env q phase rest a c y, careful.Visits DryRun.world {} env q ∧
      Calls env DryRun.world q phase rest a c y ∧ a.ending = .ok .skipped ∧
        phase.name = "review" ∧ rest.map Step.name = ["tidy"] := by
  have hends : (((Step.agent { name := "review" }).call carefulEnvironment).run DryRun.world .empty
      {}).1.bind (fun r ↦ r.1.ending.toOption) = some .skipped := by
    decide +kernel
  rcases hrun : ((Step.agent { name := "review" }).call carefulEnvironment).run DryRun.world .empty
    {} with ⟨_ | ⟨a, c⟩, y⟩
  · rw [hrun] at hends
    cases hends
  · rw [hrun] at hends
    refine ⟨carefulEnvironment, ⟨[], careful.workflow.phases, .empty, {}⟩, _, _, a, c, y,
      ⟨_, rfl, .refl⟩, ⟨rfl, rfl, hrun⟩, ?_, rfl, rfl⟩
    cases he : a.ending with
    | ok status =>
      simp only [Option.bind_some, he, Except.toOption, Option.some.injEq] at hends
      rw [hends]
    | error e =>
      simp [he, Except.toOption] at hends

theorem skipping_careful :
    DryRun.world.Overlooks LogAlike ∧
    (careful.run DryRun.world {}).1 = (careful.disabling.run DryRun.world {}).1 ∧
    ∃ r y, careful.run DryRun.world {} = (.ok r, y) ∧ r.completedPhases = ["tidy"] ∧
      "review" ∉ r.completedPhases := by
  obtain ⟨-, hruns, hskipped⟩ := skipping_eq_disabling overlooks_dryRun
  obtain ⟨env, q, phase, rest, a, c, y, hq, hcalls, ha, hname, hrest⟩ := exists_calls_careful
  obtain ⟨r, z, hr, hphases⟩ := exists_run_careful
  refine ⟨overlooks_dryRun, (hruns careful {} {} ⟨rfl, .nil⟩).1, r, z, hr, hphases, ?_⟩
  obtain ⟨-, hnever⟩ := hskipped careful {} y env q phase rest a c hq hcalls ha
  rw [← hname]
  refine (hnever ?_).2 r z hr
  rw [hname, hrest]
  decide

end Run

end Workflow
