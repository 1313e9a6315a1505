import Workflow.Proofs.Run.Fates
import Workflow.Proofs.Run.Pause

/-!
# Chains of runs

A run that paused is resumed from its checkpoint, perhaps to pause again, and so on. `Chain` lists
the results so far, the latest one first, with an outset that the next run may take. Over a whole
chain phases are only ever added to those that are completed, and none of them is called again.

Runs of a chain may differ in everything but the workflow: hosts, worlds, and the phases that they
are resumed at. The same outset may be taken by several runs, so what is said of the next run is
said of every run that there could be.
-/

namespace Workflow.Run

variable {ω : Type}

/-- Results of runs of a workflow, the latest one first, each but the first run resumed from the
checkpoint of the one before, and an outset for another run. -/
inductive Chain (d : Definition) : List RunResult → Outset → Prop where
  | fresh (specPath : Option String) : Chain d [] (.fresh specPath)
  | resumed {ω : Type} {results : List RunResult} {l : Launch} {w : World ω} {x y : ω}
      {r : RunResult} {cp : Checkpoint} (fromPhase : Option String) :
      Chain d results l.outset → l.workflow = d → l.run w x = (.ok r, y) →
        r.checkpoint = some cp → Chain d (r :: results) (.resumed cp fromPhase)

/-! ## One run -/

theorem completedPhases_result (runId : Uuid) (d : Definition) (c : Context) (ended : Walk) :
    (result runId d c ended).completedPhases = c.completedPhases := by
  obtain ⟨_ | ⟨_, _⟩⟩ | ⟨_, _⟩ := ended
  all_goals rfl

theorem checkpoint_result {runId : Uuid} {d : Definition} {c : Context} {ended : Walk}
    {cp : Checkpoint} (h : (result runId d c ended).checkpoint = some cp) : cp = c.checkpoint := by
  obtain ⟨_ | ⟨_, _⟩⟩ | ⟨_, _⟩ := ended
  · cases h
  · cases h
  · exact (Option.some.inj h).symm

/-- A run adds to the phases that are completed in its outset those that complete in it, in the
order of the workflow. -/
theorem Launch.completedPhases_of_run {l : Launch} {w : World ω} {x y : ω} {r : RunResult}
    (h : l.run w x = (.ok r, y)) :
    ∃ new : List Step, new.Sublist l.workflow.phases ∧
      r.completedPhases = l.outset.context.completedPhases ++ new.map Step.name ∧
      ∀ phase, phase ∈ new ↔ l.Completes w x phase := by
  obtain ⟨env, q, ended, c, hq, hend, rfl⟩ := exists_visits_ends h
  obtain ⟨fs, hsub, -, hcompleted, hfs⟩ := hq.fates hend
  have hnew : ((fs.filterMap Fate.completed?).map id).Sublist (fs.map Fate.phase) :=
    Fate.sublist_filterMap (fun f phase hf ↦ by rw [Fate.completed?_eq_some.1 hf, id]) fs
  rw [List.map_id] at hnew
  refine ⟨fs.filterMap Fate.completed?, hnew.trans hsub, ?_, fun phase ↦ ?_⟩
  · rw [completedPhases_result, hcompleted]
  · rw [List.mem_filterMap]
    simp only [Fate.completed?_eq_some, exists_eq_right]
    exact hfs _

theorem Launch.nodup_of_run {l : Launch} {w : World ω} {x y : ω} {r : RunResult}
    (h : l.run w x = (.ok r, y)) : r.completedPhases.Nodup := by
  obtain ⟨env, q, ended, c, hq, hend, rfl⟩ := exists_visits_ends h
  rw [completedPhases_result]
  exact (hend.framed.atRest hq.atRest).nodup

theorem Launch.completedPhases_of_checkpoint {l : Launch} {w : World ω} {x y : ω} {r : RunResult}
    {cp : Checkpoint} (h : l.run w x = (.ok r, y)) (hcp : r.checkpoint = some cp) :
    (Context.ofCheckpoint cp).completedPhases = r.completedPhases := by
  obtain ⟨env, q, ended, c, hq, hend, rfl⟩ := exists_visits_ends h
  obtain rfl := checkpoint_result hcp
  rw [completedPhases_result, Context.ofCheckpoint_checkpoint (hend.framed.atRest hq.atRest)]

/-! ## The whole chain -/

namespace Chain

variable {d : Definition} {results : List RunResult} {o : Outset}

/-- The next run begins with the phases that the latest run completed. -/
theorem completedPhases_outset (h : Chain d results o) :
    o.context.completedPhases = (results.head?.map (·.completedPhases)).getD [] := by
  cases h with
  | fresh specPath => rfl
  | resumed fromPhase _ _ hrun hcp => exact Launch.completedPhases_of_checkpoint hrun hcp

theorem prefix_outset (h : Chain d results o) :
    ∀ r ∈ results, r.completedPhases <+: o.context.completedPhases := by
  induction h with
  | fresh specPath => simp
  | @resumed _ results l w x y r cp fromPhase _ _ hrun hcp ih =>
    have houtset : (Outset.resumed cp fromPhase).context.completedPhases = r.completedPhases :=
      Launch.completedPhases_of_checkpoint hrun hcp
    obtain ⟨new, -, hnew, -⟩ := Launch.completedPhases_of_run hrun
    rw [houtset]
    refine List.forall_mem_cons.2 ⟨List.prefix_refl _, fun r' hr' ↦ ?_⟩
    exact (ih r' hr').trans ⟨new.map Step.name, hnew.symm⟩

theorem prefix_of_run {l : Launch} (h : Chain d results l.outset) {w : World ω} {x y : ω}
    {r : RunResult} (hrun : l.run w x = (.ok r, y)) :
    ∀ r' ∈ results, r'.completedPhases <+: r.completedPhases := by
  obtain ⟨new, -, hnew, -⟩ := Launch.completedPhases_of_run hrun
  exact fun r' hr' ↦ (h.prefix_outset r' hr').trans ⟨new.map Step.name, hnew.symm⟩

theorem nodup (h : Chain d results o) : ∀ r ∈ results, r.completedPhases.Nodup := by
  induction h with
  | fresh specPath => simp
  | resumed fromPhase _ _ hrun _ ih =>
    exact List.forall_mem_cons.2 ⟨Launch.nodup_of_run hrun, ih⟩

theorem pairwise_prefix (h : Chain d results o) :
    results.Pairwise fun later earlier ↦
      earlier.completedPhases <+: later.completedPhases := by
  induction h with
  | fresh specPath => exact List.Pairwise.nil
  | resumed fromPhase hchain _ hrun _ ih =>
    exact List.pairwise_cons.2 ⟨hchain.prefix_of_run hrun, ih⟩

/-- **Chains.** Take any run after a chain of runs. Wherever it comes to a phase that is completed,
in this run or in any result of the chain, it passes over it without calling it. A phase that
completes in it is completed from there on, wherever the run comes and in whatever context it
leaves, also if the host refuses to hear of the phase.

If the run has a result, then no result repeats a completed phase, and each one begins with those of
all results before it. Behind those of the latest result stand the phases that completed in the run
itself, all of them and no others, in the order of the workflow. -/
theorem completedPhases_kept {l : Launch} (h : Chain d results l.outset) (hd : l.workflow = d)
    (w : World ω) (x : ω) :
    (∀ env q phase rest, l.Visits w x env q → q.left = phase :: rest →
      (phase.name ∈ q.context.completedPhases ∨ ∃ r ∈ results, phase.name ∈ r.completedPhases) →
        q.run env d.failFast w =
          (passing phase.name (walk env d.failFast q.failed rest)).run w q.context q.outside) ∧
    (∀ env q phase, l.Visits w x env q → q.Completes env w phase →
      (∀ m, Relation.TransGen (Onward env d.failFast w) q m →
        phase.name ∈ m.context.completedPhases) ∧
      ∀ r c y, q.run env d.failFast w = (some (r, c), y) → phase.name ∈ c.completedPhases) ∧
    ∀ r y, l.run w x = (.ok r, y) →
      (∀ r' ∈ r :: results, r'.completedPhases.Nodup) ∧
      ((r :: results).Pairwise fun later earlier ↦
        earlier.completedPhases <+: later.completedPhases) ∧
      ∃ new : List Step, new.Sublist d.phases ∧
        r.completedPhases =
          (results.head?.map (·.completedPhases)).getD [] ++ new.map Step.name ∧
        ∀ phase, phase ∈ new ↔ l.Completes w x phase := by
  subst hd
  refine ⟨?_, fun env q phase _ hphase ↦ hphase.kept, ?_⟩
  · intro env q phase rest hq hl hcompleted
    obtain ⟨new, hnew, -⟩ := hq.completedPhases
    -- a run keeps what it began with, and it began with all that the chain completed
    have hmem : phase.name ∈ q.context.completedPhases := by
      rcases hcompleted with hmem | ⟨r, hr, hmem⟩
      · exact hmem
      · rw [hnew]
        exact List.mem_append_left _ ((h.prefix_outset r hr).subset hmem)
    exact Position.run_of_completed hl (Context.isCompleted_eq_true.2 hmem)
  · intro r y hrun
    refine ⟨?_, ?_, ?_⟩
    · exact List.forall_mem_cons.2 ⟨Launch.nodup_of_run hrun, h.nodup⟩
    · exact List.pairwise_cons.2 ⟨h.prefix_of_run hrun, h.pairwise_prefix⟩
    · rw [← h.completedPhases_outset]
      exact Launch.completedPhases_of_run hrun

end Chain

/-- The run that is resumed where the run of a stalling loop paused. -/
def stallingAgain : Launch :=
  { stalling with outset := .resumed { completedPhases := ["prepare"] } none }

theorem exists_run_stallingAgain :
    ∃ r y, stallingAgain.run DryRun.world {} = (.ok r, y) ∧ r.completedPhases = ["prepare"] := by
  have hends : (stallingAgain.run DryRun.world {}).1.toOption.map (·.completedPhases) =
      some ["prepare"] := by
    decide +kernel
  rcases hrun : stallingAgain.run DryRun.world {} with ⟨e | r, y⟩
  · rw [hrun] at hends
    cases hends
  · rw [hrun] at hends
    exact ⟨r, y, rfl, Option.some.inj hends⟩

theorem completedPhases_kept_stallingAgain :
    ∃ (r r' : RunResult) (y' : DryRun.Log) (new : List Step),
      Chain stalling.workflow [r] stallingAgain.outset ∧
      (∀ phase, phase ∈ new ↔ stalling.Completes DryRun.world {} phase) ∧
      r.completedPhases = new.map Step.name ∧ r.completedPhases = ["prepare"] ∧
      stallingAgain.run DryRun.world {} = (.ok r', y') ∧
      r.completedPhases <+: r'.completedPhases ∧
      ∃ env q, stallingAgain.Visits DryRun.world {} env q ∧
        q.left = stallingAgain.workflow.phases ∧
        q.run env true DryRun.world =
          (passing "prepare" (walk env true q.failed q.left.tail)).run DryRun.world q.context
            q.outside := by
  obtain ⟨r, y, hrun, -, hphases, hcp⟩ := exists_run_stalling
  obtain ⟨r', y', hrun', -⟩ := exists_run_stallingAgain
  have hfresh : Chain stalling.workflow [] stalling.outset := .fresh none
  have hchain : Chain stalling.workflow [r] stallingAgain.outset :=
    .resumed none hfresh rfl hrun hcp
  obtain ⟨-, -, hfirst⟩ := hfresh.completedPhases_kept rfl DryRun.world {}
  obtain ⟨hpassed, -, hkept⟩ := hchain.completedPhases_kept rfl DryRun.world {}
  have hvisits : stallingAgain.Visits DryRun.world {} _ _ := ⟨_, rfl, .refl⟩
  have hmem : "prepare" ∈ r.completedPhases := hphases ▸ List.mem_cons_self
  obtain ⟨-, -, new, -, hnew, hcompletes⟩ := hfirst r y hrun
  obtain ⟨-, hprefix, -⟩ := hkept r' y' hrun'
  refine ⟨r, r', y', new, hchain, hcompletes, hnew, hphases, hrun', ?_, _, _, hvisits, rfl, ?_⟩
  · exact (List.pairwise_cons.1 hprefix).1 r List.mem_cons_self
  · exact hpassed _ _ _ _ hvisits rfl (.inr ⟨r, List.mem_cons_self, hmem⟩)

end Workflow.Run
