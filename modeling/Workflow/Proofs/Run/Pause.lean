import Workflow.Checkpoint.Saved
import Workflow.DryRun
import Workflow.Proofs.Definition.Phases
import Workflow.Proofs.Run.Progress

/-!
# Pausing and resuming

A paused run leaves a checkpoint and the name of a phase, and that is all that is needed: the run
that is resumed there finds the phase, and the first thing it does is to call it in the context in
which the paused run stopped. `Resumes` is what this comes to for the run that resumes, and
`Launch.exists_pause` what is known of the one that paused.

Names of phases lead to one phase only in a definition that was read, see
`Definition.nodup_of_validate`. That is the only use of the validation here.
-/

namespace Workflow.Run

variable {ω : Type}

/-! ## Resuming at a phase -/

/-- A run that is resumed from a checkpoint at a phase finds the phase. Unless the document that it
is about cannot be read, it first calls the phase, in a given context. -/
def Resumes (d : Definition) (cp : Checkpoint) (phase : Step) (c : Context) : Prop :=
  ∀ {ω : Type} (w : World ω) (host : Host) (runId : Uuid) (x : ω),
    (∀ name, (resume host w runId d cp (some phase.name) x).1 ≠ .error (.unknownPhase name)) ∧
    ∀ spec, loadSpec host.files host.options.specPath = .ok spec →
      ∃ next, resume host w runId d cp (some phase.name) x =
        conclude runId d
          (((phase.process (environment host d runId spec)).bind next).run w c (w.within d.limit x))

theorem loadSpec_ne_unknownPhase (fs : Files) (path : Option String) (name : String) :
    loadSpec fs path ≠ .error (.unknownPhase name) := by
  cases path with
  | none => exact nofun
  | some path =>
    intro h
    unfold loadSpec at h
    cases hread : readDocument fs path with
    | error e =>
      rw [Option.mapM_some, hread] at h
      cases h
    | ok content =>
      rw [Option.mapM_some, hread] at h
      cases h

theorem ofStep_ne_unknownPhase (phase name : String) (e : StepError) :
    RunError.ofStep phase e ≠ .unknownPhase name := by
  cases e with
  | audit reason => exact nofun
  | _ => exact nofun

theorem Ends.ne_unknownPhase {env : Environment} {failFast : Bool} {w : World ω} {p : Position ω}
    {e : RunError} {c : Context} {x : ω} (h : Ends env failFast w p (.error e) c x)
    (name : String) : e ≠ .unknownPhase name := by
  cases h with
  | refused | unheard => exact nofun
  | aborted => exact ofStep_ne_unknownPhase _ _ _

theorem Launch.ne_unknownPhase {l : Launch} {first : Nat}
    (h : firstPhase l.workflow l.outset.fromPhase = .ok first) (w : World ω) (x : ω)
    (name : String) : (l.run w x).1 ≠ .error (.unknownPhase name) := by
  cases hb : l.beginning w x with
  | error e =>
    rw [run_of_error hb]
    unfold beginning at hb
    rw [h] at hb
    cases hs : loadSpec l.host.files (l.outset.specPath l.host) with
    | error e' =>
      rw [hs] at hb
      cases hb
      intro heq
      cases heq
      exact loadSpec_ne_unknownPhase _ _ name hs
    | ok spec =>
      rw [hs] at hb
      cases hb
  | ok b =>
    obtain ⟨env, p⟩ := b
    rw [run_of_ok hb]
    rcases hrun : p.run env l.workflow.failFast w with ⟨_ | ⟨e | ended, c⟩, y⟩
    · exact nofun
    · obtain ⟨q, -, hend⟩ := exists_ends hrun
      intro heq
      cases heq
      exact hend.ne_unknownPhase name rfl
    · exact nofun

/-- What is resumed at a phase that is there and not completed calls it at once. -/
theorem resumes_of_not_completed {d : Definition} (hd : (d.phases.map Step.name).Nodup)
    {cp : Checkpoint} {phase : Step} {rest : List Step} (hl : phase :: rest <:+ d.phases)
    (hc : (Context.ofCheckpoint cp).isCompleted phase.name = false) :
    Resumes d cp phase (Context.ofCheckpoint cp) := by
  obtain ⟨before, hphases⟩ := hl
  have hfirst : firstPhase d (some phase.name) = .ok before.length := by
    rw [firstPhase, Definition.phaseIndex?_eq hd hphases.symm]
  intro ω w host runId x
  constructor
  · intro name
    have hne := Launch.ne_unknownPhase
      (l := ⟨host, runId, d, .resumed cp (some phase.name)⟩) hfirst w x
    exact hne name
  · intro spec hspec
    have hleft : d.phases.drop before.length = phase :: rest := by
      rw [← hphases, List.drop_left]
    have hbegin : Launch.beginning ⟨host, runId, d, .resumed cp (some phase.name)⟩ w x =
        .ok (environment host d runId spec,
          ⟨[], phase :: rest, .ofCheckpoint cp, w.within d.limit x⟩) := by
      simp only [Launch.beginning, Outset.fromPhase, Outset.specPath, Outset.context, hfirst, hspec]
      rw [← hleft]
      rfl
    have hrun := Launch.run_of_ok hbegin
    rw [Position.run_of_not_completed rfl hc] at hrun
    exact ⟨_, hrun⟩

/-! ## Pausing -/

/-- A paused run has called the phase at which it paused, and its result tells of the context that
this left. -/
theorem Launch.exists_pause {l : Launch} {w : World ω} {x y : ω} {r : RunResult}
    (h : l.run w x = (.ok r, y)) (hp : r.status = .paused) :
    ∃ env q phase rest a c step blocker, l.Visits w x env q ∧ Calls env w q phase rest a c y ∧
      a.ending = .error (.paused step blocker) ∧
      r = result l.runId l.workflow c (.paused phase.name blocker) := by
  obtain ⟨env, q, ended, c, hq, hend, rfl⟩ := exists_visits_ends h
  cases hend with
  | finished hl =>
    cases hf : q.failed with
    | nil =>
      rw [hf] at hp
      cases hp
    | cons _ _ =>
      rw [hf] at hp
      cases hp
  | paused hcalls he => exact ⟨env, q, _, _, _, c, _, _, hq, hcalls, he, rfl⟩

/-- **Pauses.** Let a run of a workflow that was read return a paused result. It visited a position
at which it called a phase, and the call ended with a pause and left a context. Then the result can
be saved, its phase is one of the workflow and not completed, and its checkpoint describes that very
context, with no task at hand; so a run that is resumed there calls the phase in that context. -/
theorem resumes_of_pause {v : Json.Value} {l : Launch}
    (hd : Definition.validate v = .ok l.workflow) {w : World ω} {x y : ω} {r : RunResult}
    (h : l.run w x = (.ok r, y)) (hp : r.status = .paused) :
    ∃ env q phase rest a c step blocker cp,
      l.Visits w x env q ∧ Calls env w q phase rest a c y ∧
      a.ending = .error (.paused step blocker) ∧
      (∀ time, r.saved? time = some
        ⟨r.runId, r.workflow, phase.name, some blocker, cp, time⟩) ∧
      r.checkpoint = some cp ∧ r.pausedAt = some phase.name ∧
      phase ∈ l.workflow.phases ∧ phase.name ∉ cp.completedPhases ∧
      Context.ofCheckpoint cp = c ∧ c.task = none ∧ Resumes l.workflow cp phase c := by
  obtain ⟨env, q, phase, rest, a, c, step, blocker, hq, hcalls, he, rfl⟩ :=
    Launch.exists_pause h hp
  -- a phase that pauses leaves a context at rest, like any other
  have hrest : c.AtRest := hcalls.framed.atRest hq.atRest
  have hcp : Context.ofCheckpoint c.checkpoint = c := Context.ofCheckpoint_checkpoint hrest
  have hleft : phase :: rest <:+ l.workflow.phases := hcalls.left_eq ▸ hq.left_suffix
  have hnot : (Context.ofCheckpoint c.checkpoint).isCompleted phase.name = false :=
    hcp.symm ▸ hcalls.not_completed_after
  refine ⟨env, q, phase, rest, a, c, step, blocker, c.checkpoint, hq, hcalls, he, fun _ ↦ rfl, rfl,
    rfl, ?_, ?_, hcp, hrest.task_eq, ?_⟩
  · exact hleft.subset List.mem_cons_self
  · exact Context.isCompleted_eq_false.1 hcalls.not_completed_after
  · have hresumes : Resumes l.workflow c.checkpoint phase (.ofCheckpoint c.checkpoint) :=
      resumes_of_not_completed (Definition.nodup_of_validate hd) hleft hnot
    rwa [hcp] at hresumes

/-! ## A loop that asks for help -/

/-- A workflow with a handler and a loop that never clears its condition. -/
def stallingDocument : Json.Value :=
  .object [("name", .string "stalling"),
    ("phases", .array [
      .object [("handler", .string "note"), ("name", .string "prepare"), ("type", .string "code")],
      .object [("condition", .string "true"), ("maxRetries", .ofNat 1), ("name", .string "polish"),
        ("steps", .array [
          .object [("handler", .string "note"), ("name", .string "once"),
            ("type", .string "code")]]),
        ("type", .string "loop")]]),
    ("version", .string "1")]

def stalling : Launch where
  host := { files := {}, tiers := { project := "project" }, handlers := ["note"] }
  runId := ⟨0⟩
  workflow := ⟨"stalling", "1", {}, none, [.code ⟨"prepare", "note", none, none⟩,
    .loop ⟨"polish", "true", 1, .escalate⟩ [.code ⟨"once", "note", none, none⟩]]⟩
  outset := .fresh none

theorem exists_run_stalling :
    ∃ r y, stalling.run DryRun.world {} = (.ok r, y) ∧ r.status = .paused ∧
      r.completedPhases = ["prepare"] ∧ r.checkpoint = some { completedPhases := ["prepare"] } := by
  have hends : (stalling.run DryRun.world {}).1.toOption.map (fun r ↦
      (r.status, r.completedPhases, r.checkpoint)) =
        some (.paused, ["prepare"], some { completedPhases := ["prepare"] }) := by
    decide +kernel
  rcases hrun : stalling.run DryRun.world {} with ⟨e | r, y⟩
  · rw [hrun] at hends
    cases hends
  · rw [hrun] at hends
    obtain ⟨hstatus, hends⟩ := Prod.mk.inj (Option.some.inj hends)
    obtain ⟨hphases, hcp⟩ := Prod.mk.inj hends
    exact ⟨r, y, rfl, hstatus, hphases, hcp⟩

theorem resumes_of_stalling :
    Definition.validate stallingDocument = .ok stalling.workflow ∧
    ∃ r y cp phase c, stalling.run DryRun.world {} = (.ok r, y) ∧ r.status = .paused ∧
      r.checkpoint = some cp ∧ r.pausedAt = some phase.name ∧
      phase ∈ stalling.workflow.phases ∧ Resumes stalling.workflow cp phase c := by
  have hd : Definition.validate stallingDocument = .ok stalling.workflow := by decide +kernel
  obtain ⟨r, y, hrun, hstatus, -, -⟩ := exists_run_stalling
  obtain ⟨-, -, phase, -, -, c, -, -, cp, -, -, -, -, hcp, hname, hmem, -, -, -, hresumes⟩ :=
    resumes_of_pause hd hrun hstatus
  exact ⟨hd, r, y, cp, phase, c, hrun, hstatus, hcp, hname, hmem, hresumes⟩

end Workflow.Run
