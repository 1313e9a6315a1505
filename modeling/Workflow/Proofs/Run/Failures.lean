import Workflow.Proofs.Definition.Phases
import Workflow.Proofs.Run.Fates
import Workflow.Rehearsal

/-!
# Phases that failed

A walk keeps the phases that failed, and goes on. Those that it keeps are all that failed on it, in
the order of the workflow: they are read off what became of its phases, see `Reaches.fates`.

A result tells of them if the run finished. A pause replaces them: the result of a paused run has no
failed phases and no error, whatever happened before the pause.
-/

namespace Workflow.Run

variable {ω : Type} {env : Environment} {failFast : Bool} {w : World ω}

/-- The text of an error that is put together from failures. -/
def errorText (fs : List Failure) : Option String :=
  match fs with
  | [] => none
  | fs => some ("; ".intercalate (fs.map fun f ↦
      RunError.phaseFailure f.phase.name f.error.message))

/-- The phase at a position is called and fails, and its error is not fatal. -/
def Position.Fails (env : Environment) (w : World ω) (p : Position ω) (f : Failure) : Prop :=
  ∃ rest a c x, Calls env w p f.phase rest a c x ∧ a.ending = .error f.error ∧
    f.error.isPause = false ∧ f.error.isFatal = false

theorem Position.fails_iff {p : Position ω} {f : Failure} :
    p.Fails env w f ↔ ∃ g : Fate, p.Meets env w g ∧ g.failed? = some f := by
  constructor
  · rintro ⟨rest, a, c, x, hcalls, he, hp, hf⟩
    exact ⟨_, hcalls.meets, Fate.failed?_eq_some.2 ⟨he ▸ rfl, hp, hf⟩⟩
  · rintro ⟨g, ⟨rest, a, c, x, hcalls, he⟩, hg⟩
    obtain ⟨rfl, hp, hf⟩ := Fate.failed?_eq_some.1 hg
    exact ⟨rest, a, c, x, hcalls, he, hp, hf⟩

/-! ## A run -/

namespace Launch

variable {l : Launch} {x y : ω}

/-- In a run, a phase fails, and its error is not fatal. -/
def Fails (l : Launch) (w : World ω) (x : ω) (f : Failure) : Prop :=
  ∃ env q, l.Visits w x env q ∧ q.Fails env w f

theorem Visits.failures {q : Position ω} (h : l.Visits w x env q) {ended : Walk} {c : Context}
    (hend : Ends env l.workflow.failFast w q (.ok ended) c y) :
    ∃ fs : List Failure, (fs.map Failure.phase).Sublist l.workflow.phases ∧
      q.failed = fs.map Failure.kept ∧ ∀ f, f ∈ fs ↔ l.Fails w x f := by
  obtain ⟨fates, hsub, hkept, -, hfates⟩ := h.fates hend
  have hphases : ((fates.filterMap Fate.failed?).map Failure.phase).Sublist
      (fates.map Fate.phase) :=
    Fate.sublist_filterMap (fun g f hf ↦ by rw [(Fate.failed?_eq_some.1 hf).1]) fates
  refine ⟨fates.filterMap Fate.failed?, hphases.trans hsub, hkept, fun f ↦ ?_⟩
  rw [List.mem_filterMap]
  constructor
  · rintro ⟨g, hg, hf⟩
    obtain ⟨env', m, hm, hmeets⟩ := (hfates g).1 hg
    exact ⟨env', m, hm, Position.fails_iff.2 ⟨g, hmeets, hf⟩⟩
  · rintro ⟨env', m, hm, hf⟩
    obtain ⟨g, hmeets, hf⟩ := Position.fails_iff.1 hf
    exact ⟨g, (hfates g).2 ⟨env', m, hm, hmeets⟩, hf⟩

theorem result_of_kept (runId : Uuid) (d : Definition) (c : Context) (fs : List Failure) :
    let r := result runId d c (.finished (fs.map Failure.kept))
    r.failedPhases = fs.map (·.phase.name) ∧ r.error = errorText fs ∧ r.status ≠ .paused := by
  cases fs with
  | nil => exact ⟨rfl, rfl, nofun⟩
  | cons f fs =>
    refine ⟨?_, ?_, nofun⟩
    · simp [result, Failure.kept, Function.comp_def]
    · simp [result, errorText, Failure.kept, Function.comp_def]

/-- **Failed phases.** Let a run of a workflow that was read return a result, and consider the
phases that failed in it with errors that are not fatal, in the order of the workflow. If the run
did not pause, the result lists them, and it has an error, put together from theirs, if there are
any. If the run paused, the result lists none and has no error. -/
theorem failedPhases_of_run {v : Json.Value} (hd : Definition.validate v = .ok l.workflow)
    {r : RunResult} (h : l.run w x = (.ok r, y)) :
    ∃ fs : List Failure, (fs.map Failure.phase).Sublist l.workflow.phases ∧
      (fs.map (·.phase.name)).Nodup ∧ (∀ f, f ∈ fs ↔ l.Fails w x f) ∧
      (r.status ≠ .paused → r.failedPhases = fs.map (·.phase.name) ∧ r.error = errorText fs) ∧
      (r.status = .paused → r.failedPhases = [] ∧ r.error = none) := by
  obtain ⟨env, q, ended, c, hq, hend, rfl⟩ := exists_visits_ends h
  obtain ⟨fs, hsub, hkept, hfs⟩ := hq.failures hend
  have hnodup : (fs.map (·.phase.name)).Nodup := by
    have hmap : fs.map (·.phase.name) = (fs.map Failure.phase).map Step.name := by
      rw [List.map_map]
      rfl
    rw [hmap]
    exact (Definition.nodup_of_validate hd).sublist (hsub.map _)
  refine ⟨fs, hsub, hnodup, hfs, ?_⟩
  cases hend with
  | finished hl =>
    obtain ⟨hphases, herror, hstatus⟩ := result_of_kept l.runId l.workflow q.context fs
    rw [hkept]
    exact ⟨fun _ ↦ ⟨hphases, herror⟩, fun hpaused ↦ absurd hpaused hstatus⟩
  | paused hcalls he => exact ⟨fun hstatus ↦ absurd rfl hstatus, fun _ ↦ ⟨rfl, rfl⟩⟩

end Launch

/-! ## A failure before a pause -/

/-- A workflow that goes on after failures, with a handler and a loop that asks for help. -/
def shakyDocument : Json.Value :=
  .object [("name", .string "shaky"),
    ("phases", .array [
      .object [("handler", .string "bad"), ("name", .string "draft"), ("type", .string "code")],
      .object [("condition", .string "true"), ("maxRetries", .ofNat 1), ("name", .string "polish"),
        ("steps", .array [
          .object [("handler", .string "good"), ("name", .string "once"),
            ("type", .string "code")]]),
        ("type", .string "loop")]]),
    ("safety", .object [("failOnStepError", .bool false)]),
    ("version", .string "1")]

def shakyDraft : Step := .code ⟨"draft", "bad", none, none⟩

def shaky : Launch where
  host := { files := {}, tiers := { project := "project" }, handlers := ["bad", "good"] }
  runId := ⟨0⟩
  workflow := ⟨"shaky", "1", {}, some { failOnStepError := false },
    [shakyDraft, .loop ⟨"polish", "true", 1, .escalate⟩ [.code ⟨"once", "good", none, none⟩]]⟩
  outset := .fresh none

/-- A stage on which the first handler fails. -/
def shakyStage : Rehearsal.Stage where
  script :=
    { handlers := [("bad", { answers := [{ act := .fail "no" }] }),
      ("good", { answers := [{ act := .give .null }] })] }

def shakyPosition : Position Rehearsal.Stage :=
  ⟨[], shaky.workflow.phases, .empty, shakyStage⟩

theorem fails_shakyDraft :
    shaky.Fails Rehearsal.world shakyStage ⟨shakyDraft, .handler "draft" "bad" "no"⟩ := by
  refine ⟨environment shaky.host shaky.workflow shaky.runId none, shakyPosition,
    ⟨_, rfl, .refl⟩, ?_⟩
  have hcall : ((shakyDraft.call (environment shaky.host shaky.workflow shaky.runId none)).run
      Rehearsal.world shakyPosition.context shakyPosition.outside).1.map (·.1.ending) =
        some (.error (.handler "draft" "bad" "no")) := by
    decide +kernel
  rcases hrun : (shakyDraft.call (environment shaky.host shaky.workflow shaky.runId none)).run
    Rehearsal.world shakyPosition.context shakyPosition.outside with ⟨_ | ⟨a, c⟩, y⟩
  · rw [hrun] at hcall
    cases hcall
  · rw [hrun] at hcall
    exact ⟨_, a, c, y, ⟨rfl, rfl, hrun⟩, Option.some.inj hcall, rfl, rfl⟩

theorem exists_run_shaky :
    ∃ r y, shaky.run Rehearsal.world shakyStage = (.ok r, y) ∧ r.status = .paused ∧
      r.failedPhases = [] ∧ r.error = none := by
  have hends : (shaky.run Rehearsal.world shakyStage).1.toOption.map (fun r ↦
      (r.status, r.failedPhases, r.error)) = some (.paused, [], none) := by
    decide +kernel
  obtain ⟨r, y, hrun, hr⟩ := Launch.exists_result hends
  obtain ⟨hstatus, hr⟩ := Prod.mk.inj hr
  obtain ⟨hphases, herror⟩ := Prod.mk.inj hr
  exact ⟨r, y, hrun, hstatus, hphases, herror⟩

/-- A phase that failed before the run paused is not in its result. -/
theorem shaky_loses_failure :
    Definition.validate shakyDocument = .ok shaky.workflow ∧ shaky.workflow.failFast = false ∧
    ∃ (f : Failure) (r : RunResult) (y : Rehearsal.Stage),
      shaky.Fails Rehearsal.world shakyStage f ∧ f.phase ∈ shaky.workflow.phases ∧
        shaky.run Rehearsal.world shakyStage = (.ok r, y) ∧
        f.phase.name ∉ r.failedPhases ∧ r.error = none := by
  obtain ⟨r, y, hrun, -, hphases, herror⟩ := exists_run_shaky
  refine ⟨by decide +kernel, rfl, _, r, y, fails_shakyDraft, List.mem_cons_self, hrun, ?_, herror⟩
  rw [hphases]
  exact List.not_mem_nil

theorem failedPhases_of_shaky :
    Definition.validate shakyDocument = .ok shaky.workflow ∧
    ∃ (r : RunResult) (y : Rehearsal.Stage) (fs : List Failure),
      shaky.run Rehearsal.world shakyStage = (.ok r, y) ∧ r.status = .paused ∧
        ⟨shakyDraft, .handler "draft" "bad" "no"⟩ ∈ fs ∧
        (fs.map Failure.phase).Sublist shaky.workflow.phases ∧ r.failedPhases = [] := by
  have hd : Definition.validate shakyDocument = .ok shaky.workflow := by decide +kernel
  obtain ⟨r, y, hrun, hstatus, -, -⟩ := exists_run_shaky
  obtain ⟨fs, hsub, -, hfs, -, hpaused⟩ := Launch.failedPhases_of_run hd hrun
  exact ⟨hd, r, y, fs, hrun, hstatus, (hfs _).2 fails_shakyDraft, hsub, (hpaused hstatus).1⟩

end Workflow.Run
