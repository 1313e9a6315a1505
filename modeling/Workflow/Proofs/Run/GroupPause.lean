import Workflow.Proofs.Account.Pausing
import Workflow.Proofs.Run.Pause
import Workflow.Proofs.Run.Streams
import Workflow.Rehearsal

/-!
# Runs that pause over a failing group

A group fails if a child fails, and a pause is no failure, so a run should not pause on account of a
group in which a child failed. It does if another child paused before. This is the one way in which
it comes to that: where no pause came first, the group fails and says so.
-/

namespace Workflow.Run

open Process (Report)

variable {ω : Type} {w : World ω}

/-- A run that paused did so on account of calls that all have, if a call inside failed, a pause
that came before it. -/
theorem Launch.pausesFirst_of_paused {l : Launch} {x y : ω} {r : RunResult}
    (h : l.run w x = (.ok r, y)) (hp : r.status = .paused) :
    ∃ env q phase rest a c, l.Visits w x env q ∧ Calls env w q phase rest a c y ∧
      r.pausedAt = some phase.name ∧
      ∀ g : Account, g.Causes a → g.HasFailure → g.step.kind = .parallel ∧ g.PausesFirst := by
  obtain ⟨env, q, phase, rest, a, c, step, blocker, hq, hcalls, he, rfl⟩ :=
    Launch.exists_pause h hp
  obtain ⟨-, rs, htrail⟩ := Step.trail_of_run hcalls.run_eq
  refine ⟨env, q, phase, rest, a, c, hq, hcalls, rfl, fun g hg hf ↦ ?_⟩
  exact htrail.pausesFirst_of_causes (Account.error?_eq_some.2 he) rfl hg hf

/-- **Failing children.** Let the call of a group end, and let a child in it have ended with an
error that is no pause. The last report is that of the group. If the first child to end with an
error did not pause, it says that the group failed, and the group ends with an error that is no
pause. Otherwise it says that the group paused, and unless the sink refuses it, the group ends with
a pause. So if a run pauses, and the pause comes from a call in which a call failed, this is a group
in which another child paused before. -/
theorem closing_of_failing_child :
    (∀ (env : Environment) (g : Group) (ss : List Step) (c c' : Context) (x y : ω) (a : Account)
        (rs : List Report),
      ((Step.parallel g ss).call env).run w.recording c (x, []) = (some (a, c'), y, rs) →
        a.HasFailure →
          ∃ before ev answer, rs = before ++ [(ev, answer)] ∧ ev.step = g.name ∧
            (¬a.PausesFirst → ev.status = .failed ∧ ∃ e, a.error? = some e ∧ e.isPause = false) ∧
            (a.PausesFirst → ev.status = .paused ∧ ∃ e, a.error? = some e ∧
              (e.isPause = true ↔ answer = none))) ∧
    ∀ (l : Launch) (x y : ω) (r : RunResult), l.run w x = (.ok r, y) → r.status = .paused →
      ∃ env q phase rest a c, l.Visits w x env q ∧ Calls env w q phase rest a c y ∧
        r.pausedAt = some phase.name ∧
        ∀ g : Account, g.Causes a → g.HasFailure →
          g.step.kind = .parallel ∧ g.PausesFirst := by
  refine ⟨fun env g ss c c' x y a rs h hf ↦ ?_, fun l x y r h hp ↦
    Launch.pausesFirst_of_paused h hp⟩
  obtain ⟨rs', hrs, hstep, htrail⟩ := Step.trail_of_run_recording h
  obtain rfl : rs = rs' := hrs
  have hclosing := htrail.closing_of_hasFailure hf
  rw [hstep] at hclosing
  exact hclosing

/-! ## A pause that hides a failure -/

/-- A workflow with a loop that asks for help, and beside it a handler. -/
def hastyDocument : Json.Value :=
  .object [("name", .string "hasty"),
    ("phases", .array [
      .object [("name", .string "both"),
        ("steps", .array [
          .object [("condition", .string "true"), ("maxRetries", .ofNat 1),
            ("name", .string "polish"),
            ("steps", .array [
              .object [("handler", .string "good"), ("name", .string "once"),
                ("type", .string "code")]]),
            ("type", .string "loop")],
          .object [("handler", .string "bad"), ("name", .string "broken"),
            ("type", .string "code")]]),
        ("type", .string "parallel")]]),
    ("version", .string "1")]

def hastyChildren : List Step :=
  [.loop ⟨"polish", "true", 1, .escalate⟩ [.code ⟨"once", "good", none, none⟩],
    .code ⟨"broken", "bad", none, none⟩]

def hasty : Launch where
  host := { files := {}, tiers := { project := "project" }, handlers := ["bad", "good"] }
  runId := ⟨0⟩
  workflow := ⟨"hasty", "1", {}, none, [.parallel ⟨"both", none⟩ hastyChildren]⟩
  outset := .fresh none

/-- A stage on which the second handler fails. -/
def hastyStage : Rehearsal.Stage where
  script :=
    { handlers := [("bad", { answers := [{ act := .fail "no" }] }),
      ("good", { answers := [{ act := .give .null }] })] }

def hastyEnvironment : Environment := environment hasty.host hasty.workflow hasty.runId none

/-- What the call of the group comes to, with a record of all reports. -/
def hastyCall : Option (Account × Context) × Rehearsal.Stage × List Report :=
  ((Step.parallel ⟨"both", none⟩ hastyChildren).call hastyEnvironment).run
    Rehearsal.world.recording .empty (hastyStage, [])

theorem exists_call_hasty :
    ∃ (a : Account) (c : Context) (y : Rehearsal.Stage) (rs : List Report),
      hastyCall = (some (a, c), y, rs) ∧
        a.HasFailure ∧ (∃ e, a.error? = some e ∧ e.isPause = true) ∧
        rs.getLast?.map (·.1.status) = some .paused := by
  have hinside : hastyCall.1.any (fun r ↦ r.1.inside.any fun b ↦
      b.error? == some (.handler "broken" "bad" "no")) = true := by
    decide +kernel
  have hending : hastyCall.1.any (fun r ↦ r.1.error?.any StepError.isPause) = true := by
    decide +kernel
  have hlast : hastyCall.2.2.getLast?.map (·.1.status) = some .paused := by decide +kernel
  rcases hrun : hastyCall with ⟨_ | ⟨a, c⟩, y, rs⟩
  · rw [hrun] at hending
    cases hending
  · rw [hrun] at hinside hending hlast
    obtain ⟨b, hmem, hb⟩ := List.any_eq_true.1 hinside
    exact ⟨a, c, y, rs, rfl, ⟨b, _, hmem, beq_iff_eq.1 hb, rfl⟩,
      (Option.any_eq_true _ _).1 hending, hlast⟩

theorem exists_run_hasty :
    ∃ r y, hasty.run Rehearsal.world hastyStage = (.ok r, y) ∧ r.status = .paused ∧
      r.pausedAt = some "both" := by
  have hends : (hasty.run Rehearsal.world hastyStage).1.toOption.map (fun r ↦
      (r.status, r.pausedAt)) = some (.paused, some "both") := by
    decide +kernel
  obtain ⟨r, y, hrun, hr⟩ := Launch.exists_result hends
  obtain ⟨hstatus, hat⟩ := Prod.mk.inj hr
  exact ⟨r, y, hrun, hstatus, hat⟩

/-- A group with a failing child pauses, and so does the run. -/
theorem hasty_pauses :
    Definition.validate hastyDocument = .ok hasty.workflow ∧
    (∃ (a : Account) (c : Context) (y : Rehearsal.Stage) (rs : List Report),
      hastyCall = (some (a, c), y, rs) ∧
        a.HasFailure ∧ (∃ e, a.error? = some e ∧ e.isPause = true) ∧
        rs.getLast?.map (·.1.status) = some .paused) ∧
    ∃ r y, hasty.run Rehearsal.world hastyStage = (.ok r, y) ∧ r.status = .paused ∧
      r.pausedAt = some "both" :=
  ⟨by decide +kernel, exists_call_hasty, exists_run_hasty⟩

theorem closing_of_hasty :
    (∃ (a : Account) (c : Context) (y : Rehearsal.Stage) (rs : List Report) (before : List Report)
        (ev : Audit.Event) (answer : Option String),
      hastyCall = (some (a, c), y, rs) ∧ a.HasFailure ∧ a.PausesFirst ∧
        rs = before ++ [(ev, answer)] ∧ ev.step = "both" ∧ ev.status = .paused) ∧
    ∃ r y env q phase rest a c, hasty.run Rehearsal.world hastyStage = (.ok r, y) ∧
      r.status = .paused ∧ Calls env Rehearsal.world q phase rest a c y ∧
      r.pausedAt = some phase.name := by
  obtain ⟨hgroup, hrun⟩ := closing_of_failing_child (w := Rehearsal.world)
  constructor
  · obtain ⟨a, c, y, rs, hcall, hf, -, hlast⟩ := exists_call_hasty
    obtain ⟨before, ev, answer, hrs, hstep, hfails, hpauses⟩ :=
      hgroup _ _ _ _ _ _ _ _ _ hcall hf
    have hstatus : ev.status = .paused := by
      rw [hrs, List.getLast?_concat] at hlast
      exact Option.some.inj hlast
    have hp : a.PausesFirst := by
      by_contra hp
      cases hstatus.symm.trans (hfails hp).1
    exact ⟨a, c, y, rs, before, ev, answer, hcall, hf, hp, hrs, hstep, (hpauses hp).1⟩
  · obtain ⟨r, y, hr, hstatus, -⟩ := exists_run_hasty
    obtain ⟨env, q, phase, rest, a, c, -, hcalls, hat, -⟩ := hrun _ _ _ _ hr hstatus
    exact ⟨r, y, env, q, phase, rest, a, c, hr, hstatus, hcalls, hat⟩

end Workflow.Run
