import Workflow.Proofs.Account.Call
import Workflow.Proofs.Account.Escape
import Workflow.Proofs.Run.Launch
import Workflow.Rehearsal

/-!
# Fatal errors

A workflow that goes on after failing phases is meant to stop at a fatal error even so. The walk
looks at the error that a phase ends with, and that is one error: what a group lost on the way, the
walk never sees. So a fatal error stops the run exactly when it comes through to the phase, in the
sense of `Account.Escapes`. Otherwise there is a group that lost it, and the run pauses or goes on
as after any other failure.
-/

namespace Workflow.Run

variable {ω : Type} {w : World ω} {x y : ω} {l : Launch} {env : Environment} {q : Position ω}

theorem Launch.run_of_ends (hq : l.Visits w x env q) {r : Except RunError Walk} {c : Context}
    (h : Ends env l.workflow.failFast w q r c y) :
    l.run w x = conclude l.runId l.workflow (some (r, c), y) := by
  rw [hq.run_eq, h.run_eq]

theorem Launch.Visits.next (hq : l.Visits w x env q) {q' : Position ω}
    (h : Onward env l.workflow.failFast w q q') : l.Visits w x env q' := by
  obtain ⟨p, hp, hreach⟩ := hq
  exact ⟨p, hp, hreach.tail h⟩

variable {phase : Step} {rest : List Step}

theorem Launch.run_of_cut_off (hq : l.Visits w x env q) (hl : q.left = phase :: rest)
    (hc : q.context.isCompleted phase.name = false)
    (h : (phase.call env).run w q.context q.outside = (none, y)) :
    ∃ e, l.run w x = (.error e, y) := by
  rw [hq.run_eq, Position.run_of_not_completed hl hc, Step.process, Process.bind_assoc,
    Process.run_bind, h]
  exact ⟨_, rfl⟩

variable {a : Account} {c : Context}

theorem Launch.run_of_fatal (hq : l.Visits w x env q) (hcalls : Calls env w q phase rest a c y)
    {e : StepError} (he : a.error? = some e) (hfatal : e.isFatal = true) :
    ∃ e', l.run w x = (.error e', y) := by
  have hending : a.ending = .error e := Account.error?_eq_some.1 he
  have hpause : e.isPause = false := StepError.isPause_of_isFatal hfatal
  rw [run_of_ends hq (.aborted hcalls hending hpause (.inr hfatal))]
  exact ⟨_, rfl⟩

/-- **Fatal errors.** In a workflow that goes on after failures, let a run call a phase, and let
some call in it end with a fatal error. If the call of the phase is cut off, the run fails. If not,
and the errors that are kept lead from the phase to a fatal one, the run fails, and nothing comes
after the phase. Otherwise a group in the phase lost the fatal error to one that came first and is
not fatal, and the run pauses or goes on with the phases that are left. -/
theorem run_of_fatal_call (hff : l.workflow.failFast = false) (hq : l.Visits w x env q)
    (hl : q.left = phase :: rest) (hc : q.context.isCompleted phase.name = false) :
    (∀ y, (phase.call env).run w q.context q.outside = (none, y) →
      ∃ e, l.run w x = (.error e, y)) ∧
    ∀ a c y, (phase.call env).run w q.context q.outside = (some (a, c), y) →
      ∀ (b : Account) (e : StepError), b.Within a → b.error? = some e → e.isFatal = true →
        (a.Escapes → ∃ e', l.run w x = (.error e', y)) ∧
        (¬a.Escapes → (∃ g : Account, g.Within a ∧ g.Loses) ∧
          ((∃ r, l.run w x = (.ok r, y) ∧ r.pausedAt = some phase.name) ∨
            ∃ reason, l.Visits w x env ⟨q.failed ++ [(phase.name, reason)], rest, c, y⟩)) := by
  refine ⟨fun y h ↦ Launch.run_of_cut_off hq hl hc h, ?_⟩
  intro a c y h b e hb he hfatal
  have hcalls : Calls env w q phase rest a c y := ⟨hl, hc, h⟩
  obtain ⟨-, rs, htrail⟩ := Step.trail_of_run h
  constructor
  · intro hesc
    obtain ⟨e', he', hfatal'⟩ := htrail.isFatal_of_escapes hesc
    exact Launch.run_of_fatal hq hcalls he' hfatal'
  · intro hnot
    obtain ⟨qs, hqs⟩ := htrail.of_within hb
    refine ⟨htrail.exists_loses hb (hqs.escapes_of_isFatal he hfatal) hnot, ?_⟩
    -- the phase fails all the same, with some other error
    obtain ⟨e', he'⟩ := Option.isSome_iff_exists.1 (htrail.error_of_within hb (by simp [he]))
    have hending : a.ending = .error e' := Account.error?_eq_some.1 he'
    cases hpause : e'.isPause with
    | true =>
      obtain ⟨step, blocker, rfl⟩ := StepError.isPause_iff.1 hpause
      exact .inl ⟨_, Launch.run_of_ends hq (.paused hcalls hending), rfl⟩
    | false =>
      have hnot' : e'.isFatal = false :=
        Bool.eq_false_iff.2 fun hfatal' ↦ hnot (htrail.escapes_of_isFatal he' hfatal')
      exact .inr ⟨_, hq.next (.failed hcalls hending hpause hnot' hff)⟩

/-! ## A timeout that is lost -/

/-- A workflow that goes on after failures, with a group of two handlers and a handler after it. -/
def lossyDocument : Json.Value :=
  .object [("name", .string "lossy"),
    ("phases", .array [
      .object [("name", .string "both"),
        ("steps", .array [
          .object [("handler", .string "bad"), ("name", .string "quick"), ("type", .string "code")],
          .object [("handler", .string "good"), ("name", .string "slow"),
            ("type", .string "code")]]),
        ("type", .string "parallel")],
      .object [("handler", .string "good"), ("name", .string "next"), ("type", .string "code")]]),
    ("safety", .object [("failOnStepError", .bool false), ("maxStepTimeoutMs", .ofNat 10)]),
    ("version", .string "1")]

def lossyGroup : Step :=
  .parallel ⟨"both", none⟩ [.code ⟨"quick", "bad", none, none⟩, .code ⟨"slow", "good", none, none⟩]

def lossy : Launch where
  host := { files := {}, tiers := { project := "project" }, handlers := ["bad", "good"] }
  runId := ⟨0⟩
  workflow := ⟨"lossy", "1", {}, some { maxStepTimeoutMs := some 10, failOnStepError := false },
    [lossyGroup, .code ⟨"next", "good", none, none⟩]⟩
  outset := .fresh none

/-- A stage on which the first handler fails at once, and the second one takes too long the first
time that it is called. -/
def lossyStage : Rehearsal.Stage where
  script :=
    { handlers := [("bad", { answers := [{ act := .fail "no" }] }),
      ("good", { answers := [{ delay := 50, act := .give .null }, { act := .give .null }] })] }

def lossyPosition : Position Rehearsal.Stage :=
  ⟨[], lossy.workflow.phases, .empty, lossyStage⟩

def lossyEnvironment : Environment := environment lossy.host lossy.workflow lossy.runId none

theorem visits_lossyPosition :
    lossy.Visits Rehearsal.world lossyStage lossyEnvironment lossyPosition := ⟨_, rfl, .refl⟩

theorem exists_call_lossyGroup :
    ∃ (a : Account) (c : Context) (y : Rehearsal.Stage) (b : Account),
      (lossyGroup.call lossyEnvironment).run Rehearsal.world lossyPosition.context
          lossyPosition.outside = (some (a, c), y) ∧
        b.Within a ∧ b.error? = some (.timeout "slow" 10) := by
  have hcall : ((lossyGroup.call lossyEnvironment).run Rehearsal.world lossyPosition.context
      lossyPosition.outside).1.any (fun r ↦
        r.1.inside.any fun b ↦ b.error? == some (.timeout "slow" 10)) = true := by
    decide +kernel
  rcases hrun : (lossyGroup.call lossyEnvironment).run Rehearsal.world lossyPosition.context
    lossyPosition.outside with ⟨_ | ⟨a, c⟩, y⟩
  · rw [hrun] at hcall
    cases hcall
  · rw [hrun] at hcall
    obtain ⟨b, hmem, hb⟩ := List.any_eq_true.1 hcall
    exact ⟨a, c, y, b, rfl, .inside hmem .refl, beq_iff_eq.1 hb⟩

/-- A phase in which a call timed out does not stop the run. The run returns a result, and the phase
after it is completed. -/
theorem lossy_goes_on :
    Definition.validate lossyDocument = .ok lossy.workflow ∧ lossy.workflow.failFast = false ∧
    lossy.Visits Rehearsal.world lossyStage lossyEnvironment lossyPosition ∧
    (∃ (rest : List Step) (a : Account) (c : Context) (y : Rehearsal.Stage) (b : Account)
        (e : StepError),
      Calls lossyEnvironment Rehearsal.world lossyPosition lossyGroup rest a c y ∧ b.Within a ∧
        b.error? = some e ∧ e.isFatal = true) ∧
    ∃ r y, lossy.run Rehearsal.world lossyStage = (.ok r, y) ∧ r.completedPhases = ["next"] := by
  refine ⟨by decide +kernel, rfl, visits_lossyPosition, ?_, ?_⟩
  · obtain ⟨a, c, y, b, hrun, hb, he⟩ := exists_call_lossyGroup
    exact ⟨_, a, c, y, b, _, ⟨rfl, rfl, hrun⟩, hb, he, rfl⟩
  · have hends : (lossy.run Rehearsal.world lossyStage).1.toOption.map (·.completedPhases) =
        some ["next"] := by
      decide +kernel
    rcases hrun : lossy.run Rehearsal.world lossyStage with ⟨e | r, y⟩
    · rw [hrun] at hends
      cases hends
    · rw [hrun] at hends
      exact ⟨r, y, rfl, Option.some.inj hends⟩

theorem run_of_lossyGroup :
    lossy.workflow.failFast = false ∧
    lossy.Visits Rehearsal.world lossyStage lossyEnvironment lossyPosition ∧
    lossyPosition.context.isCompleted lossyGroup.name = false ∧
    ∃ (a : Account) (c : Context) (y : Rehearsal.Stage) (b : Account) (e : StepError),
      (lossyGroup.call lossyEnvironment).run Rehearsal.world lossyPosition.context
          lossyPosition.outside = (some (a, c), y) ∧
        b.Within a ∧ b.error? = some e ∧ e.isFatal = true ∧
        (a.Escapes → ∃ e', lossy.run Rehearsal.world lossyStage = (.error e', y)) ∧
        (¬a.Escapes → ∃ g : Account, g.Within a ∧ g.Loses) := by
  obtain ⟨a, c, y, b, hrun, hb, he⟩ := exists_call_lossyGroup
  obtain ⟨hstops, hgoes⟩ :=
    (run_of_fatal_call rfl visits_lossyPosition rfl rfl).2 a c y hrun b _ hb he rfl
  exact ⟨rfl, visits_lossyPosition, rfl, a, c, y, b, _, hrun, hb, he, rfl, hstops,
    fun hnot ↦ (hgoes hnot).1⟩

end Workflow.Run
