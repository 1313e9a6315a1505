import Workflow.Proofs.Account.Escape

/-!
# Pauses among failures

A pause takes the way of errors. So a group in which one child paused and another one failed ends
as its first child to do either: it pauses if that was a pause, and the failure is lost with all
other errors, although every other group with a failing child fails. `Account.Causes` follows the
errors that are kept, and the calls on the way of a pause are those that a run pauses on account of.
-/

namespace Workflow

open Process (Report)

theorem Step.Closes.step_eq {s : Step} {r : Except StepError Unit} {e : Audit.Event}
    (h : s.Closes r e) : e.step = s.name := by
  cases h with
  | completed | paused | failed => rfl

theorem Step.Closes.status_of_error {s : Step} {e : StepError} {ev : Audit.Event}
    (h : s.Closes (.error e) ev) : ev.status = if e.isPause then .paused else .failed := by
  cases h with
  | paused => rfl
  | failed hp =>
    rw [hp]
    rfl

namespace Account

/-- A call directly inside ended with an error that is no pause. -/
def HasFailure (a : Account) : Prop :=
  ∃ b e, b ∈ a.inside ∧ b.error? = some e ∧ e.isPause = false

/-- The first of the calls directly inside to end with an error ended with a pause. -/
def PausesFirst (a : Account) : Prop :=
  ∃ b e, firstFailing a.inside = some b ∧ b.error? = some e ∧ e.isPause = true

/-- A call that the error of another one comes from: that call itself, or the first one to fail
inside a call that the error comes from. -/
inductive Causes (b : Account) : Account → Prop where
  | refl : Causes b b
  | first {a c : Account} : firstFailing a.inside = some c → Causes b c → Causes b a

theorem Causes.within {a b : Account} (h : b.Causes a) : b.Within a := by
  induction h with
  | refl => exact .refl
  | first hc _ ih => exact .inside (firstFailing_eq_some hc).1 ih

theorem firstFailing_of_not_pausesFirst {a : Account} (hf : a.HasFailure) (hp : ¬a.PausesFirst) :
    ∃ d e, firstFailing a.inside = some d ∧ d.error? = some e ∧ e.isPause = false := by
  obtain ⟨b, e, hb, he, -⟩ := hf
  obtain ⟨d, hd⟩ := exists_firstFailing hb he
  obtain ⟨-, e', he', -⟩ := firstFailing_eq_some hd
  cases hpause : e'.isPause with
  | false => exact ⟨d, e', hd, he', hpause⟩
  | true => exact absurd ⟨d, e', hd, he', hpause⟩ hp

namespace Trail

variable {a g : Account} {rs : List Report}

/-- A call with a failing call inside reports how the first one of these ended, and ends in the same
way unless the sink refuses that report. -/
theorem closing_of_firstFailing (h : a.Trail rs) {b : Account} (hb : firstFailing a.inside = some b)
    {e : StepError} (he : b.error? = some e) :
    ∃ before ev answer, rs = before ++ [(ev, answer)] ∧ a.step.Closes (.error e) ev ∧
      a.error? = some (answer.elim e .audit) := by
  obtain ⟨-, e', he', hfirst⟩ := firstFailing_eq_some hb
  obtain rfl : e' = e := Option.some.inj (he'.symm.trans he)
  cases h with
  | skipped | unskipped | unopened => cases hfirst
  | @closed s c m calls r rs ev hadmits _ _ hclose =>
    obtain rfl := hadmits.eq_error hfirst
    exact ⟨_ :: rs, ev, none, rfl, hclose, rfl⟩
  | @unclosed s c m calls r rs ev reason hadmits _ _ hclose =>
    obtain rfl := hadmits.eq_error hfirst
    exact ⟨_ :: rs, ev, some reason, rfl, hclose, rfl⟩

theorem closing_of_hasFailure (h : a.Trail rs) (hf : a.HasFailure) :
    ∃ before ev answer, rs = before ++ [(ev, answer)] ∧ ev.step = a.step.name ∧
      (¬a.PausesFirst → ev.status = .failed ∧ ∃ e, a.error? = some e ∧ e.isPause = false) ∧
      (a.PausesFirst → ev.status = .paused ∧ ∃ e, a.error? = some e ∧
        (e.isPause = true ↔ answer = none)) := by
  by_cases hp : a.PausesFirst
  · obtain ⟨b, e, hb, he, hpause⟩ := hp
    obtain ⟨before, ev, answer, hrs, hclose, herror⟩ := h.closing_of_firstFailing hb he
    refine ⟨before, ev, answer, hrs, hclose.step_eq,
      fun hnot ↦ absurd ⟨b, e, hb, he, hpause⟩ hnot, fun _ ↦ ⟨?_, _, herror, ?_⟩⟩
    · rw [hclose.status_of_error, if_pos hpause]
    · cases answer with
      | none => exact iff_of_true hpause rfl
      | some reason => exact iff_of_false nofun nofun
  · obtain ⟨b, e, hb, he, hpause⟩ := firstFailing_of_not_pausesFirst hf hp
    obtain ⟨before, ev, answer, hrs, hclose, herror⟩ := h.closing_of_firstFailing hb he
    refine ⟨before, ev, answer, hrs, hclose.step_eq, fun _ ↦ ⟨?_, _, herror, ?_⟩,
      fun hp' ↦ absurd hp' hp⟩
    · rw [hclose.status_of_error, if_neg (by simp [hpause])]
    · cases answer with
      | none => exact hpause
      | some reason => rfl

/-- An error is that of all calls that it comes from, unless a sink refused a report on the way. -/
theorem error_of_causes (h : a.Trail rs) (hg : g.Causes a) :
    a.error? = g.error? ∨ ∃ reason, a.error? = some (.audit reason) := by
  induction hg generalizing rs with
  | refl => exact .inl rfl
  | @first a c hc _ ih =>
    obtain ⟨qs, hq⟩ := h.of_mem_inside (firstFailing_eq_some hc).1
    rcases h.error_of_firstFailing hc with heq | hreason
    · rw [heq]
      exact ih hq
    · exact .inr hreason

/-- If a call that pauses has a failing call inside, it is a group in which the pause came first. -/
theorem pausesFirst_of_pause (h : a.Trail rs) {e : StepError} (he : a.error? = some e)
    (hpause : e.isPause = true) (hf : a.HasFailure) :
    a.step.kind = .parallel ∧ a.PausesFirst := by
  have hfirst : a.PausesFirst := by
    obtain ⟨before, ev, answer, -, -, hfails, -⟩ := h.closing_of_hasFailure hf
    by_contra hp
    obtain ⟨-, e', he', hpause'⟩ := hfails hp
    obtain rfl := Option.some.inj (he'.symm.trans he)
    rw [hpause'] at hpause
    cases hpause
  refine ⟨?_, hfirst⟩
  -- in any other step the call that failed would be the only one to end with an error
  by_contra hkind
  obtain ⟨b, eb, hb, heb, hpb⟩ := hf
  obtain ⟨d, ed, hd, hed, hpd⟩ := hfirst
  obtain rfl : d = b := Option.some.inj (hd.symm.trans (h.firstFailing_eq hkind hb heb))
  obtain rfl := Option.some.inj (heb.symm.trans hed)
  rw [hpb] at hpd
  cases hpd

/-- What holds of a pause holds of all calls that it comes from. -/
theorem pausesFirst_of_causes (h : a.Trail rs) {e : StepError} (he : a.error? = some e)
    (hpause : e.isPause = true) (hg : g.Causes a) (hf : g.HasFailure) :
    g.step.kind = .parallel ∧ g.PausesFirst := by
  obtain ⟨qs, hq⟩ := h.of_within hg.within
  rcases h.error_of_causes hg with heq | ⟨reason, hreason⟩
  · exact hq.pausesFirst_of_pause (heq.symm.trans he) hpause hf
  · -- a refused report is no pause
    obtain rfl := Option.some.inj (hreason.symm.trans he)
    cases hpause

end Trail

end Account

end Workflow
