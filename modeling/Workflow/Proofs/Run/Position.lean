import Mathlib.Logic.Relation
import Workflow.Proofs.Process.Recording
import Workflow.Run

/-!
# Where a walk is

A walk goes from one position to the next, a phase at a time: `Run.Onward` tells how, and `Run.Ends`
how it ends where it does not go on. `Onward.run_eq` says that nothing else happens between two
positions, so a run from the first one is a run from any that it reaches, and `exists_ends` that
every run which is not cut off reaches its end this way.

A position is everything that the rest of a run depends on. What holds at all positions that a run
reaches is proved by induction on the way there.
-/

namespace Workflow.Run

/-- Where a walk through phases is. -/
structure Position (ω : Type) where
  /-- The phases that failed, with the texts of their errors. -/
  failed : List (String × String)
  /-- The phases that are left. -/
  left : List Step
  context : Context
  outside : ω

variable {ω : Type} (env : Environment) (failFast : Bool) (w : World ω)

/-- What the walk from a position comes to. -/
def Position.run (p : Position ω) : Option (Except RunError Walk × Context) × ω :=
  (walk env failFast p.failed p.left).run w p.context p.outside

/-- The phase at a position is called, and the call ends with an account, a context and a state of
the world. -/
structure Calls (p : Position ω) (phase : Step) (rest : List Step) (a : Account) (c : Context)
    (x : ω) : Prop where
  left_eq : p.left = phase :: rest
  not_completed : p.context.isCompleted phase.name = false
  run_eq : (phase.call env).run w p.context p.outside = (some (a, c), x)

/-- A walk goes on from a position to another one. -/
inductive Onward : Position ω → Position ω → Prop where
  | passed {p : Position ω} {phase : Step} {rest : List Step} {x : ω} :
      p.left = phase :: rest → p.context.isCompleted phase.name = true →
        w.report (passed phase.name) p.outside = (none, x) →
        Onward p ⟨p.failed, rest, p.context, x⟩
  | completed {p : Position ω} {phase : Step} {rest : List Step} {a : Account} {c : Context}
      {x y : ω} : Calls env w p phase rest a c x → a.ending = .ok .completed →
        w.announce phase.name (c.markCompleted phase.name) x = (none, y) →
        Onward p ⟨p.failed, rest, c.markCompleted phase.name, y⟩
  | skipped {p : Position ω} {phase : Step} {rest : List Step} {a : Account} {c : Context}
      {x : ω} : Calls env w p phase rest a c x → a.ending = .ok .skipped →
        Onward p ⟨p.failed, rest, c, x⟩
  | failed {p : Position ω} {phase : Step} {rest : List Step} {a : Account} {c : Context}
      {x : ω} {e : StepError} : Calls env w p phase rest a c x → a.ending = .error e →
        e.isPause = false → e.isFatal = false → failFast = false →
        Onward p ⟨p.failed ++ [(phase.name, e.message)], rest, c, x⟩

/-- A walk ends at a position. -/
inductive Ends : Position ω → Except RunError Walk → Context → ω → Prop where
  | finished {p : Position ω} : p.left = [] → Ends p (.ok (.finished p.failed)) p.context p.outside
  | refused {p : Position ω} {phase : Step} {rest : List Step} {x : ω} {reason : String} :
      p.left = phase :: rest → p.context.isCompleted phase.name = true →
        w.report (passed phase.name) p.outside = (some reason, x) →
        Ends p (.error (.audit reason)) p.context x
  | unheard {p : Position ω} {phase : Step} {rest : List Step} {a : Account} {c : Context}
      {x y : ω} {reason : String} : Calls env w p phase rest a c x → a.ending = .ok .completed →
        w.announce phase.name (c.markCompleted phase.name) x = (some reason, y) →
        Ends p (.error (.announcement phase.name reason)) (c.markCompleted phase.name) y
  | paused {p : Position ω} {phase : Step} {rest : List Step} {a : Account} {c : Context}
      {x : ω} {step blocker : String} : Calls env w p phase rest a c x →
        a.ending = .error (.paused step blocker) → Ends p (.ok (.paused phase.name blocker)) c x
  | aborted {p : Position ω} {phase : Step} {rest : List Step} {a : Account} {c : Context}
      {x : ω} {e : StepError} : Calls env w p phase rest a c x → a.ending = .error e →
        e.isPause = false → (failFast = true ∨ e.isFatal = true) →
        Ends p (.error (.ofStep phase.name e)) c x

/-- A walk comes from one position to another. -/
def Reaches : Position ω → Position ω → Prop := Relation.ReflTransGen (Onward env failFast w)

variable {env failFast w}

/-! ## The run from a position -/

theorem Position.run_of_completed {p : Position ω} {phase : Step} {rest : List Step}
    (hl : p.left = phase :: rest) (hc : p.context.isCompleted phase.name = true) :
    p.run env failFast w =
      (passing phase.name (walk env failFast p.failed rest)).run w p.context p.outside := by
  rw [Position.run, hl, walk, Process.run, if_pos hc]

theorem Position.run_of_not_completed {p : Position ω} {phase : Step} {rest : List Step}
    (hl : p.left = phase :: rest) (hc : p.context.isCompleted phase.name = false) :
    p.run env failFast w =
      ((phase.process env).bind (proceeding failFast p.failed phase.name fun failed ↦
        walk env failFast failed rest)).run w p.context p.outside := by
  rw [Position.run, hl, walk, Process.run, if_neg (by simp [hc])]

theorem Calls.run_position {p : Position ω} {phase : Step} {rest : List Step} {a : Account}
    {c : Context} {x : ω} (h : Calls env w p phase rest a c x) :
    p.run env failFast w =
      (proceeding failFast p.failed phase.name (fun failed ↦ walk env failFast failed rest)
        a.ending).run w c x := by
  rw [Position.run_of_not_completed h.left_eq h.not_completed, Step.process, Process.bind_assoc,
    Process.run_bind, h.run_eq]
  rfl

theorem Onward.run_eq {p q : Position ω} (h : Onward env failFast w p q) :
    p.run env failFast w = q.run env failFast w := by
  cases h with
  | passed hl hc hr =>
    rw [Position.run_of_completed hl hc, passing, Process.run, hr]
    rfl
  | completed h he ha =>
    rw [h.run_position, he, proceeding, announcing, Process.run, Process.run, Process.run, ha]
    rfl
  | skipped h he =>
    rw [h.run_position, he]
    rfl
  | failed h he hp hf hff =>
    rw [h.run_position, he, proceeding, if_neg (by simp [hp]), if_neg (by simp [hff, hf])]
    rfl

theorem Ends.run_eq {p : Position ω} {r : Except RunError Walk} {c : Context} {x : ω}
    (h : Ends env failFast w p r c x) : p.run env failFast w = (some (r, c), x) := by
  cases h with
  | finished hl =>
    rw [Position.run, hl]
    rfl
  | refused hl hc hr =>
    rw [Position.run_of_completed hl hc, passing, Process.run, hr]
    rfl
  | unheard h he ha =>
    rw [h.run_position, he, proceeding, announcing, Process.run, Process.run, Process.run, ha]
    rfl
  | paused h he =>
    rw [h.run_position, he]
    rfl
  | aborted h he hp hf =>
    have hf' : (failFast || _) = true := Bool.or_eq_true_iff.2 hf
    rw [h.run_position, he, proceeding, if_neg (by simp [hp]), if_pos hf']
    rfl

theorem Reaches.run_eq {p q : Position ω} (h : Reaches env failFast w p q) :
    p.run env failFast w = q.run env failFast w := by
  induction h with
  | refl => rfl
  | tail _ hq ih => exact ih.trans hq.run_eq

/-! ## Ends -/

theorem Calls.ends_or_onward {p : Position ω} {phase : Step} {rest : List Step} {a : Account}
    {c : Context} {x : ω} (h : Calls env w p phase rest a c x) :
    (∃ r c' y, Ends env failFast w p r c' y) ∨
      ∃ q, Onward env failFast w p q ∧ q.left = rest := by
  cases he : a.ending with
  | ok status =>
    cases status with
    | completed =>
      rcases ha : w.announce phase.name (c.markCompleted phase.name) x with ⟨_ | reason, y⟩
      · exact .inr ⟨_, .completed h he ha, rfl⟩
      · exact .inl ⟨_, _, _, .unheard h he ha⟩
    | skipped => exact .inr ⟨_, .skipped h he, rfl⟩
  | error e =>
    -- a pause is looked for first, so it comes before a failure that would end the run
    by_cases hp : e.isPause = true
    · obtain ⟨step, blocker, rfl⟩ := StepError.isPause_iff.1 hp
      exact .inl ⟨_, _, _, .paused h he⟩
    · rw [Bool.not_eq_true] at hp
      by_cases hf : failFast = true ∨ e.isFatal = true
      · exact .inl ⟨_, _, _, .aborted h he hp hf⟩
      · obtain ⟨hff, hfatal⟩ := not_or.1 hf
        exact .inr ⟨_, .failed h he hp (by simpa using hfatal) (by simpa using hff), rfl⟩

theorem Ends.of_run {p : Position ω} {r r' : Except RunError Walk} {c c' : Context} {x x' : ω}
    (h : Ends env failFast w p r' c' x') (hrun : p.run env failFast w = (some (r, c), x)) :
    Ends env failFast w p r c x := by
  have heq := h.run_eq.symm.trans hrun
  cases heq
  exact h

/-- At every position of a run that is not cut off, the walk ends or goes on. -/
theorem ends_or_onward {p : Position ω} {r : Except RunError Walk} {c : Context} {x : ω}
    (h : p.run env failFast w = (some (r, c), x)) :
    Ends env failFast w p r c x ∨
      ∃ q phase, Onward env failFast w p q ∧ p.left = phase :: q.left := by
  cases hl : p.left with
  | nil => exact .inl ((Ends.finished hl).of_run h)
  | cons phase rest =>
    cases hc : p.context.isCompleted phase.name with
    | true =>
      rcases hr : w.report (passed phase.name) p.outside with ⟨_ | reason, y⟩
      · exact .inr ⟨_, phase, .passed hl hc hr, rfl⟩
      · exact .inl ((Ends.refused hl hc hr).of_run h)
    | false =>
      rcases hcall : (phase.call env).run w p.context p.outside with ⟨_ | ⟨a, c'⟩, y⟩
      · rw [Position.run_of_not_completed hl hc, Step.process, Process.bind_assoc,
          Process.run_bind, hcall] at h
        cases h
      · have hcalls : Calls env w p phase rest a c' y := ⟨hl, hc, hcall⟩
        rcases hcalls.ends_or_onward with ⟨r', c'', y', hend⟩ | ⟨q, hq, rfl⟩
        · exact .inl (hend.of_run h)
        · exact .inr ⟨q, phase, hq, rfl⟩

/-- **Ends.** A run that is not cut off reaches the position at which it ends. -/
theorem exists_ends {p : Position ω} {r : Except RunError Walk} {c : Context} {x : ω}
    (h : p.run env failFast w = (some (r, c), x)) :
    ∃ q, Reaches env failFast w p q ∧ Ends env failFast w q r c x := by
  -- on the phases that are left: whatever becomes of a phase, the walk leaves it behind
  induction hl : p.left generalizing p with
  | nil =>
    rcases ends_or_onward h with hend | ⟨q, phase, -, hq⟩
    · exact ⟨p, .refl, hend⟩
    · rw [hl] at hq
      cases hq
  | cons phase rest ih =>
    rcases ends_or_onward h with hend | ⟨q, phase', hq, hl'⟩
    · exact ⟨p, .refl, hend⟩
    · have hrest : q.left = rest := (List.cons.inj (hl'.symm.trans hl)).2
      obtain ⟨e, hreach, hend⟩ := ih (hq.run_eq.symm.trans h) hrest
      exact ⟨e, .head hq hreach, hend⟩

/-! ## One way on

Worlds are functions, so a call ends in one way, and there is one walk from a position. -/

theorem Calls.unique {p : Position ω} {phase phase' : Step} {rest rest' : List Step}
    {a a' : Account} {c c' : Context} {x x' : ω} (h : Calls env w p phase rest a c x)
    (h' : Calls env w p phase' rest' a' c' x') :
    phase = phase' ∧ rest = rest' ∧ a = a' ∧ c = c' ∧ x = x' := by
  obtain ⟨rfl, rfl⟩ := List.cons.inj (h.left_eq.symm.trans h'.left_eq)
  obtain ⟨hcall, rfl⟩ := Prod.mk.inj (h.run_eq.symm.trans h'.run_eq)
  obtain ⟨rfl, rfl⟩ := Prod.mk.inj (Option.some.inj hcall)
  exact ⟨rfl, rfl, rfl, rfl, rfl⟩

theorem Calls.not_passed {p : Position ω} {phase phase' : Step} {rest rest' : List Step}
    {a : Account} {c : Context} {x : ω} (h : Calls env w p phase rest a c x)
    (hl : p.left = phase' :: rest') : p.context.isCompleted phase'.name = false := by
  obtain ⟨rfl, -⟩ := List.cons.inj (hl.symm.trans h.left_eq)
  exact h.not_completed

/-- What a walk goes on to after a call depends on how the call ended. -/
theorem Onward.of_calls {p q : Position ω} (h : Onward env failFast w p q) {phase : Step}
    {rest : List Step} {a : Account} {c : Context} {x : ω}
    (hcalls : Calls env w p phase rest a c x) :
    (a.ending = .ok .completed ∧
      ∃ y, w.announce phase.name (c.markCompleted phase.name) x = (none, y) ∧
        q = ⟨p.failed, rest, c.markCompleted phase.name, y⟩) ∨
    (a.ending = .ok .skipped ∧ q = ⟨p.failed, rest, c, x⟩) ∨
    ∃ e, a.ending = .error e ∧ e.isPause = false ∧ e.isFatal = false ∧
      q = ⟨p.failed ++ [(phase.name, e.message)], rest, c, x⟩ := by
  cases h with
  | passed hl hc hr =>
    rw [hcalls.not_passed hl] at hc
    cases hc
  | completed h he ha =>
    obtain ⟨rfl, rfl, rfl, rfl, rfl⟩ := h.unique hcalls
    exact .inl ⟨he, _, ha, rfl⟩
  | skipped h he =>
    obtain ⟨rfl, rfl, rfl, rfl, rfl⟩ := h.unique hcalls
    exact .inr (.inl ⟨he, rfl⟩)
  | failed h he hp hf hff =>
    obtain ⟨rfl, rfl, rfl, rfl, rfl⟩ := h.unique hcalls
    exact .inr (.inr ⟨_, he, hp, hf, rfl⟩)

theorem Onward.unique {p q q' : Position ω} (h : Onward env failFast w p q)
    (h' : Onward env failFast w p q') : q = q' := by
  cases h with
  | passed hl hc hr =>
    cases h' with
    | passed hl' hc' hr' =>
      obtain ⟨rfl, rfl⟩ := List.cons.inj (hl.symm.trans hl')
      obtain ⟨-, rfl⟩ := Prod.mk.inj (hr.symm.trans hr')
      rfl
    | completed hcalls | skipped hcalls | failed hcalls =>
      rw [hcalls.not_passed hl] at hc
      cases hc
  | completed hcalls he ha =>
    rcases h'.of_calls hcalls with ⟨-, y, ha', rfl⟩ | ⟨he', -⟩ | ⟨e, he', -⟩
    · obtain ⟨-, rfl⟩ := Prod.mk.inj (ha.symm.trans ha')
      rfl
    · cases he.symm.trans he'
    · cases he.symm.trans he'
  | skipped hcalls he =>
    rcases h'.of_calls hcalls with ⟨he', -⟩ | ⟨-, rfl⟩ | ⟨e, he', -⟩
    · cases he.symm.trans he'
    · rfl
    · cases he.symm.trans he'
  | failed hcalls he hp hf hff =>
    rcases h'.of_calls hcalls with ⟨he', -⟩ | ⟨he', -⟩ | ⟨e, he', -, -, rfl⟩
    · cases he.symm.trans he'
    · cases he.symm.trans he'
    · obtain rfl := Except.error.inj (he.symm.trans he')
      rfl

/-- Where a walk ends with a result, it does not go on. -/
theorem Ends.not_onward {p : Position ω} {ended : Walk} {c : Context} {x : ω}
    (h : Ends env failFast w p (.ok ended) c x) (q : Position ω) :
    ¬Onward env failFast w p q := by
  intro hq
  cases h with
  | finished hl =>
    cases hq with
    | passed hl' => cases hl.symm.trans hl'
    | completed hcalls | skipped hcalls | failed hcalls => cases hl.symm.trans hcalls.left_eq
  | paused hcalls he =>
    rcases hq.of_calls hcalls with ⟨he', -⟩ | ⟨he', -⟩ | ⟨e, he', hp, -⟩
    · cases he.symm.trans he'
    · cases he.symm.trans he'
    · obtain rfl := Except.error.inj (he.symm.trans he')
      cases hp

/-- Behind the next position lies all that a walk reaches, but the position it is at. -/
theorem Onward.reaches_iff {p q m : Position ω} (h : Onward env failFast w p q) :
    Reaches env failFast w p m ↔ m = p ∨ Reaches env failFast w q m := by
  constructor
  · intro hm
    rcases hm.cases_head with rfl | ⟨q', hq', hm⟩
    · exact .inl rfl
    · obtain rfl := h.unique hq'
      exact .inr hm
  · rintro (rfl | hm)
    · exact .refl
    · exact .head h hm

/-- Of two positions that a walk reaches, one comes before the other. -/
theorem Reaches.total {p q q' : Position ω} (h : Reaches env failFast w p q)
    (h' : Reaches env failFast w p q') :
    Reaches env failFast w q q' ∨ Reaches env failFast w q' q :=
  Relation.ReflTransGen.total_of_right_unique (fun _ _ _ h h' ↦ Onward.unique h h') h h'

end Workflow.Run
