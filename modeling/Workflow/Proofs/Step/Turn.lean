import Workflow.Proofs.Account.Call
import Workflow.Proofs.Process.Recording

/-!
# Turns

A turn runs the steps of a list one after another, each in the context that the one before left, and
ends with the first that fails. Nobody else writes to the context meanwhile, so what a turn comes to
is settled by the runs of its steps alone: `Turn` says so without the process that carries it out,
and `run_inOrder_iff` that the two agree.

`Rounds` are whole turns one after another. Loops are made of these.
-/

namespace Workflow

variable {ω : Type} {env : Environment} {w : World ω}

/-- A turn of some steps: from a context and a state of the world, by the calls that were made, to
what it ended with and the context and the world that it left. -/
inductive Turn (env : Environment) (w : World ω) :
    List Step → Context → ω → List Account → Except StepError Unit → Context → ω → Prop where
  | done (c : Context) (x : ω) : Turn env w [] c x [] (.ok ()) c x
  | next {s : Step} {ss : List Step} {a : Account} {as : List Account}
      {r : Except StepError Unit} {c d e : Context} {x y z : ω} :
      (s.call env).run w c x = (some (a, d), y) → a.error? = none → Turn env w ss d y as r e z →
        Turn env w (s :: ss) c x (a :: as) r e z
  | failed {s : Step} {ss : List Step} {a : Account} {err : StepError} {c d : Context} {x y : ω} :
      (s.call env).run w c x = (some (a, d), y) → a.error? = some err →
        Turn env w (s :: ss) c x [a] (.error err) d y

variable {ss : List Step} {c d : Context} {x y : ω} {as bs so out : List Account}
  {r : Except StepError Unit}

theorem run_inOrder_iff :
    (Process.inOrder Account.error? (Step.calls env ss) so).run w c x =
        (some ((out, r), d), y) ↔
      ∃ as, out = so ++ as ∧ Turn env w ss c x as r d y := by
  induction ss generalizing so c x with
  | nil =>
    constructor
    · intro h
      cases h
      exact ⟨[], (List.append_nil _).symm, .done _ _⟩
    · rintro ⟨as, rfl, hturn⟩
      cases hturn
      rw [List.append_nil]
      rfl
  | cons s ss ih =>
    rw [Step.calls, Process.inOrder, Process.run_bind]
    rcases hcall : (s.call env).run w c x with ⟨_ | ⟨a, d'⟩, y'⟩
    · constructor
      · intro h
        cases h
      · rintro ⟨as, -, hturn⟩
        cases hturn with
        | next hrun _ _ | failed hrun _ => cases hcall.symm.trans hrun
    · dsimp only
      cases ha : a.error? with
      | none =>
        dsimp only
        rw [ih]
        constructor
        · rintro ⟨as, rfl, hturn⟩
          exact ⟨a :: as, List.append_assoc .., .next hcall ha hturn⟩
        · rintro ⟨as, rfl, hturn⟩
          cases hturn with
          | next hrun _ hturn =>
            cases hcall.symm.trans hrun
            exact ⟨_, (List.append_assoc so [a] _).symm, hturn⟩
          | failed hrun he =>
            cases hcall.symm.trans hrun
            cases ha.symm.trans he
      | some err =>
        constructor
        · intro h
          cases h
          exact ⟨[a], rfl, .failed hcall ha⟩
        · rintro ⟨as, rfl, hturn⟩
          cases hturn with
          | next hrun hnone _ =>
            cases hcall.symm.trans hrun
            cases ha.symm.trans hnone
          | failed hrun he =>
            cases hcall.symm.trans hrun
            cases ha.symm.trans he
            rfl

namespace Turn

theorem run_eq (h : Turn env w ss c x as r d y) (so : List Account) :
    (Process.inOrder Account.error? (Step.calls env ss) so).run w c x =
      (some ((so ++ as, r), d), y) :=
  run_inOrder_iff.2 ⟨as, rfl, h⟩

/-- The calls of a turn are those of its steps in their order, up to the first that fails. -/
theorem pass (h : Turn env w ss c x as r d y) : Pass ss as r := by
  induction h with
  | done => exact .done
  | next hrun ha _ ih =>
    obtain ⟨rfl, -⟩ := Step.trail_of_run hrun
    exact .next ha ih
  | failed hrun ha =>
    obtain ⟨rfl, -⟩ := Step.trail_of_run hrun
    exact .failed ha

theorem unique {r' : Except StepError Unit} {d' : Context} {y' : ω}
    (h : Turn env w ss c x as r d y) (h' : Turn env w ss c x bs r' d' y') :
    as = bs ∧ r = r' ∧ d = d' ∧ y = y' := by
  cases (h.run_eq []).symm.trans (h'.run_eq [])
  exact ⟨rfl, rfl, rfl, rfl⟩

end Turn

theorem Pass.steps_eq (h : Pass ss as (.ok ())) : as.map Account.step = ss := by
  generalize hr : (.ok () : Except StepError Unit) = r at h
  induction h with
  | done => rfl
  | next _ _ ih => rw [List.map_cons, ih hr]
  | failed _ => cases hr

/-- The calls of a turn that fails are those of the first steps, and the last of them failed. -/
theorem Pass.exists_of_error {err : StepError} (h : Pass ss as (.error err)) :
    ∃ before a, as = before ++ [a] ∧ a.error? = some err ∧ (∀ b ∈ before, b.error? = none) ∧
      as.map Account.step <+: ss := by
  generalize hr : (.error err : Except StepError Unit) = r at h
  induction h with
  | done => cases hr
  | @next a ss as r ha _ ih =>
    obtain ⟨before, b, rfl, hb, hbefore, hsteps⟩ := ih hr
    refine ⟨a :: before, b, rfl, hb, List.forall_mem_cons.2 ⟨ha, hbefore⟩, ?_⟩
    exact List.cons_prefix_cons.2 ⟨rfl, hsteps⟩
  | @failed a ss err' ha =>
    cases hr
    exact ⟨[], a, rfl, ha, nofun, List.cons_prefix_cons.2 ⟨rfl, List.nil_prefix⟩⟩

/-! ## Rounds -/

/-- A number of whole turns, one after another, none of which failed. -/
inductive Rounds (env : Environment) (w : World ω) (ss : List Step) (c : Context) (x : ω) :
    Nat → List Account → Context → ω → Prop where
  | zero : Rounds env w ss c x 0 [] c x
  | succ {n : Nat} {as bs : List Account} {d e : Context} {y z : ω} :
      Rounds env w ss c x n as d y → Turn env w ss d y bs (.ok ()) e z →
        Rounds env w ss c x (n + 1) (as ++ bs) e z

namespace Rounds

variable {n m : Nat}

theorem unique (h : Rounds env w ss c x n as d y) {d' : Context} {y' : ω}
    (h' : Rounds env w ss c x n bs d' y') : as = bs ∧ d = d' ∧ y = y' := by
  induction h generalizing bs d' y' with
  | zero =>
    cases h'
    exact ⟨rfl, rfl, rfl⟩
  | succ _ hturn ih =>
    cases h' with
    | succ h' hturn' =>
      obtain ⟨rfl, rfl, rfl⟩ := ih h'
      obtain ⟨rfl, -, rfl, rfl⟩ := hturn.unique hturn'
      exact ⟨rfl, rfl, rfl⟩

/-- In every round all steps are called, in their order. -/
theorem steps_eq (h : Rounds env w ss c x n as d y) :
    as.map Account.step = (List.replicate n ss).flatten := by
  induction h with
  | zero => rfl
  | succ _ hturn ih =>
    rw [List.map_append, ih, hturn.pass.steps_eq, List.replicate_succ', List.flatten_append,
      List.flatten_singleton]

end Rounds

end Workflow
