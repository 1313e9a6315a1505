import Mathlib.Order.Bounds.Defs
import Workflow.Proofs.Step.Turn
import Workflow.Rehearsal

/-!
# How often a loop runs

A loop with a limit of `m` passes takes whole rounds until its condition is false after one of them.
So the number of rounds is the least one from 1 to `m` after which the condition is false, or `m` if
there is none, unless a step fails before. `Loop.Ending` says so in terms of rounds alone, and
`Loop.ending_iff` that this is what running the loop comes to.

The loop looks at its condition twice between two passes. As nobody writes to the context in
between, it finds the same both times: `run_iterate_eq`.
-/

namespace Workflow

variable {ω : Type}

namespace Loop

section

variable (l : Loop) (env : Environment) (w : World ω) (ss : List Step) (c : Context) (x : ω)

/-- The condition is false after a number of rounds. -/
def Clears (i : Nat) : Prop := ∃ as d y, Rounds env w ss c x i as d y ∧ l.holds d = false

/-- The condition is not false after any of the first rounds, up to a number of them. -/
def Lasts (k : Nat) : Prop := ∀ i, 1 ≤ i → i ≤ k → ¬l.Clears env w ss c x i

/-- How a loop with a limit on its passes ends. -/
inductive Ending (m : Nat) : Course → Context → ω → Prop where
  /-- The rounds are as few as it takes for the condition to become false. -/
  | cleared {k : Nat} {as : List Account} {d : Context} {y : ω} :
      IsLeast {i | 1 ≤ i ∧ i ≤ m ∧ l.Clears env w ss c x i} k → Rounds env w ss c x k as d y →
        Ending m (as, .ok ()) d y
  /-- The condition is not false after any round that the limit allows. -/
  | exhausted {as : List Account} {d : Context} {y : ω} :
      l.Lasts env w ss c x m → Rounds env w ss c x m as d y → Ending m (as, l.exhaustion m) d y
  /-- A step fails in the round after the first `k`. -/
  | failed {k : Nat} {as bs : List Account} {e : StepError} {d d' : Context} {y y' : ω} :
      l.Lasts env w ss c x k → k < m → Rounds env w ss c x k as d y →
        Turn env w ss d y bs (.error e) d' y' → Ending m (as ++ bs, .error e) d' y'

end

variable {l : Loop} {env : Environment} {w : World ω} {ss : List Step} {c d : Context} {x y : ω}
  {k m : Nat} {as bs so : List Account}

/-! ## One round -/

theorem clears_iff (h : Rounds env w ss c x k as d y) :
    l.Clears env w ss c x k ↔ l.holds d = false := by
  constructor
  · rintro ⟨bs, d', y', h', hd⟩
    obtain ⟨-, rfl, -⟩ := h.unique h'
    exact hd
  · intro hd
    exact ⟨as, d, y, h, hd⟩

theorem lasts_zero : l.Lasts env w ss c x 0 := fun _ hi hi' ↦
  absurd (Nat.le_trans hi hi') (Nat.not_succ_le_zero 0)

theorem Lasts.succ (h : l.Lasts env w ss c x k) (hk : ¬l.Clears env w ss c x (k + 1)) :
    l.Lasts env w ss c x (k + 1) := by
  intro i hi hi'
  rcases Nat.le_succ_iff.1 hi' with hle | rfl
  · exact h i hi hle
  · exact hk

theorem Lasts.mono {j : Nat} (h : l.Lasts env w ss c x k) (hj : j ≤ k) :
    l.Lasts env w ss c x j := fun i hi hi' ↦ h i hi (Nat.le_trans hi' hj)

/-- The condition that a loop finds before a pass. -/
theorem Lasts.holds (h : l.Lasts env w ss c x k) (hrounds : Rounds env w ss c x k as d y)
    (hk : 1 ≤ k) : l.holds d = true := by
  have hk' := h k hk (Nat.le_refl k)
  rw [clears_iff hrounds] at hk'
  exact eq_true_of_ne_false hk'

variable {body : List Account → Process Context Course} {n left : Nat} {again : Bool}

/-- What a loop makes of the end of a pass: it goes on if no step failed and the condition holds. -/
def afterPass (l : Loop) (w : World ω) (next : List Account → Process Context Course) :
    Option (Course × Context) × ω → Option (Course × Context) × ω
  | (some ((out, .ok ()), d), y) =>
    if l.holds d = true then (next out).run w d y else (some ((out, .ok ()), d), y)
  | ended => ended

theorem run_iterate_succ (h : again = true → l.holds c = true) :
    (l.iterate n body again (left + 1) so).run w c x =
      l.afterPass w (l.iterate n body true left) ((body so).run w c x) := by
  have hpass : (again && !l.holds c) = false := by
    cases again with
    | false => rfl
    | true =>
      rw [h rfl]
      rfl
  rw [iterate, Process.run, hpass, if_neg Bool.false_ne_true, Process.run_bind]
  rcases (body so).run w c x with ⟨_ | ⟨⟨out, _ | _⟩, d⟩, y⟩
  · rfl
  · rfl
  · dsimp only
    rw [Process.run, afterPass]
    split
    · rfl
    · rfl

/-! ## Looking twice -/

/-- The passes of a loop that looks at its condition after each pass, and at no other time. -/
def iterateOnce (l : Loop) (passes : Nat) (body : List Account → Process Context Course) :
    Nat → List Account → Process Context Course
  | 0, so => .done (so, l.exhaustion passes)
  | left + 1, so => (body so).bind fun
    | (so, .error e) => .done (so, .error e)
    | (so, .ok ()) => .read fun c ↦
      if l.holds c then l.iterateOnce passes body left so else .done (so, .ok ())

theorem run_iterate_eq (h : again = true → l.holds c = true) :
    (l.iterate n body again left so).run w c x = (l.iterateOnce n body left so).run w c x := by
  induction left generalizing again so c x with
  | zero => rfl
  | succ left ih =>
    rw [run_iterate_succ h, iterateOnce, Process.run_bind]
    rcases (body so).run w c x with ⟨_ | ⟨⟨out, _ | _⟩, d⟩, y⟩
    · rfl
    · rfl
    · dsimp only
      rw [Process.run, afterPass]
      by_cases hd : l.holds d = true
      · rw [if_pos hd, if_pos hd, ih fun _ ↦ hd]
      · rw [if_neg hd, if_neg hd]
        rfl

/-! ## From round to round -/

/-- What a loop over some steps has to do after a number of rounds, with the calls made so far. -/
abbrev rest (l : Loop) (env : Environment) (ss : List Step) (m k : Nat) :
    List Account → Process Context Course :=
  l.iterate m (.inOrder Account.error? (Step.calls env ss)) (decide (1 ≤ k)) (m - k)

theorem run_rest_eq (hlasts : l.Lasts env w ss c x k) (hrounds : Rounds env w ss c x k as d y)
    (hk : k < m) :
    (l.rest env ss m k as).run w d y =
      l.afterPass w (l.rest env ss m (k + 1))
        ((Process.inOrder Account.error? (Step.calls env ss) as).run w d y) := by
  have hleft : m - k = (m - (k + 1)) + 1 := by omega
  have hagain : decide (1 ≤ k) = true → l.holds d = true := fun h ↦
    hlasts.holds hrounds (of_decide_eq_true h)
  have hnext : decide (1 ≤ k + 1) = true := decide_eq_true (Nat.le_add_left 1 k)
  rw [rest, rest, hleft, run_iterate_succ hagain, hnext]

/-- Rounds after which the condition still holds bring a loop as far as that. -/
theorem run_rest_of_lasts (hlasts : l.Lasts env w ss c x k)
    (hrounds : Rounds env w ss c x k as d y) (hk : k ≤ m) :
    (l.rest env ss m 0 []).run w c x = (l.rest env ss m k as).run w d y := by
  induction hrounds with
  | zero => rfl
  | @succ k as bs d e y z hrounds hturn ih =>
    have hlasts' := hlasts.mono (Nat.le_succ k)
    have hholds := hlasts.holds (hrounds.succ hturn) (Nat.le_add_left 1 k)
    rw [ih hlasts' (Nat.le_of_succ_le hk), run_rest_eq hlasts' hrounds hk, hturn.run_eq]
    exact if_pos hholds

theorem isLeast_of_lasts (hlasts : l.Lasts env w ss c x k) (hk : k < m)
    (hclears : l.Clears env w ss c x (k + 1)) :
    IsLeast {i | 1 ≤ i ∧ i ≤ m ∧ l.Clears env w ss c x i} (k + 1) := by
  refine ⟨⟨Nat.le_add_left 1 k, hk, hclears⟩, ?_⟩
  rintro i ⟨hi, -, hi'⟩
  by_contra hlt
  exact hlasts i hi (Nat.le_of_lt_succ (Nat.lt_of_not_le hlt)) hi'

theorem lasts_of_isLeast (h : IsLeast {i | 1 ≤ i ∧ i ≤ m ∧ l.Clears env w ss c x i} (k + 1)) :
    l.Lasts env w ss c x k := by
  intro i hi hi' hclears
  obtain ⟨⟨-, hk, -⟩, hleast⟩ := h
  have hle : k + 1 ≤ i := hleast ⟨hi, Nat.le_trans hi' (Nat.le_of_succ_le hk), hclears⟩
  omega

variable {course : Course} {e : Context} {z : ω}

theorem ending_or_lasts (hlasts : l.Lasts env w ss c x k)
    (hrounds : Rounds env w ss c x k as d y) (hk : k < m)
    (hrun : (l.rest env ss m k as).run w d y = (some (course, e), z)) :
    l.Ending env w ss c x m course e z ∨
      ∃ bs d' y', Rounds env w ss c x (k + 1) bs d' y' ∧ l.Lasts env w ss c x (k + 1) := by
  rw [run_rest_eq hlasts hrounds hk] at hrun
  rcases hbody : (Process.inOrder Account.error? (Step.calls env ss) as).run w d y with
    ⟨_ | ⟨⟨out, r⟩, d'⟩, y'⟩
  · rw [hbody] at hrun
    cases hrun
  · rw [hbody] at hrun
    obtain ⟨bs, rfl, hturn⟩ := run_inOrder_iff.1 hbody
    cases r with
    | error err =>
      cases hrun
      exact .inl (.failed hlasts hk hrounds hturn)
    | ok _ =>
      have hnext := hrounds.succ hturn
      by_cases hd : l.holds d' = true
      · have hnot : ¬l.Clears env w ss c x (k + 1) := by
          rw [clears_iff hnext, hd]
          exact Bool.noConfusion
        exact .inr ⟨_, _, _, hnext, hlasts.succ hnot⟩
      · have hfalse := eq_false_of_ne_true hd
        have hclears := (clears_iff hnext).2 hfalse
        rw [afterPass, if_neg hd] at hrun
        cases hrun
        exact .inl (.cleared (isLeast_of_lasts hlasts hk hclears) hnext)

/-- A run that ends has ended by some round, or the condition still holds after all of them. -/
theorem ending_or_lasts_of_le (hk : k ≤ m)
    (hrun : (l.rest env ss m 0 []).run w c x = (some (course, e), z)) :
    l.Ending env w ss c x m course e z ∨
      ∃ as d y, Rounds env w ss c x k as d y ∧ l.Lasts env w ss c x k := by
  induction k with
  | zero => exact .inr ⟨[], c, x, .zero, lasts_zero⟩
  | succ k ih =>
    rcases ih (Nat.le_of_succ_le hk) with hend | ⟨as, d, y, hrounds, hlasts⟩
    · exact .inl hend
    · rw [run_rest_of_lasts hlasts hrounds (Nat.le_of_succ_le hk)] at hrun
      exact ending_or_lasts hlasts hrounds hk hrun

theorem ending_of_run (hrun : (l.rest env ss m 0 []).run w c x = (some (course, e), z)) :
    l.Ending env w ss c x m course e z := by
  rcases ending_or_lasts_of_le (Nat.le_refl m) hrun with hend | ⟨as, d, y, hrounds, hlasts⟩
  · exact hend
  · rw [run_rest_of_lasts hlasts hrounds (Nat.le_refl m), rest, Nat.sub_self] at hrun
    cases hrun
    exact .exhausted hlasts hrounds

theorem Ending.run_eq (h : l.Ending env w ss c x m course e z) :
    (l.rest env ss m 0 []).run w c x = (some (course, e), z) := by
  cases h with
  | @cleared k as d y hleast hrounds =>
    obtain ⟨hk, hkm, hclears⟩ := hleast.1
    cases hrounds with
    | zero => exact absurd hk (Nat.not_succ_le_zero 0)
    | @succ k before bs d' _ y' _ hrounds hturn =>
      -- the condition holds up to the last round, and is false after it
      have hlasts := lasts_of_isLeast hleast
      have hfalse : ¬l.holds e = true := by
        rw [(clears_iff (hrounds.succ hturn)).1 hclears]
        exact Bool.false_ne_true
      rw [run_rest_of_lasts hlasts hrounds (Nat.le_of_succ_le hkm), run_rest_eq hlasts hrounds hkm,
        hturn.run_eq, afterPass, if_neg hfalse]
  | exhausted hlasts hrounds =>
    rw [run_rest_of_lasts hlasts hrounds (Nat.le_refl m), rest, Nat.sub_self]
    rfl
  | @failed k as bs err d _ y _ hlasts hk hrounds hturn =>
    rw [run_rest_of_lasts hlasts hrounds (Nat.le_of_lt hk), run_rest_eq hlasts hrounds hk,
      hturn.run_eq]
    rfl

/-! ## Loops -/

theorem passes_eq (cap : Option Nat) (l : Loop) :
    l.passes cap = max 1 (min l.maxRetries (cap.getD l.maxRetries)) := by
  cases cap with
  | none => rw [passes, Option.getD_none, Nat.min_self]
  | some cap => rfl

theorem exhaustion_cases (l : Loop) (m : Nat) :
    l.onExhausted = .warn ∧ l.exhaustion m = .ok () ∨
      l.onExhausted = .escalate ∧ l.exhaustion m = .error (.paused l.name (l.blocker m)) ∨
      l.onExhausted = .fail ∧ l.exhaustion m = .error (.exhausted l.name (l.blocker m)) := by
  rw [exhaustion]
  cases l.onExhausted with
  | warn => exact .inl ⟨rfl, rfl⟩
  | escalate => exact .inr (.inl ⟨rfl, rfl⟩)
  | fail => exact .inr (.inr ⟨rfl, rfl⟩)

/-- **Passes of a loop.** Let `m` be the limit on the passes of a loop, which is one at least. If no
one else writes to the context, the loop takes as many rounds as it needs for its condition to
become false, but `m` at most; then it completes, or it is exhausted after `m` rounds. A step that
fails ends the loop with its error.

In every round all steps are called in their order, and in the round that fails the steps up to the
one that fails. What the loop comes to is not changed by looking at the condition before a pass. -/
theorem ending_iff (l : Loop) (env : Environment) (ss : List Step) (w : World ω) (c : Context)
    (x : ω) :
    let m := l.passes env.maxLoopRetries
    m = max 1 (min l.maxRetries (env.maxLoopRetries.getD l.maxRetries)) ∧
    (∀ course d y,
      (l.process env (.inOrder Account.error? (Step.calls env ss))).run w c x =
          (some (course, d), y) ↔
        l.Ending env w ss c x m course d y) ∧
    (∀ k as d y, Rounds env w ss c x k as d y →
      as.map Account.step = (List.replicate k ss).flatten) ∧
    (∀ as e d d' y y', Turn env w ss d y as (.error e) d' y' →
      ∃ before a, as = before ++ [a] ∧ a.error? = some e ∧ (∀ b ∈ before, b.error? = none) ∧
        as.map Account.step <+: ss) ∧
    (l.onExhausted = .warn ∧ l.exhaustion m = .ok () ∨
      l.onExhausted = .escalate ∧ l.exhaustion m = .error (.paused l.name (l.blocker m)) ∨
      l.onExhausted = .fail ∧ l.exhaustion m = .error (.exhausted l.name (l.blocker m))) ∧
    (l.blocker m = "loop '" ++ l.name ++ "' exhausted " ++ toString m ++
      " retries with condition '" ++ l.condition ++ "' still true") ∧
    (l.process env (.inOrder Account.error? (Step.calls env ss))).run w c x =
      (l.iterateOnce m (.inOrder Account.error? (Step.calls env ss)) m []).run w c x := by
  intro m
  refine ⟨passes_eq _ l, fun course d y ↦ ⟨ending_of_run, Ending.run_eq⟩, ?_, ?_,
    exhaustion_cases l m, rfl, ?_⟩
  · intro k as d y hrounds
    exact hrounds.steps_eq
  · intro as e d d' y y' hturn
    exact hturn.pass.exists_of_error
  · exact run_iterate_eq Bool.noConfusion

/-! ### A loop that counts -/

def counting : Loop := ⟨"count", "tick.again", 5, .fail⟩

/-- A step that counts up to two. -/
def countingSteps : List Step := [.code ⟨"tick", "count", none, some "tick"⟩]

def countingStage : Rehearsal.Stage where
  script := { handlers := [("count", { answers := [{ act := .count "tick.n" 2 }] })] }

def countingEnvironment : Environment :=
  { files := {}, tiers := { project := "project" }, handlers := ["count"] }

/-- A loop over a step that counts up to two completes after two of its five passes. -/
theorem ending_of_counting : ∃ as d y,
    counting.Ending countingEnvironment Rehearsal.world countingSteps .empty countingStage 5
      (as, .ok ()) d y ∧
    as.map (fun a ↦ a.step.name) = ["tick", "tick"] := by
  have hends : ((counting.process countingEnvironment (.inOrder Account.error?
      (Step.calls countingEnvironment countingSteps))).run Rehearsal.world .empty
        countingStage).1.map (fun r ↦ (r.1.2, r.1.1.map fun a ↦ a.step.name)) =
      some (.ok (), ["tick", "tick"]) := by
    decide +kernel
  rcases hrun : (counting.process countingEnvironment (.inOrder Account.error?
      (Step.calls countingEnvironment countingSteps))).run Rehearsal.world .empty
        countingStage with ⟨_ | ⟨⟨as, r⟩, d⟩, y⟩
  · rw [hrun] at hends
    cases hends
  · rw [hrun] at hends
    obtain ⟨rfl, hsteps⟩ := Prod.mk.inj (Option.some.inj hends)
    obtain ⟨-, hiff, -⟩ := ending_iff counting countingEnvironment countingSteps Rehearsal.world
      .empty countingStage
    exact ⟨as, d, y, (hiff _ d y).1 hrun, hsteps⟩

end Loop

end Workflow
