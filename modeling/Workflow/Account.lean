import Workflow.Context
import Workflow.Step.Error

/-!
# Accounts of calls

Whatever is called is written down: an account of a call tells the step, the context that it was
called in, the calls inside it in the order in which they ended, and how the step ended itself.
Calls that run side by side stand in the order in which they were over, and calls that run one after
the other in the order in which they were made, which is the same.
-/

namespace Workflow

/-- How a step ended when it did not fail. -/
inductive StepStatus where
  | completed
  | skipped
  deriving DecidableEq, Repr

/-- The account of one call of a step. -/
inductive Account where
  | mk (step : Step) (context : Context) (inside : List Account)
      (ending : Except StepError StepStatus)

namespace Account

def step : Account → Step
  | mk s _ _ _ => s

def context : Account → Context
  | mk _ c _ _ => c

/-- The calls that were made directly inside it. -/
def inside : Account → List Account
  | mk _ _ as _ => as

def ending : Account → Except StepError StepStatus
  | mk _ _ _ r => r

def error? (a : Account) : Option StepError :=
  match a.ending with
  | .ok _ => none
  | .error e => some e

theorem error?_eq_some {a : Account} {e : StepError} :
    a.error? = some e ↔ a.ending = .error e := by
  unfold error?
  cases a.ending with
  | ok _ => simp
  | error e' => simp

end Account

/-- What happens inside a step: the calls of other steps, and how it ends. -/
abbrev Course := List Account × Except StepError Unit

end Workflow
