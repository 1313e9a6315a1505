import Workflow.Condition.Eval

/-!
# The data a condition reads

An access chain is a name followed by accesses with fixed keys, such as `a.b[0]['c']`. A condition
holds only if every chain it reads leads somewhere, so missing data never makes a condition true by
way of a negation or of a comparison with null. `Condition.holdsIn` is the evaluation that callers
use; `evaluate` also reads the text, and a text that is no expression never holds.
-/

namespace Workflow.Condition

open Json (Value Members)

namespace Expr

/-- The segment that a constant key stands for in a path. -/
def segment? : Expr → Option String
  | number x =>
    if x.isFinite && Decimal.floor x == x && 0.0 ≤ x then
      some (String.ofList (Json.Number.intText x.toUInt64.toNat))
    else none
  | string s => some s
  | _ => none

/-- The path of an access chain. -/
def chain? : Expr → Option (List String)
  | name n => some [n]
  | member subject field => do return (← subject.chain?) ++ [field]
  | index subject position => do
    let s ← position.segment?
    return (← subject.chain?) ++ [s]
  | _ => none

mutual

/-- The longest access chains of an expression. Object literals are not looked into, and of a filter
only the list it filters: its comparison reads fields of the items. -/
def chains : Expr → List (List String)
  | name n => [[n]]
  | member subject field =>
    match (member subject field).chain? with
    | some path => [path]
    | none => chains subject
  | index subject position =>
    match (index subject position).chain? with
    | some path => [path]
    | none => chains subject ++ chains position
  | binary _ left right => chains left ++ chains right
  | transform subject _ arguments => chains subject ++ chainsOfAll arguments
  | conditional test yes no => chains test ++ chains yes ++ chains no
  | filter subject _ _ _ => chains subject
  | array items => chainsOfAll items
  | _ => []

def chainsOfAll : List Expr → List (List String)
  | [] => []
  | e :: es => chains e ++ chainsOfAll es

end

end Expr

/-- Whether a path leads somewhere from the variables. -/
def isPresent (vars : Members Value) : List String → Bool
  | [] => true
  | root :: path => ((vars.get? root).bind (·.descend path)).isSome

end Condition

/-! ## Conditions -/

/-- A condition that has been read. -/
structure Condition where
  source : String
  expr : Condition.Expr
  deriving Repr

namespace Condition

/-- Why a text is no condition. -/
inductive Malformed where
  | blank
  | badExpression
  deriving DecidableEq, Repr

def Malformed.message : Malformed → String
  | blank => "empty condition"
  | badExpression => "not a readable expression"

/-- Reads a condition. -/
def parse (source : String) : Except Malformed Condition :=
  if Text.isBlankText source then .error .blank
  else
    match Expr.parse? source with
    | some expr => .ok ⟨source, expr⟩
    | none => .error .badExpression

/-- Whether a condition holds over some variables: all it reads is there, and its value is true. -/
def holdsIn (c : Condition) (vars : Json.Members Json.Value) : Bool :=
  c.expr.chains.all (isPresent vars) &&
    holds (c.expr.eval (vars.mapValues Json.Value.widen))

/-- Reads and evaluates a condition. -/
def evaluate (source : String) (vars : Json.Members Json.Value) : Bool :=
  match parse source with
  | .ok c => c.holdsIn vars
  | .error _ => false

end Condition

end Workflow
