import Workflow.Condition.Expr
import Workflow.Json.Path

/-!
# Evaluating conditions

`Expr.eval` reads names from a scope of widened values, in which every number is a double. Errors
are causes; a condition only ever learns that there was one. `Value.isTruthy` turns the result into
the truth of the condition.
-/

namespace Workflow

/-! ## Truth and widening -/

namespace Json.Value

/-- False, null, zero and the empty string are not true; all else is. -/
def isTruthy : Value → Bool
  | bool b => b
  | null => false
  | number n => n.toFloat != 0.0
  | string s => !s.isEmpty
  | array _ => true
  | object _ => true

mutual

/-- The value with every number, at any depth, as a double. -/
def widen : Value → Value
  | number n => number (.float n.toFloat)
  | array xs => array (widenItems xs)
  | object ms => object (widenMembers ms)
  | v => v

def widenItems : List Value → List Value
  | [] => []
  | x :: xs => x.widen :: widenItems xs

def widenMembers : List (String × Value) → List (String × Value)
  | [] => []
  | (k, x) :: ms => (k, x.widen) :: widenMembers ms

end

/-- A double as a value; one that is infinite or no number becomes null. -/
def ofFloat (x : Float) : Value := if x.isFinite then number (.float x) else null

end Json.Value

namespace Condition

open Json (Value Members)

/-- Why an expression has no value. -/
inductive EvalError where
  | unknownName (name : String)
  | unknownTransform (name : String)
  | unsupported (o : Operator)
  | notAnArray
  | badIndex
  | repeatedKey (key : String)
  deriving DecidableEq, Repr

/-! ## Operators -/

/-- Numbers closer than this are equal. -/
def tolerance : Float := 0.000001

def onNumbers (o : Operator) (x y : Float) : Except EvalError Value :=
  match o with
  | .plus => .ok (.ofFloat (x + y))
  | .minus => .ok (.ofFloat (x - y))
  | .times => .ok (.ofFloat (x * y))
  | .divide => .ok (.ofFloat (x / y))
  | .floorDiv => .ok (.ofFloat (Decimal.floor (x / y)))
  | .modulus => .ok (.ofFloat (Decimal.remainder x y))
  | .power => .ok (.ofFloat (Decimal.power x y))
  | .less => .ok (.bool (x < y))
  | .greater => .ok (.bool (y < x))
  | .lessEqual => .ok (.bool (x ≤ y))
  | .greaterEqual => .ok (.bool (y ≤ x))
  | .equal => .ok (.bool ((x - y).abs < tolerance))
  -- no number holds another
  | .isIn => .ok (.bool false)
  | .notEqual | .and | .or => .error (.unsupported o)

/-- Operators on two strings; the order is that of the characters. -/
def onStrings (o : Operator) (s t : String) : Except EvalError Value :=
  match o with
  | .plus => .ok (.string (s ++ t))
  | .equal => .ok (.bool (s == t))
  | .isIn => .ok (.bool (Text.occursIn s.toList t.toList))
  | .less => .ok (.bool (s < t))
  | .greater => .ok (.bool (t < s))
  | .lessEqual => .ok (.bool (!decide (t < s)))
  | .greaterEqual => .ok (.bool (!decide (s < t)))
  | _ => .error (.unsupported o)

/-- Equality of values that are not both numbers or both strings. -/
def sameKindEqual : Value → Value → Bool
  | .null, .null => true
  | .bool a, .bool b => a == b
  | .array xs, .array ys => Value.beqItems xs ys
  | .object ms, .object ns => Value.beqMembers ms ns
  | _, _ => false

/-- The value of an operator other than `&&`, `||` and `!=` on two values. -/
def onValues (o : Operator) (x y : Value) : Except EvalError Value :=
  match x, y with
  | .number m, .number n => onNumbers o m.toFloat n.toFloat
  | .string s, .string t => onStrings o s t
  | x, y =>
    match o, y with
    | .isIn, .array items => .ok (.bool (items.any (·.beq x)))
    | .isIn, .object members =>
      match x with
      | .string s => .ok (.bool (Members.contains s members))
      | _ => .error (.unsupported o)
    | .equal, y => .ok (.bool (sameKindEqual x y))
    | o, _ => .error (.unsupported o)

/-- The value of an operator other than `&&` and `||` on two values. -/
def Operator.apply (o : Operator) (x y : Value) : Except EvalError Value :=
  match o with
  | .notEqual => (onValues .equal x y).map fun v ↦ .bool !v.isTruthy
  | o => onValues o x y

/-! ## Transforms -/

/-- The text of an argument, empty when it is absent or no string. -/
def textArgument (arguments : List Value) (i : Nat) : String :=
  ((arguments[i]?).bind Value.string?).getD ""

/-- Whether the first argument holds the second: as an item, as a key or as a part of a text. -/
def containsArgument (arguments : List Value) : Bool :=
  match arguments.head? with
  | some (.array items) =>
    let needle := (arguments[1]?.map Value.widen).getD .null
    items.any fun item ↦ item.widen.beq needle
  | some (.object members) => Members.contains (textArgument arguments 1) members
  | _ => Text.occursIn (textArgument arguments 1).toList (textArgument arguments 0).toList

/-- The number of bytes of a text, of items or of members. -/
def lengthOf : Option Value → Nat
  | some (.string s) => s.utf8ByteSize
  | some (.array items) => items.length
  | some (.object members) => members.length
  | _ => 0

/-- The value of a transform on its subject and its arguments. -/
def applyTransform (function : String) (arguments : List Value) : Except EvalError Value :=
  match function with
  | "not" => .ok (.bool !(arguments.head?.getD .null).isTruthy)
  | "contains" => .ok (.bool (containsArgument arguments))
  | "startsWith" =>
    .ok (.bool ((textArgument arguments 1).toList.isPrefixOf (textArgument arguments 0).toList))
  | "endsWith" =>
    .ok (.bool ((textArgument arguments 1).toList.isSuffixOf (textArgument arguments 0).toList))
  | "length" => .ok (.ofFloat (Float.ofNat (lengthOf arguments.head?)))
  | name => .error (.unknownTransform name)

/-! ## Accesses -/

/-- A member of an object; null when there is none or the subject is no object. -/
def memberOf (subject : Value) (field : String) : Value := (subject.member? field).getD .null

/-- An indexed access: a string reads a member, a number an item of an array. A position that is not
whole is cut to the whole number below it, a negative one to zero. -/
def indexOf (subject position : Value) : Except EvalError Value :=
  match position with
  | .string field => .ok (memberOf subject field)
  | .number n =>
    match subject with
    | .array items => .ok ((items[(Decimal.floor n.toFloat).toUInt64.toNat]?).getD .null)
    | _ => .ok .null
  | _ => .error .badIndex

/-! ## Expressions -/

/-- The variables an expression is evaluated over. -/
abbrev Scope := Members Value

/-- Whether a result counts as true when errors count as false. -/
def holds (result : Except EvalError Value) : Bool :=
  match result with
  | .ok v => v.isTruthy
  | .error _ => false

namespace Expr

mutual

/-- The value of an expression. `&&` and `||` return one of their operands and evaluate the right
one only when it decides; an error on the left of `||` counts as false, as does one in the test of
a conditional. A filter keeps the items whose comparison with the value on its right is true; an
item that cannot be compared is dropped. -/
def eval (scope : Scope) : Expr → Except EvalError Value
  | number x => .ok (.ofFloat x)
  | string s => .ok (.string s)
  | bool b => .ok (.bool b)
  | null => .ok .null
  | name n =>
    match scope.get? n with
    | some v => .ok v
    | none => .error (.unknownName n)
  | array items => (evalItems scope items).map .array
  | object members => (evalMembers scope [] members).map .object
  | binary .or left right =>
    -- one of the operands is the result, and not its truth
    let l := eval scope left
    if holds l then l else eval scope right
  | binary .and left right =>
    let l := eval scope left
    if holds l then eval scope right else l
  | binary o left right => do
    let l ← eval scope left
    let r ← eval scope right
    o.apply l r
  | conditional test yes no => if holds (eval scope test) then eval scope yes else eval scope no
  | transform subject function arguments => do
    let v ← eval scope subject
    let vs ← evalItems scope arguments
    applyTransform function (v :: vs)
  | member subject field => do return memberOf (← eval scope subject) field
  | index subject position => do
    let v ← eval scope subject
    let p ← eval scope position
    indexOf v p
  | filter subject field o right => do
    let v ← eval scope subject
    -- once for all items, so an error of it is an error of the filter
    let r ← eval scope right
    match v with
    | .array items =>
      return .array (items.filter fun item ↦ holds (o.apply (memberOf item field) r))
    | _ => .error .notAnArray

def evalItems (scope : Scope) : List Expr → Except EvalError (List Value)
  | [] => .ok []
  | e :: es => do
    let v ← eval scope e
    return v :: (← evalItems scope es)

/-- The members of an object literal, in order, added to those before; no key may be repeated. -/
def evalMembers (scope : Scope) (done : Members Value) :
    List (String × Expr) → Except EvalError (Members Value)
  | [] => .ok done
  | (k, e) :: ms => do
    let v ← eval scope e
    if done.contains k then .error (.repeatedKey k)
    else evalMembers scope (done.insert k v) ms

end

end Expr

end Condition

end Workflow
