import Workflow.Json.Value
import Workflow.Text.Split

/-!
# Paths into values

A path is a list of segments. A segment names a member of an object or, written as a decimal
number, indexes an array; anything else leads nowhere. `descend_append` says that a path can be
walked in two parts.
-/

namespace Workflow.Json

/-- Reads an array index: decimal digits, with one plus sign allowed in front. -/
def indexOfSegment? (segment : String) : Option Nat :=
  let digits :=
    match segment.toList with
    | '+' :: rest => rest
    | all => all
  if digits.isEmpty || !digits.all Char.isDigit then none
  else
    let n := digits.foldl (fun acc c ↦ 10 * acc + (c.toNat - '0'.toNat)) 0
    if n < Bits.count 64 then some n else none

namespace Value

/-- One step of a path. -/
def child? (segment : String) : Value → Option Value
  | object ms => Members.get? segment ms
  | array xs => (indexOfSegment? segment).bind (xs[·]?)
  | _ => none

/-- Walks a path from a value. -/
def descend (v : Value) : List String → Option Value
  | [] => some v
  | s :: path => (v.child? s).bind fun w ↦ w.descend path

theorem descend_append (v : Value) (p q : List String) :
    v.descend (p ++ q) = (v.descend p).bind fun w ↦ w.descend q := by
  induction p generalizing v with
  | nil => rfl
  | cons s p ih =>
    simp only [List.cons_append, descend]
    cases v.child? s with
    | none => rfl
    | some w => simpa using ih w

/-- Looks a dotted path up inside one value. -/
def lookupPath (v : Value) (path : String) : Option Value := v.descend (Text.segments path)

end Value

end Workflow.Json
