import Mathlib.Logic.Relation
import Workflow.Condition.Expr

/-!
# Expressions inside expressions

`Expr.parts` are the expressions that an expression is put together from, and `Expr.Within` is what
stands anywhere inside it. An expression is nested through lists of items and of members, so what is
proved of all expressions is proved by `Expr.induction_parts`, from the parts to the whole.
-/

namespace Workflow.Condition.Expr

def parts : Expr → List Expr
  | member subject _ => [subject]
  | index subject position => [subject, position]
  | binary _ left right => [left, right]
  | conditional test yes no => [test, yes, no]
  | transform subject _ arguments => subject :: arguments
  | filter subject _ _ right => [subject, right]
  | array items => items
  | object members => members.map (·.2)
  | number _ | string _ | bool _ | null | name _ => []

theorem sizeOf_lt_of_mem_parts {e p : Expr} (h : p ∈ e.parts) : sizeOf p < sizeOf e := by
  cases e with
  | array items =>
    have hitem : sizeOf p < sizeOf items := List.sizeOf_lt_of_mem h
    rw [array.sizeOf_spec]
    omega
  | object members =>
    obtain ⟨⟨k, v⟩, hm, rfl⟩ := List.mem_map.1 h
    have hmember := List.sizeOf_lt_of_mem hm
    rw [Prod.mk.sizeOf_spec] at hmember
    rw [object.sizeOf_spec]
    dsimp only
    omega
  | transform subject function arguments =>
    rw [transform.sizeOf_spec]
    rcases List.mem_cons.1 h with rfl | harg
    · omega
    · have hargument := List.sizeOf_lt_of_mem harg
      omega
  | number _ | string _ | bool _ | null | name _ => cases h
  | _ =>
    simp only [parts, List.mem_cons, List.not_mem_nil, or_false] at h
    rcases h with rfl | rfl | rfl <;> simp <;> omega

/-- What holds of an expression whenever it holds of its parts holds of every expression. -/
theorem induction_parts {motive : Expr → Prop}
    (whole : ∀ e, (∀ p ∈ e.parts, motive p) → motive e) (e : Expr) : motive e :=
  whole e fun p _ ↦ induction_parts whole p
termination_by sizeOf e
decreasing_by exact sizeOf_lt_of_mem_parts ‹_›

def Within (s e : Expr) : Prop := Relation.ReflTransGen (fun e p : Expr ↦ p ∈ e.parts) e s

end Workflow.Condition.Expr
