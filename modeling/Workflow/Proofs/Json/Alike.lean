import Mathlib.Data.List.Forall2
import Workflow.Condition.Eval
import Workflow.Proofs.Decimal.Zero

/-!
# Values up to how their numbers are written

A document may say `3` or `3.0`. These are different numbers of documents, but they have the same
double, and after widening they are the same. `Value.UpTo` relates values that are equal but for
their numbers, at any depth. What the numbers have to do with each other is a parameter, because the
relation is used on both sides of widening: before it with any two ways to write a double, after it
with doubles that are alike. `Value.UpTo.widen` leads from the one to the other.
-/

namespace Workflow.Json

theorem eq_none_or_exists_of_rel {α β : Type} {R : α → β → Prop} {a : Option α} {b : Option β}
    (h : Option.Rel R a b) : (a = none ∧ b = none) ∨ ∃ x y, a = some x ∧ b = some y ∧ R x y := by
  cases h with
  | none => exact .inl ⟨rfl, rfl⟩
  | some h => exact .inr ⟨_, _, rfl, rfl, h⟩

/-! ## Members -/

namespace Members

variable {α β : Type} {R : α → β → Prop}

/-- Members with the same names and related values. -/
inductive UpTo (R : α → β → Prop) : Members α → Members β → Prop where
  | nil : UpTo R [] []
  | cons (name : String) {a : α} {b : β} {ms : Members α} {ns : Members β} (h : R a b)
      (hs : UpTo R ms ns) : UpTo R ((name, a) :: ms) ((name, b) :: ns)

namespace UpTo

variable {ms : Members α} {ns : Members β}

theorem get? (h : UpTo R ms ns) (name : String) : Option.Rel R (ms.get? name) (ns.get? name) := by
  induction h with
  | nil => exact .none
  | cons n h _ ih =>
    rw [get?_cons, get?_cons]
    split
    · exact .some h
    · exact ih

theorem contains_eq (h : UpTo R ms ns) (name : String) : ms.contains name = ns.contains name := by
  rw [contains, contains]
  obtain ⟨hms, hns⟩ | ⟨a, b, hms, hns, -⟩ := eq_none_or_exists_of_rel (h.get? name)
  · rw [hms, hns]
    rfl
  · rw [hms, hns]
    rfl

theorem length_eq (h : UpTo R ms ns) : ms.length = ns.length := by
  induction h with
  | nil => rfl
  | cons _ _ _ ih => exact congrArg (· + 1) ih

theorem insert (h : UpTo R ms ns) (name : String) {a : α} {b : β} (hab : R a b) :
    UpTo R (ms.insert name a) (ns.insert name b) := by
  induction h with
  | nil => exact .cons name hab .nil
  | cons n h hs ih =>
    rw [Members.insert, Members.insert]
    split
    · exact .cons name hab (.cons n h hs)
    · split
      · exact .cons name hab hs
      · exact .cons n h ih

end UpTo

end Members

/-! ## Numbers and values -/

/-- Numbers with the same double. The two zeros count as the same. -/
def Number.Alike (m n : Number) : Prop := Decimal.Alike m.toFloat n.toFloat

/-- Doubles that differ in nothing but the sign of a zero. -/
inductive Number.AlikeDoubles : Number → Number → Prop where
  | float {x y : Float} (h : Decimal.Alike x y) : AlikeDoubles (float x) (float y)

theorem Number.AlikeDoubles.alike {m n : Number} (h : AlikeDoubles m n) : m.Alike n := by
  obtain ⟨h⟩ := h
  exact h

namespace Value

/-- Values that are equal but for their numbers, and related numbers in the same places. -/
inductive UpTo (r : Number → Number → Prop) : Value → Value → Prop where
  | null : UpTo r null null
  | bool (b : Bool) : UpTo r (bool b) (bool b)
  | number {m n : Number} (h : r m n) : UpTo r (number m) (number n)
  | string (s : String) : UpTo r (string s) (string s)
  | array {xs ys : List Value} (h : List.Forall₂ (UpTo r) xs ys) : UpTo r (array xs) (array ys)
  | object {ms ns : Members Value} (h : Members.UpTo (UpTo r) ms ns) :
      UpTo r (object ms) (object ns)

/-- Values that are equal but for how their numbers are written. -/
abbrev Alike : Value → Value → Prop := UpTo Number.Alike

/-- Widened values that differ in nothing but the signs of zeros. -/
abbrev AlikeWidened : Value → Value → Prop := UpTo Number.AlikeDoubles

variable {r : Number → Number → Prop} {v w : Value} {xs ys : List Value}

mutual

theorem UpTo.refl (hr : ∀ n, r n n) : (v : Value) → UpTo r v v
  | .null => .null
  | .bool b => .bool b
  | .number n => .number (hr n)
  | .string s => .string s
  | .array xs => .array (UpTo.refl_items hr xs)
  | .object ms => .object (UpTo.refl_members hr ms)

theorem UpTo.refl_items (hr : ∀ n, r n n) : (xs : List Value) → List.Forall₂ (UpTo r) xs xs
  | [] => .nil
  | x :: xs => .cons (UpTo.refl hr x) (UpTo.refl_items hr xs)

theorem UpTo.refl_members (hr : ∀ n, r n n) :
    (ms : List (String × Value)) → Members.UpTo (UpTo r) ms ms
  | [] => .nil
  | (name, x) :: ms => .cons name (UpTo.refl hr x) (UpTo.refl_members hr ms)

end

/-! ## Paths -/

theorem getElem?_upTo (h : List.Forall₂ (UpTo r) xs ys) (i : Nat) :
    Option.Rel (UpTo r) xs[i]? ys[i]? := by
  induction h generalizing i with
  | nil => exact .none
  | cons hx _ ih =>
    cases i with
    | zero => exact .some hx
    | succ i => exact ih i

theorem UpTo.child? (h : UpTo r v w) (segment : String) :
    Option.Rel (UpTo r) (v.child? segment) (w.child? segment) := by
  cases h with
  | array h =>
    rw [Value.child?, Value.child?]
    cases indexOfSegment? segment with
    | none => exact .none
    | some i => exact getElem?_upTo h i
  | object h => exact h.get? segment
  | _ => exact .none

theorem UpTo.isSome_descend (h : UpTo r v w) (path : List String) :
    (v.descend path).isSome = (w.descend path).isSome := by
  induction path generalizing v w with
  | nil => rfl
  | cons segment path ih =>
    rw [descend, descend]
    obtain ⟨hv, hw⟩ | ⟨x, y, hv, hw, hxy⟩ := eq_none_or_exists_of_rel (h.child? segment)
    · rw [hv, hw]
    · rw [hv, hw]
      exact ih hxy

/-! ## Widening -/

mutual

theorem UpTo.widen (hr : ∀ m n, r m n → m.Alike n) : (v : Value) → {w : Value} → UpTo r v w →
    AlikeWidened v.widen w.widen
  | .null, _, .null => .null
  | .bool b, _, .bool _ => .bool b
  | .number _, _, .number h => .number (.float (hr _ _ h))
  | .string s, _, .string _ => .string s
  | .array xs, _, .array h => .array (UpTo.widenItems hr xs h)
  | .object ms, _, .object h => .object (UpTo.widenMembers hr ms h)

theorem UpTo.widenItems (hr : ∀ m n, r m n → m.Alike n) : (xs : List Value) → {ys : List Value} →
    List.Forall₂ (UpTo r) xs ys → List.Forall₂ AlikeWidened (widenItems xs) (widenItems ys)
  | [], _, .nil => .nil
  | x :: xs, _, .cons h hs => .cons (UpTo.widen hr x h) (UpTo.widenItems hr xs hs)

theorem UpTo.widenMembers (hr : ∀ m n, r m n → m.Alike n) :
    (ms : List (String × Value)) → {ns : List (String × Value)} → Members.UpTo (UpTo r) ms ns →
      Members.UpTo AlikeWidened (widenMembers ms) (widenMembers ns)
  | [], _, .nil => .nil
  | (name, x) :: ms, _, .cons _ h hs =>
    .cons name (UpTo.widen hr x h) (UpTo.widenMembers hr ms hs)

end

end Value

end Workflow.Json
