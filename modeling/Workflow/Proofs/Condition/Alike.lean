import Workflow.Condition.Eval
import Workflow.Proofs.Json.Alike

/-!
# Operations on values that are alike

Evaluation works on widened values, and it does not see the sign of a zero. Every operator, every
transform and every access has results that are alike on values that are alike, or fails with the
same error. Only a division by a zero sees the sign, on its own or in a power, and there the
infinities that it could tell apart become null.
-/

namespace Workflow

open Json (Value Members Number)

/-! ## Values -/

namespace Json.Value

variable {r : Number → Number → Prop} {v v' w w' : Value} {xs ys : List Value} {x y : Float}

theorem upTo_bool {a b : Bool} (h : a = b) : UpTo r (bool a) (bool b) := by
  rw [h]
  exact .bool b

theorem alikeWidened_ofFloat (h : Decimal.AlikeIfFinite x y) :
    AlikeWidened (ofFloat x) (ofFloat y) := by
  rcases h with halike | ⟨hx, hy⟩
  · rw [ofFloat, ofFloat, Decimal.isFinite_congr halike]
    split
    · exact .number (.float halike)
    · exact .null
  · rw [ofFloat, ofFloat, hx, hy]
    exact .null

theorem AlikeWidened.isTruthy_eq (h : AlikeWidened v w) : v.isTruthy = w.isTruthy := by
  cases h with
  | number h => exact congrArg not (Decimal.beq_congr h.alike (.refl 0.0))
  | _ => rfl

theorem AlikeWidened.widen (h : AlikeWidened v w) : AlikeWidened v.widen w.widen :=
  UpTo.widen (fun _ _ h ↦ h.alike) v h

theorem UpTo.string?_eq (h : UpTo r v w) : v.string? = w.string? := by
  cases h <;> rfl

theorem UpTo.member? (h : UpTo r v w) (name : String) :
    Option.Rel (UpTo r) (v.member? name) (w.member? name) := by
  cases h with
  | object h => exact h.get? name
  | _ => exact .none

theorem upTo_getD_null {a b : Option Value} (h : Option.Rel (UpTo r) a b) :
    UpTo r (a.getD null) (b.getD null) := by
  cases h with
  | none => exact .null
  | some h => exact h

mutual

theorem AlikeWidened.beq_eq : (v : Value) → {v' w w' : Value} → AlikeWidened v v' →
    AlikeWidened w w' → v.beq w = v'.beq w'
  | .null, _, _, _, .null, hw => by cases hw <;> rfl
  | .bool _, _, _, _, .bool _, hw => by cases hw <;> rfl
  | .number _, _, _, _, .number (.float h), hw => by
    cases hw with
    | number h' =>
      obtain ⟨h'⟩ := h'
      exact Decimal.beq_congr h h'
    | _ => rfl
  | .string _, _, _, _, .string _, hw => by cases hw <;> rfl
  | .array xs, _, _, _, .array h, hw => by
    cases hw with
    | array h' => exact AlikeWidened.beqItems_eq xs h h'
    | _ => rfl
  | .object ms, _, _, _, .object h, hw => by
    cases hw with
    | object h' => exact AlikeWidened.beqMembers_eq ms h h'
    | _ => rfl

theorem AlikeWidened.beqItems_eq : (xs : List Value) → {xs' ys ys' : List Value} →
    List.Forall₂ AlikeWidened xs xs' → List.Forall₂ AlikeWidened ys ys' →
      beqItems xs ys = beqItems xs' ys'
  | [], _, _, _, .nil, hy => by cases hy <;> rfl
  | x :: xs, _, _, _, .cons h hs, hy => by
    cases hy with
    | nil => rfl
    | cons h' hs' =>
      rw [beqItems, beqItems, AlikeWidened.beq_eq x h h', AlikeWidened.beqItems_eq xs hs hs']

theorem AlikeWidened.beqMembers_eq :
    (ms : List (String × Value)) → {ms' ns ns' : List (String × Value)} →
      Members.UpTo AlikeWidened ms ms' → Members.UpTo AlikeWidened ns ns' →
        beqMembers ms ns = beqMembers ms' ns'
  | [], _, _, _, .nil, hn => by cases hn <;> rfl
  | (_, x) :: ms, _, _, _, .cons _ h hs, hn => by
    cases hn with
    | nil => rfl
    | cons _ h' hs' =>
      rw [beqMembers, beqMembers, AlikeWidened.beq_eq x h h',
        AlikeWidened.beqMembers_eq ms hs hs']

end

end Json.Value

namespace Condition

open Json.Value (AlikeWidened)

variable {v v' w w' : Value} {xs ys : List Value}

/-! ## Results -/

/-- Related results, or the same error. -/
inductive ResultsAlike {α : Type} (R : α → α → Prop) :
    Except EvalError α → Except EvalError α → Prop where
  | ok {a b : α} (h : R a b) : ResultsAlike R (.ok a) (.ok b)
  | error (e : EvalError) : ResultsAlike R (.error e) (.error e)

namespace ResultsAlike

variable {α β : Type} {R : α → α → Prop} {S : β → β → Prop} {x y : Except EvalError α}

theorem bind {f g : α → Except EvalError β} (h : ResultsAlike R x y)
    (hfg : ∀ a b, R a b → ResultsAlike S (f a) (g b)) : ResultsAlike S (x >>= f) (y >>= g) := by
  cases h with
  | ok h => exact hfg _ _ h
  | error e => exact .error e

theorem map {f g : α → β} (h : ResultsAlike R x y) (hfg : ∀ a b, R a b → S (f a) (g b)) :
    ResultsAlike S (x.map f) (y.map g) := by
  cases h with
  | ok h => exact .ok (hfg _ _ h)
  | error e => exact .error e

theorem holds_eq {x y : Except EvalError Value} (h : ResultsAlike AlikeWidened x y) :
    holds x = holds y := by
  cases h with
  | ok h => exact h.isTruthy_eq
  | error e => rfl

theorem ite_holds {test test' : Except EvalError Value} {x' y' : Except EvalError α}
    (htest : ResultsAlike AlikeWidened test test') (hx : ResultsAlike R x x')
    (hy : ResultsAlike R y y') :
    ResultsAlike R (if holds test then x else y) (if holds test' then x' else y') := by
  rw [htest.holds_eq]
  split
  · exact hx
  · exact hy

end ResultsAlike

/-! ## Operators -/

theorem onNumbers_alike (o : Operator) {x x' y y' : Float} (hx : Decimal.Alike x x')
    (hy : Decimal.Alike y y') :
    ResultsAlike AlikeWidened (onNumbers o x y) (onNumbers o x' y') := by
  have hcompare {p q : Prop} [Decidable p] [Decidable q] (h : p ↔ q) :
      ResultsAlike AlikeWidened (.ok (.bool (decide p))) (.ok (.bool (decide q))) :=
    .ok (Value.upTo_bool (decide_eq_decide.2 h))
  cases o with
  | plus => exact .ok (Value.alikeWidened_ofFloat (.inl (hx.add hy)))
  | minus => exact .ok (Value.alikeWidened_ofFloat (.inl (hx.sub hy)))
  | times => exact .ok (Value.alikeWidened_ofFloat (.inl (hx.mul hy)))
  | divide => exact .ok (Value.alikeWidened_ofFloat (hx.div hy))
  | floorDiv => exact .ok (Value.alikeWidened_ofFloat (hx.div hy).floor)
  | modulus => exact .ok (Value.alikeWidened_ofFloat (.inl (hx.remainder hy)))
  | power => exact .ok (Value.alikeWidened_ofFloat (hx.power hy))
  | less => exact hcompare (Decimal.lt_congr hx hy)
  | greater => exact hcompare (Decimal.lt_congr hy hx)
  | lessEqual => exact hcompare (Decimal.le_congr hx hy)
  | greaterEqual => exact hcompare (Decimal.le_congr hy hx)
  | equal => exact hcompare (Decimal.lt_congr (hx.sub hy).abs (.refl tolerance))
  | isIn => exact .ok (.bool false)
  | notEqual | and | or => exact .error _

theorem onStrings_alike (o : Operator) (s t : String) :
    ResultsAlike AlikeWidened (onStrings o s t) (onStrings o s t) := by
  cases o with
  | plus => exact .ok (.string _)
  | equal | isIn | less | greater | lessEqual | greaterEqual => exact .ok (.bool _)
  | _ => exact .error _

/-- Equality has a tolerance on two numbers, and is that of the data model on all else. -/
theorem onValues_equal (h : ∀ m, v ≠ .number m) :
    onValues .equal v w = .ok (.bool (v.beq w)) := by
  cases v with
  | number m => exact absurd rfl (h m)
  | _ => cases w <;> rfl

theorem onValues_equal_alike (hv : AlikeWidened v v') (hw : AlikeWidened w w') :
    ResultsAlike AlikeWidened (onValues .equal v w) (onValues .equal v' w') := by
  have hbeq : (∀ m, v ≠ .number m) → (∀ m, v' ≠ .number m) →
      ResultsAlike AlikeWidened (onValues .equal v w) (onValues .equal v' w') := by
    intro hn hn'
    rw [onValues_equal hn, onValues_equal hn', AlikeWidened.beq_eq v hv hw]
    exact .ok (.bool _)
  cases hv with
  | number h =>
    cases hw with
    | number h' => exact onNumbers_alike .equal h.alike h'.alike
    | _ => exact .ok (.bool false)
  | _ => exact hbeq nofun nofun

theorem any_eq_any {f g : Value → Bool} (h : List.Forall₂ AlikeWidened xs ys)
    (hfg : ∀ x y, AlikeWidened x y → f x = g y) : xs.any f = ys.any g := by
  induction h with
  | nil => rfl
  | cons hx _ ih => rw [List.any_cons, List.any_cons, hfg _ _ hx, ih]

theorem onValues_isIn_array (items : List Value) :
    onValues .isIn v (.array items) = .ok (.bool (items.any (·.beq v))) := by
  cases v <;> rfl

theorem onValues_isIn_alike (hv : AlikeWidened v v') (hw : AlikeWidened w w') :
    ResultsAlike AlikeWidened (onValues .isIn v w) (onValues .isIn v' w') := by
  cases hw with
  | array h =>
    rw [onValues_isIn_array, onValues_isIn_array]
    exact .ok (Value.upTo_bool (any_eq_any h fun x _ hx ↦ AlikeWidened.beq_eq x hx hv))
  | object h =>
    cases hv with
    | string s => exact .ok (Value.upTo_bool (h.contains_eq s))
    | _ => exact .error _
  | number _ =>
    cases hv with
    | number _ => exact .ok (.bool false)
    | _ => exact .error _
  | string t =>
    cases hv with
    | string s => exact .ok (.bool _)
    | _ => exact .error _
  | _ => cases hv <;> exact .error _

theorem onValues_alike (o : Operator) (hv : AlikeWidened v v') (hw : AlikeWidened w w') :
    ResultsAlike AlikeWidened (onValues o v w) (onValues o v' w') := by
  have hnumbers {m m' n n' : Number} (hm : m.AlikeDoubles m') (hn : n.AlikeDoubles n') :
      ResultsAlike AlikeWidened (onValues o (.number m) (.number n))
        (onValues o (.number m') (.number n')) := onNumbers_alike o hm.alike hn.alike
  have hstrings (s t : String) : ResultsAlike AlikeWidened (onValues o (.string s) (.string t))
      (onValues o (.string s) (.string t)) := onStrings_alike o s t
  cases o with
  | equal => exact onValues_equal_alike hv hw
  | isIn => exact onValues_isIn_alike hv hw
  | _ =>
    -- no other operator takes two values of different kinds, or of a kind not named here
    cases hv with
    | number h =>
      cases hw with
      | number h' => exact hnumbers h h'
      | _ => exact .error _
    | string s =>
      cases hw with
      | string t => exact hstrings s t
      | _ => exact .error _
    | _ => exact .error _

theorem Operator.apply_alike (o : Operator) (hv : AlikeWidened v v') (hw : AlikeWidened w w') :
    ResultsAlike AlikeWidened (o.apply v w) (o.apply v' w') := by
  cases o with
  | notEqual =>
    exact (onValues_equal_alike hv hw).map fun _ _ h ↦
      Value.upTo_bool (congrArg not h.isTruthy_eq)
  | _ => exact onValues_alike _ hv hw

/-! ## Transforms -/

theorem textArgument_eq (h : List.Forall₂ AlikeWidened xs ys) (i : Nat) :
    textArgument xs i = textArgument ys i := by
  rw [textArgument, textArgument]
  obtain ⟨hx, hy⟩ | ⟨x, y, hx, hy, hxy⟩ :=
    Json.eq_none_or_exists_of_rel (Value.getElem?_upTo h i)
  · rw [hx, hy]
  · rw [hx, hy, Option.bind_some, Option.bind_some, hxy.string?_eq]

theorem containsArgument_eq (h : List.Forall₂ AlikeWidened xs ys) :
    containsArgument xs = containsArgument ys := by
  have hneedle : AlikeWidened ((xs[1]?.map Value.widen).getD .null)
      ((ys[1]?.map Value.widen).getD .null) := by
    obtain ⟨hx, hy⟩ | ⟨x, y, hx, hy, hxy⟩ :=
      Json.eq_none_or_exists_of_rel (Value.getElem?_upTo h 1)
    · rw [hx, hy]
      exact .null
    · rw [hx, hy]
      exact AlikeWidened.widen hxy
  have htext : Text.occursIn (textArgument xs 1).toList (textArgument xs 0).toList =
      Text.occursIn (textArgument ys 1).toList (textArgument ys 0).toList := by
    rw [textArgument_eq h 0, textArgument_eq h 1]
  cases h with
  | nil => rfl
  | cons hx hs =>
    cases hx with
    | array hitems =>
      refine any_eq_any hitems fun x _ hx ↦ ?_
      exact AlikeWidened.beq_eq x.widen (AlikeWidened.widen hx) hneedle
    | object hmembers =>
      have hkey := textArgument_eq (.cons (.object hmembers) hs) 1
      exact (hmembers.contains_eq _).trans (congrArg (Members.contains · _) hkey)
    | _ => exact htext

theorem lengthOf_eq {a b : Option Value} (h : Option.Rel AlikeWidened a b) :
    lengthOf a = lengthOf b := by
  cases h with
  | none => rfl
  | some h =>
    cases h with
    | array h => exact h.length_eq
    | object h => exact h.length_eq
    | _ => rfl

theorem applyTransform_eq (h : List.Forall₂ AlikeWidened xs ys) (function : String) :
    applyTransform function xs = applyTransform function ys := by
  have hhead : Option.Rel AlikeWidened xs.head? ys.head? := by
    cases h with
    | nil => exact .none
    | cons h _ => exact .some h
  unfold applyTransform
  rw [containsArgument_eq h, textArgument_eq h 0,
    textArgument_eq h 1, lengthOf_eq hhead, AlikeWidened.isTruthy_eq (Value.upTo_getD_null hhead)]

theorem applyTransform_alike (h : List.Forall₂ AlikeWidened xs ys) (function : String) :
    ResultsAlike AlikeWidened (applyTransform function xs) (applyTransform function ys) := by
  rw [applyTransform_eq h]
  unfold applyTransform
  split
  · exact .ok (.bool _)
  · exact .ok (.bool _)
  · exact .ok (.bool _)
  · exact .ok (.bool _)
  · exact .ok (Value.alikeWidened_ofFloat (.inl (.refl _)))
  · exact .error _

/-! ## Accesses -/

theorem memberOf_alike (h : AlikeWidened v w) (field : String) :
    AlikeWidened (memberOf v field) (memberOf w field) := Value.upTo_getD_null (h.member? field)

theorem indexOf_alike (hv : AlikeWidened v v') (hw : AlikeWidened w w') :
    ResultsAlike AlikeWidened (indexOf v w) (indexOf v' w') := by
  cases hw with
  | string field => exact .ok (memberOf_alike hv field)
  | number h =>
    have hposition := Decimal.toUInt64_congr (Decimal.Alike.floor h.alike)
    cases hv with
    | array hitems =>
      rw [indexOf, indexOf, hposition]
      exact .ok (Value.upTo_getD_null (Value.getElem?_upTo hitems _))
    | _ => exact .ok .null
  | _ => exact .error _

end Condition

end Workflow
