import Workflow.Proofs.Condition.Agreement
import Workflow.Proofs.Condition.Lookup
import Workflow.Proofs.Text.Occurrence

/-!
# What a value holds

A condition asks in two ways whether one value is in another, by the operator `in` and by the
transform `contains`. What both are about is `Value.Includes`: an item of a list, a key of an object
or a part of a text. The operator says yes to just that. The transform takes whatever is no text for
the empty text, which is a part of every text and may be a key, so that it also says yes to the
pairs that are `misjudged`. On these pairs the two differ, and nowhere else.

Evaluation works on widened values, and over widened variables it never leaves them. That is why the
operator, which compares the items of a list as they are, sees no more of a number than its double.
-/

namespace Workflow

open Json (Value Members)

/-! ## Widened values -/

namespace Json.Value

/-- Whether one value holds another one: as an item, up to how numbers are written, as a key, or as
a part of a text. -/
inductive Includes : Value → Value → Prop where
  | item {xs : List Value} {x v : Value} (hx : x ∈ xs) (h : x.widen.beq v.widen = true) :
      Includes (array xs) v
  | key {ms : Members Value} {s : String} (h : ms.contains s = true) :
      Includes (object ms) (string s)
  | part {s t : String} (h : s.toList <:+: t.toList) : Includes (string t) (string s)

variable {v x : Value} {xs : List Value} {ms : Members Value} {s t : String}

theorem includes_array_iff :
    (array xs).Includes v ↔ ∃ x ∈ xs, x.widen.beq v.widen = true :=
  ⟨fun (.item hx h) ↦ ⟨_, hx, h⟩, fun ⟨_, hx, h⟩ ↦ .item hx h⟩

theorem includes_object_iff : (object ms).Includes (string s) ↔ ms.contains s = true :=
  ⟨fun (.key h) ↦ h, .key⟩

theorem includes_string_iff : (string t).Includes (string s) ↔ s.toList <:+: t.toList :=
  ⟨fun (.part h) ↦ h, .part⟩

mutual

theorem AlikeWidened.widen_eq : (v : Value) → {w : Value} → AlikeWidened v w → v.widen = v
  | .null, _, .null => rfl
  | .bool _, _, .bool _ => rfl
  | .number _, _, .number (.float _) => rfl
  | .string _, _, .string _ => rfl
  | .array xs, _, .array h => congrArg array (AlikeWidened.widenItems_eq xs h)
  | .object ms, _, .object h => congrArg object (AlikeWidened.widenMembers_eq ms h)

theorem AlikeWidened.widenItems_eq : (xs : List Value) → {ys : List Value} →
    List.Forall₂ AlikeWidened xs ys → widenItems xs = xs
  | [], _, .nil => rfl
  | x :: xs, _, .cons h hs =>
    congrArg₂ List.cons (AlikeWidened.widen_eq x h) (AlikeWidened.widenItems_eq xs hs)

theorem AlikeWidened.widenMembers_eq : (ms : List (String × Value)) →
    {ns : List (String × Value)} → Members.UpTo AlikeWidened ms ns → widenMembers ms = ms
  | [], _, .nil => rfl
  | (_, x) :: ms, _, .cons _ h hs => by
    rw [widenMembers, AlikeWidened.widen_eq x h, AlikeWidened.widenMembers_eq ms hs]

end

theorem widen_eq_of_mem (h : (array xs).widen = array xs) (hx : x ∈ xs) : x.widen = x := by
  rw [widen, widenItems_eq_map, array.injEq] at h
  exact List.map_inj_left.1 (h.trans (List.map_id xs).symm) x hx

end Json.Value

namespace Condition

open Json.Value (AlikeWidened)

namespace Expr

/-- The value of an expression over the variables of a condition. -/
def evalOver (vars : Members Value) (e : Expr) : Except EvalError Value :=
  e.eval (vars.mapValues Value.widen)

variable {e subject argument : Expr} {arguments : List Expr} {vars : Members Value} {v : Value}

/-- Evaluation over widened variables never leaves the widened values. -/
theorem widen_eq_of_evalOver (h : e.evalOver vars = .ok v) : v.widen = v := by
  have halike : ResultsAlike AlikeWidened (e.evalOver vars) (e.evalOver vars) := by
    refine eval_alike fun n _ ↦ get?_mapValues_widen_alike ?_
    cases vars.get? n with
    | none => exact .none
    | some v => exact .some (Value.UpTo.refl (fun _ ↦ .refl _) v)
  rw [h] at halike
  obtain ⟨hv⟩ := halike
  exact Value.AlikeWidened.widen_eq v hv

theorem evalOver_isIn : (binary .isIn argument subject).evalOver vars =
    argument.evalOver vars >>= fun v ↦ subject.evalOver vars >>= fun x ↦ Operator.isIn.apply v x :=
  rfl

theorem evalOver_contains : (transform subject "contains" arguments).evalOver vars =
    subject.evalOver vars >>= fun x ↦ evalItems (vars.mapValues Value.widen) arguments >>= fun vs ↦
      .ok (.bool (containsArgument (x :: vs))) :=
  rfl

end Expr

variable {x v : Value}

/-- The pairs that `contains` says yes to although the first value does not hold the second. A
second value that is no text is taken for the empty text, and so is a first one that is neither a
text nor a list nor an object. -/
def misjudged : Value → Value → Bool
  | .array _, _ => false
  | .object _, .string _ => false
  | .object ms, _ => Members.contains "" ms
  | .string _, .string _ => false
  | .string _, _ => true
  | _, .string s => s == ""
  | _, _ => true

theorem holds_isIn_iff (hx : x.widen = x) (hv : v.widen = v) :
    holds (Operator.isIn.apply v x) = true ↔ x.Includes v := by
  cases x with
  | array xs =>
    have hvalue : Operator.isIn.apply v (.array xs) = .ok (.bool (xs.any (·.beq v))) := by
      cases v <;> rfl
    rw [hvalue]
    change xs.any (·.beq v) = true ↔ _
    rw [List.any_eq_true, Value.includes_array_iff]
    refine exists_congr fun x ↦ and_congr_right fun hmem ↦ ?_
    rw [Value.widen_eq_of_mem hx hmem, hv]
  | object ms =>
    cases v with
    | string s => exact Value.includes_object_iff.symm
    | _ => exact iff_of_false Bool.false_ne_true nofun
  | string t =>
    cases v with
    | string s => exact Text.occursIn_iff.trans Value.includes_string_iff.symm
    | _ => exact iff_of_false Bool.false_ne_true nofun
  | _ => cases v <;> exact iff_of_false Bool.false_ne_true nofun

theorem containsArgument_iff :
    containsArgument [x, v] = true ↔ x.Includes v ∨ misjudged x v = true := by
  cases x with
  | array xs =>
    change xs.any (fun item ↦ item.widen.beq v.widen) = true ↔ _
    rw [List.any_eq_true, Value.includes_array_iff]
    exact (or_iff_left Bool.false_ne_true).symm
  | object ms =>
    cases v with
    | string s =>
      rw [Value.includes_object_iff]
      exact (or_iff_left Bool.false_ne_true).symm
    | _ => exact (or_iff_right nofun).symm
  | string t =>
    cases v with
    | string s =>
      rw [Value.includes_string_iff, ← Text.occursIn_iff]
      exact (or_iff_left Bool.false_ne_true).symm
    | _ => exact iff_of_true (Text.occursIn_iff.2 List.nil_infix) (.inr rfl)
  | _ =>
    -- a part of the empty text is empty itself
    cases v with
    | string s =>
      refine (Text.occursIn_iff.trans (List.infix_nil.trans ?_)).trans (or_iff_right nofun).symm
      exact String.toList_eq_nil_iff.trans beq_iff_eq.symm
    | _ => exact iff_of_true rfl (.inr rfl)

theorem misjudged_of_includes (h : x.Includes v) : misjudged x v = false := by
  cases h <;> rfl

theorem containsArgument_eq_holds_isIn_iff (hx : x.widen = x) (hv : v.widen = v) :
    containsArgument [x, v] = holds (Operator.isIn.apply v x) ↔ misjudged x v = false := by
  rw [Bool.eq_iff_iff, containsArgument_iff, holds_isIn_iff hx hv, or_iff_left_iff_imp]
  constructor
  · intro h
    cases hmis : misjudged x v with
    | false => rfl
    | true => exact hmis.symm.trans (misjudged_of_includes (h hmis))
  · intro h hmis
    cases h.symm.trans hmis

/-- A missing argument counts as null. -/
theorem containsArgument_singleton (x : Value) :
    containsArgument [x] = containsArgument [x, .null] :=
  rfl

/-! ## Both ways to ask -/

section Expressions

variable {vars : Members Value} {subject argument : Expr}

theorem holds_evalOver_isIn (hx : subject.evalOver vars = .ok x)
    (hv : argument.evalOver vars = .ok v) :
    holds ((Expr.binary .isIn argument subject).evalOver vars) =
      holds (Operator.isIn.apply v x) := by
  rw [Expr.evalOver_isIn, hx, hv]
  rfl

theorem holds_evalOver_contains (hx : subject.evalOver vars = .ok x)
    (hv : argument.evalOver vars = .ok v) :
    holds ((Expr.transform subject "contains" [argument]).evalOver vars) =
      containsArgument [x, v] := by
  have hvs : Expr.evalItems (vars.mapValues Value.widen) [argument] = .ok [v] := by
    rw [Expr.evalItems, ← Expr.evalOver, hv]
    rfl
  rw [Expr.evalOver_contains, hx, hvs]
  rfl

/-- What fails on either side makes both questions false. -/
theorem holds_evalOver_of_error
    (h : ∀ x v, subject.evalOver vars = .ok x → argument.evalOver vars ≠ .ok v) :
    holds ((Expr.binary .isIn argument subject).evalOver vars) = false ∧
      holds ((Expr.transform subject "contains" [argument]).evalOver vars) = false := by
  rw [Expr.evalOver_isIn, Expr.evalOver_contains, Expr.evalItems, ← Expr.evalOver]
  cases hx : subject.evalOver vars with
  | error e => cases argument.evalOver vars <;> exact ⟨rfl, rfl⟩
  | ok x =>
    cases hv : argument.evalOver vars with
    | error e => exact ⟨rfl, rfl⟩
    | ok v => exact absurd hv (h x v hx)

/-- **Membership.** The transform and the operator agree on just the values that are not misjudged,
and wherever one of the two expressions has no value. The operator says yes to what is held, and the
transform to this and to what it misjudges; a missing argument of it counts as null. -/
theorem holds_contains_eq_holds_isIn_iff :
    (holds ((Expr.transform subject "contains" [argument]).evalOver vars) =
        holds ((Expr.binary .isIn argument subject).evalOver vars) ↔
      ∀ x v, subject.evalOver vars = .ok x → argument.evalOver vars = .ok v →
        misjudged x v = false) ∧
    ∀ x, subject.evalOver vars = .ok x →
      (∀ v, argument.evalOver vars = .ok v →
        (holds ((Expr.binary .isIn argument subject).evalOver vars) = true ↔ x.Includes v) ∧
        (holds ((Expr.transform subject "contains" [argument]).evalOver vars) = true ↔
          x.Includes v ∨ misjudged x v = true)) ∧
      (holds ((Expr.transform subject "contains" []).evalOver vars) = true ↔
        x.Includes .null ∨ misjudged x .null = true) := by
  refine ⟨?_, fun x hx ↦ ⟨fun v hv ↦ ?_, ?_⟩⟩
  · by_cases hvalues : ∃ x v, subject.evalOver vars = .ok x ∧ argument.evalOver vars = .ok v
    · obtain ⟨x, v, hx, hv⟩ := hvalues
      rw [holds_evalOver_contains hx hv, holds_evalOver_isIn hx hv,
        containsArgument_eq_holds_isIn_iff (Expr.widen_eq_of_evalOver hx)
          (Expr.widen_eq_of_evalOver hv)]
      constructor
      · intro h x' v' hx' hv'
        cases hx.symm.trans hx'
        cases hv.symm.trans hv'
        exact h
      · exact fun h ↦ h x v hx hv
    · have hnone : ∀ x v, subject.evalOver vars = .ok x → argument.evalOver vars ≠ .ok v :=
        fun x v hx hv ↦ hvalues ⟨x, v, hx, hv⟩
      obtain ⟨hin, hcontains⟩ := holds_evalOver_of_error hnone
      exact iff_of_true (hcontains.trans hin.symm) fun x v hx hv ↦ absurd hv (hnone x v hx)
  · rw [holds_evalOver_isIn hx hv, holds_evalOver_contains hx hv]
    exact ⟨holds_isIn_iff (Expr.widen_eq_of_evalOver hx) (Expr.widen_eq_of_evalOver hv),
      containsArgument_iff⟩
  · rw [Expr.evalOver_contains, hx]
    change containsArgument [x] = true ↔ _
    rw [containsArgument_singleton]
    exact containsArgument_iff

end Expressions

/-! ## An agenda -/

/-- A count, a list of limits, an object with an empty key, and a title. -/
def agenda : Members Value :=
  [("count", .number (.int 3)), ("limits", .array [.number (.float 3.0), .string "none"]),
    ("roles", .object [("", .null)]), ("title", .string "Minutes")]

/-- The count is one of the limits, though it is written in another way there, both ways to ask. -/
theorem holds_contains_limits :
    (Expr.name "limits").evalOver agenda = .ok (.array [.number (.float 3.0), .string "none"]) ∧
    (Expr.name "count").evalOver agenda = .ok (.number (.float 3.0)) ∧
    holds ((Expr.binary .isIn (.name "count") (.name "limits")).evalOver agenda) = true ∧
    holds ((Expr.transform (.name "limits") "contains" [.name "count"]).evalOver agenda) =
      true := by
  have hlimits : (Expr.name "limits").evalOver agenda =
      .ok (.array [.number (.float 3.0), .string "none"]) := by decide +kernel
  have hcount : (Expr.name "count").evalOver agenda = .ok (.number (.float 3.0)) := by
    decide +kernel
  have hin : holds ((Expr.binary .isIn (.name "count") (.name "limits")).evalOver agenda) = true :=
    ((holds_contains_eq_holds_isIn_iff.2 _ hlimits).1 _ hcount).1.2
      (.item List.mem_cons_self (by decide +kernel))
  have hboth :
      holds ((Expr.transform (.name "limits") "contains" [.name "count"]).evalOver agenda) =
        holds ((Expr.binary .isIn (.name "count") (.name "limits")).evalOver agenda) := by
    refine holds_contains_eq_holds_isIn_iff.1.2 fun x v hx _ ↦ ?_
    cases hlimits.symm.trans hx
    rfl
  exact ⟨hlimits, hcount, hin, hboth.trans hin⟩

/-- A number is in no text, in no number and is no key of an object, but `contains` says that it is;
and without an argument it says that a text has it. -/
theorem contains_misjudges :
    (evaluate "title|contains(count)" agenda = true ∧ evaluate "count in title" agenda = false) ∧
    (evaluate "count|contains(count)" agenda = true ∧ evaluate "count in count" agenda = false) ∧
    (evaluate "roles|contains(count)" agenda = true ∧ evaluate "count in roles" agenda = false) ∧
    evaluate "title|contains" agenda = true :=
  ⟨⟨by decide +kernel, by decide +kernel⟩, ⟨by decide +kernel, by decide +kernel⟩,
    ⟨by decide +kernel, by decide +kernel⟩, by decide +kernel⟩

end Condition

end Workflow
