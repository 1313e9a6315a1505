import Workflow.Context
import Workflow.Proofs.Condition.Path

/-!
# Conditions and look-up

A template looks a path up as a whole first: a variable with the dots in its name comes before what
descent finds. A condition only ever descends. `evaluate_path` says when the two see the same data,
and what a condition sees otherwise.

A condition is evaluated over widened values, and widening changes no truth.
-/

namespace Workflow

open Json (Value Members)

/-! ## Two ways to look a path up -/

namespace Context

/-- What a path leads to from the variable with its first name. -/
def descend? (c : Context) (path : String) : Option Value :=
  match Text.segments path with
  | [] => none
  | root :: rest => (c.vars.get? root).bind (·.descend rest)

theorem get?_eq_or (c : Context) (path : String) :
    c.get? path = (c.vars.get? path).or (c.descend? path) := by
  rw [get?]
  cases c.vars.get? path with
  | none => rfl
  | some v => rfl

theorem descend?_of_segments {c : Context} {path : String} (h : Text.segments path = [path]) :
    c.descend? path = c.vars.get? path := by
  rw [descend?, h]
  change (c.vars.get? path).bind (·.descend []) = c.vars.get? path
  cases c.vars.get? path with
  | none => rfl
  | some v => rfl

end Context

namespace Json

theorem indexOfSegment?_eq_none {name : String} (h : Condition.Token.IsName name) :
    indexOfSegment? name = none := by
  obtain ⟨c, cs, hname, hstart, -⟩ := h.chars
  have hdigit := Condition.Token.isDigit_of_isNameStart hstart
  have hplus : c ≠ '+' := by
    rintro rfl
    revert hstart
    decide
  unfold indexOfSegment?
  rw [hname]
  simp [hplus, hdigit]

namespace Value

theorem widenMembers_eq_mapValues (ms : Members Value) : widenMembers ms = ms.mapValues widen := by
  induction ms with
  | nil => rfl
  | cons m ms ih =>
    rw [widenMembers, ih]
    rfl

theorem widenItems_eq_map (xs : List Value) : widenItems xs = xs.map widen := by
  induction xs with
  | nil => rfl
  | cons x xs ih => rw [widenItems, ih, List.map_cons]

theorem isTruthy_widen (v : Value) : v.widen.isTruthy = v.isTruthy := by
  cases v <;> rfl

theorem child?_widen {name : String} (h : Condition.Token.IsName name) (v : Value) :
    v.widen.member? name = (v.child? name).map widen := by
  cases v with
  | object ms =>
    rw [widen, widenMembers_eq_mapValues]
    exact Members.get?_mapValues widen name ms
  | array xs =>
    rw [child?, indexOfSegment?_eq_none h]
    rfl
  | null => rfl
  | bool b => rfl
  | number n => rfl
  | string s => rfl

end Value

end Json

namespace Condition

/-! ## The value of a path -/

namespace Expr

variable {e : Expr} {rest : List String} {scope : Scope}

theorem chain?_foldl_member {path : List String} (h : e.chain? = some path) :
    (rest.foldl .member e).chain? = some (path ++ rest) := by
  induction rest generalizing e path with
  | nil => rw [List.foldl_nil, h, List.append_nil]
  | cons name rest ih =>
    have hmember : (member e name).chain? = some (path ++ [name]) := by
      rw [chain?, h]
      rfl
    rw [List.foldl_cons, ih hmember, List.append_assoc]
    rfl

theorem eval_foldl_member {v w : Value} (hnames : ∀ name ∈ rest, Token.IsName name)
    (h : e.eval scope = .ok v.widen) (hw : v.descend rest = some w) :
    (rest.foldl .member e).eval scope = .ok w.widen := by
  induction rest generalizing e v with
  | nil =>
    cases hw
    exact h
  | cons name rest ih =>
    obtain ⟨hname, hrest⟩ := List.forall_mem_cons.1 hnames
    obtain ⟨u, hu, hdescend⟩ := Option.bind_eq_some_iff.1 hw
    refine ih hrest ?_ hdescend
    have hmember : memberOf v.widen name = u.widen := by
      rw [memberOf, Value.child?_widen hname, hu]
      rfl
    rw [eval, h, ← hmember]
    rfl

end Expr

/-- A condition that is a path has the truth of what descent finds, and is false if that is
nothing. -/
theorem evaluate_eq_descend? (c : Context) {path : String}
    (hnames : ∀ name ∈ Text.segments path, Token.IsName name) :
    evaluate path c.vars = (c.descend? path).any Value.isTruthy := by
  obtain ⟨root, rest, hpath⟩ : ∃ root rest, Text.segments path = root :: rest := by
    cases hpath : Text.segments path with
    | nil => exact absurd (List.map_eq_nil_iff.1 hpath) (Text.splitOn_ne_nil _ _)
    | cons root rest => exact ⟨root, rest, rfl⟩
  have hname : (Expr.name root).chain? = some [root] := rfl
  have hchains : (Expr.ofPath root rest).chains = [root :: rest] :=
    Expr.chains_of_chain? (Expr.chain?_foldl_member hname)
  have hdescend : c.descend? path = (c.vars.get? root).bind (·.descend rest) := by
    rw [Context.descend?, hpath]
  rw [evaluate_eq (parse_path hpath hnames), holdsIn, hchains, hdescend, List.all_cons,
    List.all_nil, Bool.and_true, isPresent]
  cases hfound : (c.vars.get? root).bind (·.descend rest) with
  | none => rfl
  | some w =>
    obtain ⟨v, hv, hw⟩ := Option.bind_eq_some_iff.1 hfound
    have hroot : (Expr.name root).eval (c.vars.mapValues Value.widen) = .ok v.widen := by
      rw [Expr.eval, Members.get?_mapValues, hv]
      rfl
    rw [hpath] at hnames
    have heval := Expr.eval_foldl_member (List.forall_mem_cons.1 hnames).2 hroot hw
    rw [Expr.ofPath, heval, Option.isSome_some, Bool.true_and, holds, Value.isTruthy_widen,
      Option.any_some]

/-- **Conditions and templates.** A condition that is a path of names has the truth of what descent
finds. That is the truth of what look-up finds, unless the path as a whole is the name of a variable
and this variable has another truth. A path without dots is no such exception. -/
theorem evaluate_path (c : Context) {path : String}
    (hnames : ∀ name ∈ Text.segments path, Token.IsName name) :
    evaluate path c.vars = (c.descend? path).any Value.isTruthy ∧
    (evaluate path c.vars = (c.get? path).any Value.isTruthy ↔
      ∀ v, c.vars.get? path = some v → v.isTruthy = (c.descend? path).any Value.isTruthy) ∧
    (Text.segments path = [path] →
      evaluate path c.vars = (c.get? path).any Value.isTruthy) := by
  have hdescend := evaluate_eq_descend? c hnames
  refine ⟨hdescend, ?_, fun hone ↦ ?_⟩
  · rw [hdescend, Context.get?_eq_or]
    cases hwhole : c.vars.get? path with
    | none =>
      rw [Option.none_or]
      exact iff_of_true rfl nofun
    | some v =>
      rw [Option.some_or, Option.any_some]
      constructor
      · rintro heq w ⟨⟩
        exact heq.symm
      · intro hv
        exact (hv v rfl).symm
  · rw [hdescend, Context.get?_eq_or, Context.descend?_of_segments hone, Option.or_self]

/-! ## A variable with a dot in its name -/

def passed : Context := { vars := [("review.passed", .bool true)] }

/-- A context in which the review failed in the end, which is under the name with a dot, and an
older review that passed beside it. -/
def failedLater : Context where
  vars := [("review", .object [("passed", .bool true)]), ("review.passed", .bool false)]

theorem isName_of_segments_passed :
    ∀ name ∈ Text.segments "review.passed", Token.IsName name := by
  have hsegments : Text.segments "review.passed" = ["review", "passed"] := by decide
  rw [hsegments]
  simp only [List.forall_mem_cons, List.not_mem_nil, false_implies, implies_true, and_true]
  constructor
  · exact ⟨⟨'r', "eview".toList, by decide, by decide, List.all_eq_true.1 (by decide)⟩,
      by decide⟩
  · exact ⟨⟨'p', "assed".toList, by decide, by decide, List.all_eq_true.1 (by decide)⟩,
      by decide⟩

/-- Look-up finds a review that passed, and the condition is false; it finds one that failed, and
the condition holds. -/
theorem condition_overlooks_dotted_name :
    (∀ name ∈ Text.segments "review.passed", Token.IsName name) ∧
    passed.get? "review.passed" = some (.bool true) ∧
    evaluate "review.passed" passed.vars = false ∧
    failedLater.get? "review.passed" = some (.bool false) ∧
    evaluate "review.passed" failedLater.vars = true :=
  ⟨isName_of_segments_passed, by decide +kernel, by decide +kernel, by decide +kernel,
    by decide +kernel⟩

/-- A review that passed and a variable with the same truth under the name with a dot. -/
def passedTwice : Context where
  vars := [("review", .object [("passed", .bool true)]), ("review.passed", .string "yes")]

theorem evaluate_passedTwice :
    (∀ name ∈ Text.segments "review.passed", Token.IsName name) ∧
    evaluate "review.passed" passedTwice.vars =
      (passedTwice.get? "review.passed").any Value.isTruthy := by
  refine ⟨isName_of_segments_passed, (evaluate_path passedTwice isName_of_segments_passed).2.1.2 ?_⟩
  intro v hv
  have hyes : passedTwice.vars.get? "review.passed" = some (.string "yes") := by decide +kernel
  cases hyes.symm.trans hv
  decide +kernel

end Condition

end Workflow
