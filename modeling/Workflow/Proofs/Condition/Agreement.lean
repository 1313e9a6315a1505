import Workflow.Context
import Workflow.Proofs.Condition.Alike
import Workflow.Proofs.Condition.Missing

/-!
# What a condition sees of its variables

A condition sees the variables whose names stand somewhere in it, in filters and object literals
too, and of their numbers it sees the doubles. `Condition.holdsIn_eq` says both at once: variables
that are alike under these names make it hold or not hold together. An operator that drops an error
on the one side drops the same error on the other, so the evaluations stay side by side to the end.

The look for data comes first and sees even less: it walks to the values and not into the numbers.
-/

namespace Workflow.Condition

open Json (Value Members Number)
open Json.Value (AlikeWidened)

/-! ## Expressions over scopes that agree -/

namespace Expr

variable {e : Expr} {scope scope' : Scope}

theorem evalItems_alike {items : List Expr}
    (h : ∀ p ∈ items, ResultsAlike AlikeWidened (p.eval scope) (p.eval scope')) :
    ResultsAlike (List.Forall₂ AlikeWidened) (evalItems scope items) (evalItems scope' items) := by
  induction items with
  | nil => exact .ok .nil
  | cons e es ih =>
    obtain ⟨he, hes⟩ := List.forall_mem_cons.1 h
    exact he.bind fun _ _ hv ↦ (ih hes).bind fun _ _ hvs ↦ .ok (.cons hv hvs)

theorem evalMembers_alike {done done' : Members Value} {members : List (String × Expr)}
    (hdone : Members.UpTo AlikeWidened done done')
    (h : ∀ p ∈ members.map (·.2), ResultsAlike AlikeWidened (p.eval scope) (p.eval scope')) :
    ResultsAlike (Members.UpTo AlikeWidened) (evalMembers scope done members)
      (evalMembers scope' done' members) := by
  induction members generalizing done done' with
  | nil => exact .ok hdone
  | cons m ms ih =>
    obtain ⟨k, e⟩ := m
    obtain ⟨he, hes⟩ := List.forall_mem_cons.1 h
    refine he.bind fun v w hv ↦ ?_
    rw [hdone.contains_eq k]
    split
    · exact .error _
    · exact ih (hdone.insert k hv) hes

theorem filter_alike {field : String} {o : Operator} {right right' : Value} {xs ys : List Value}
    (hr : AlikeWidened right right') (h : List.Forall₂ AlikeWidened xs ys) :
    List.Forall₂ AlikeWidened
      (xs.filter fun item ↦ holds (o.apply (memberOf item field) right))
      (ys.filter fun item ↦ holds (o.apply (memberOf item field) right')) := by
  refine List.rel_filter (fun x y hxy ↦ ?_) h
  exact Bool.eq_iff_iff.1 (o.apply_alike (memberOf_alike hxy field) hr).holds_eq

/-- **Evaluation.** An expression has values that are alike, or fails with the same error, over
scopes in which every name that stands in it has values that are alike, or none. -/
theorem eval_alike (h : ∀ n, (name n).Within e →
    Option.Rel AlikeWidened (scope.get? n) (scope'.get? n)) :
    ResultsAlike AlikeWidened (e.eval scope) (e.eval scope') := by
  induction e using induction_parts with
  | whole e ih =>
    have hparts : ∀ p ∈ e.parts, ResultsAlike AlikeWidened (p.eval scope) (p.eval scope') :=
      fun p hp ↦ ih p hp fun n hn ↦ h n (.head hp hn)
    cases e with
    | number x => exact .ok (Value.alikeWidened_ofFloat (.inl (.refl x)))
    | string s => exact .ok (.string s)
    | bool b => exact .ok (.bool b)
    | null => exact .ok .null
    | name n =>
      rw [eval, eval]
      obtain ⟨hv, hw⟩ | ⟨v, w, hv, hw, hvw⟩ := Json.eq_none_or_exists_of_rel (h n .refl)
      · rw [hv, hw]
        exact .error _
      · rw [hv, hw]
        exact .ok hvw
    | array items => exact (evalItems_alike hparts).map fun _ _ h ↦ .array h
    | object members => exact (evalMembers_alike .nil hparts).map fun _ _ h ↦ .object h
    | member subject field =>
      have hsubject := hparts subject (by simp [parts])
      exact hsubject.bind fun _ _ hv ↦ .ok (memberOf_alike hv field)
    | index subject position =>
      have hsubject := hparts subject (by simp [parts])
      have hposition := hparts position (by simp [parts])
      exact hsubject.bind fun _ _ hv ↦ hposition.bind fun _ _ hp ↦ indexOf_alike hv hp
    | transform subject function arguments =>
      obtain ⟨hsubject, harguments⟩ := List.forall_mem_cons.1 hparts
      exact hsubject.bind fun _ _ hv ↦ (evalItems_alike harguments).bind fun _ _ hvs ↦
        applyTransform_alike (.cons hv hvs) function
    | conditional test yes no =>
      have htest := hparts test (by simp [parts])
      exact htest.ite_holds (hparts yes (by simp [parts])) (hparts no (by simp [parts]))
    | filter subject field o right =>
      have hsubject := hparts subject (by simp [parts])
      have hright := hparts right (by simp [parts])
      refine hsubject.bind fun v w hv ↦ hright.bind fun r r' hr ↦ ?_
      cases hv with
      | array hitems => exact .ok (.array (filter_alike hr hitems))
      | _ => exact .error _
    | binary o left right =>
      have hleft := hparts left (by simp [parts])
      have hright := hparts right (by simp [parts])
      cases o with
      | or => exact hleft.ite_holds hleft hright
      | and => exact hleft.ite_holds hright hleft
      | _ => exact hleft.bind fun _ _ hl ↦ hright.bind fun _ _ hr ↦ Operator.apply_alike _ hl hr

end Expr

/-! ## Conditions over variables that agree -/

variable {vars vars' : Members Value} {source : String}

theorem isPresent_eq {r : Number → Number → Prop} {root : String} {rest : List String}
    (h : Option.Rel (Value.UpTo r) (vars.get? root) (vars'.get? root)) :
    isPresent vars (root :: rest) = isPresent vars' (root :: rest) := by
  rw [isPresent, isPresent]
  obtain ⟨hv, hw⟩ | ⟨v, w, hv, hw, hvw⟩ := Json.eq_none_or_exists_of_rel h
  · rw [hv, hw]
  · rw [hv, hw]
    exact hvw.isSome_descend rest

/-- What a condition looks for begins with a name that stands in it. -/
theorem exists_root_of_mem_chains {e : Expr} {path : List String} (h : path ∈ e.chains) :
    ∃ root rest, path = root :: rest ∧ (Expr.name root).Within e := by
  obtain ⟨s, hs, hchain⟩ := Expr.exists_of_mem_chains h
  obtain ⟨root, rest, hpath, hroot⟩ := Expr.exists_root hchain
  exact ⟨root, rest, hpath, hs.within.trans hroot.within⟩

theorem get?_mapValues_widen_alike {n : String}
    (h : Option.Rel Value.Alike (vars.get? n) (vars'.get? n)) :
    Option.Rel AlikeWidened ((vars.mapValues Value.widen).get? n)
      ((vars'.mapValues Value.widen).get? n) := by
  rw [Members.get?_mapValues, Members.get?_mapValues]
  obtain ⟨hv, hw⟩ | ⟨v, w, hv, hw, hvw⟩ := Json.eq_none_or_exists_of_rel h
  · rw [hv, hw]
    exact .none
  · rw [hv, hw]
    exact .some (Value.UpTo.widen (fun _ _ h ↦ h) v hvw)

theorem holdsIn_eq {c : Condition} (h : ∀ n, (Expr.name n).Within c.expr →
    Option.Rel Value.Alike (vars.get? n) (vars'.get? n)) : c.holdsIn vars = c.holdsIn vars' := by
  have hpresent : c.expr.chains.all (isPresent vars) = c.expr.chains.all (isPresent vars') := by
    rw [Bool.eq_iff_iff, List.all_eq_true, List.all_eq_true]
    refine forall₂_congr fun path hpath ↦ ?_
    obtain ⟨root, rest, rfl, hroot⟩ := exists_root_of_mem_chains hpath
    rw [isPresent_eq (h root hroot)]
  have heval := Expr.eval_alike fun n hn ↦ get?_mapValues_widen_alike (h n hn)
  rw [holdsIn, holdsIn, hpresent, heval.holds_eq]

/-- **Names.** Two contexts that agree on the variables whose names stand in a condition, wherever
they stand, agree on the condition, whatever else is different. -/
theorem evaluate_eq_of_names {c d : Context} (h : ∀ cond, parse source = .ok cond → ∀ n,
    (Expr.name n).Within cond.expr → c.vars.get? n = d.vars.get? n) :
    evaluate source c.vars = evaluate source d.vars := by
  rw [evaluate, evaluate]
  cases hcond : parse source with
  | error e => rfl
  | ok cond =>
    refine holdsIn_eq fun n hn ↦ ?_
    rw [h cond hcond n hn]
    cases d.vars.get? n with
    | none => exact .none
    | some v => exact .some (Value.UpTo.refl (fun _ ↦ .refl _) v)

def drafted : Context where
  vars := [("draft", .object [("title", .string "Minutes")]),
    ("items", .array [.object [("title", .string "Minutes")]])]

/-- The same draft and item later in the run, inside a task. -/
def reviewed : Context where
  vars := ("approved", .bool true) :: drafted.vars
  completedPhases := ["review"]
  changedFiles := ["minutes.md"]
  task := some ⟨"t1", 0, 1, .null⟩

theorem eq_or_eq_of_within_selection {n : String} (h : (Expr.name n).Within selection.expr) :
    n = "items" ∨ n = "draft" := by
  have hname {m : String} (hm : (Expr.name n).Within (.name m)) : n = m := by
    rcases Relation.ReflTransGen.cases_head hm with heq | ⟨p, hp, -⟩
    · exact (Expr.name.inj heq).symm
    · cases hp
  rcases Relation.ReflTransGen.cases_head h with heq | ⟨p, hp, h⟩
  · cases heq
  · rcases List.mem_cons.1 hp with rfl | hp
    · exact .inl (hname h)
    · obtain rfl : p = title := List.mem_singleton.1 hp
      rcases Relation.ReflTransGen.cases_head h with heq | ⟨q, hq, h⟩
      · cases heq
      · obtain rfl : q = .name "draft" := List.mem_singleton.1 hq
        exact .inr (hname h)

/-- A filter that compares with the title of a draft gives the same before and after a review. -/
theorem evaluate_selection_reviewed :
    (∀ cond, parse selection.source = .ok cond → ∀ n, (Expr.name n).Within cond.expr →
      drafted.vars.get? n = reviewed.vars.get? n) ∧
    evaluate selection.source drafted.vars = true ∧
    evaluate selection.source reviewed.vars = true := by
  have hnames : ∀ cond, parse selection.source = .ok cond → ∀ n,
      (Expr.name n).Within cond.expr → drafted.vars.get? n = reviewed.vars.get? n := by
    intro cond hcond n hn
    cases parse_selection.symm.trans hcond
    rcases eq_or_eq_of_within_selection hn with rfl | rfl
    · decide +kernel
    · decide +kernel
  have hdrafted : evaluate selection.source drafted.vars = true := by decide +kernel
  exact ⟨hnames, hdrafted, (evaluate_eq_of_names hnames).symm.trans hdrafted⟩

/-- **Numbers.** Two contexts agree on every condition if their variables are equal but for how
numbers in them are written, at any depth. -/
theorem evaluate_eq_of_alike {c d : Context}
    (h : ∀ n, Option.Rel Value.Alike (c.vars.get? n) (d.vars.get? n)) :
    evaluate source c.vars = evaluate source d.vars := by
  rw [evaluate, evaluate]
  cases hcond : parse source with
  | error e => rfl
  | ok cond => exact holdsIn_eq fun n _ ↦ h n

/-- Scores written without a point, and a limit with one. -/
def whole : Context where
  vars := [("limit", .number (.float 3.0)), ("scores", .array [.number (.int 0), .number (.int 3)])]

/-- The same scores and the same limit, written the other way round. -/
def pointed : Context where
  vars := [("limit", .number (.int 3)),
    ("scores", .array [.number (.float (-0.0)), .number (.float 3.0)])]

theorem whole_alike_pointed (n : String) :
    Option.Rel Value.Alike (whole.vars.get? n) (pointed.vars.get? n) := by
  have hthree : Number.Alike (.int 3) (.float 3.0) := .inl (by decide +kernel)
  have hthree' : Number.Alike (.float 3.0) (.int 3) := .inl (by decide +kernel)
  have hzero : Number.Alike (.int 0) (.float (-0.0)) := .inr (by decide +kernel)
  have hvars : Members.UpTo Value.Alike whole.vars pointed.vars :=
    .cons _ (.number hthree') (.cons _ (.array (.cons (.number hzero)
      (.cons (.number hthree) .nil))) .nil)
  exact hvars.get? n

/-- The limit is one of the scores, and the first score is no more than zero, in either writing. -/
theorem evaluate_pointed :
    (∀ n, Option.Rel Value.Alike (whole.vars.get? n) (pointed.vars.get? n)) ∧
    evaluate "(scores|contains(limit)) && scores[0] <= 0" whole.vars = true ∧
    evaluate "(scores|contains(limit)) && scores[0] <= 0" pointed.vars = true := by
  have hwhole : evaluate "(scores|contains(limit)) && scores[0] <= 0" whole.vars = true := by
    decide +kernel
  exact ⟨whole_alike_pointed, hwhole,
    (evaluate_eq_of_alike whole_alike_pointed).symm.trans hwhole⟩

end Workflow.Condition
