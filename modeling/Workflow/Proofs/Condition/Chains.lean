import Workflow.Condition.Access
import Workflow.Proofs.Condition.Parts

/-!
# The chains that a condition looks for

A condition looks for data before it is evaluated, but not everywhere: it looks into an expression
as far as `Expr.InSight` reaches. Only the values of an object literal and the right side of a
filter are out of sight. `Condition.holdsIn_iff` says that `Expr.chains` finds the access chains in
sight and no others. It finds only the longest ones, and that is enough: a chain inside a chain is
the beginning of it, and so leads somewhere if the longer one does.
-/

namespace Workflow.Condition

open Json (Value Members)

namespace Expr

variable {e s p : Expr}

/-! ## What is in sight -/

/-- The parts of an expression that are looked into for data. -/
def shown : Expr → List Expr
  | filter subject _ _ _ => [subject]
  | object _ => []
  | e => e.parts

/-- An expression stands inside another where data is looked for, or is the other one. -/
def InSight (s e : Expr) : Prop := Relation.ReflTransGen (fun e p : Expr ↦ p ∈ e.shown) e s

/-- The parts of an expression that are not looked into. -/
def hidden : Expr → List Expr
  | filter _ _ _ right => [right]
  | object members => members.map (·.2)
  | _ => []

theorem mem_parts_iff : p ∈ e.parts ↔ p ∈ e.shown ∨ p ∈ e.hidden := by
  cases e with
  | filter subject field o right => simp [parts, shown, hidden]
  | object members => simp [parts, shown, hidden]
  | _ => simp [shown, hidden]

theorem InSight.within (h : s.InSight e) : s.Within e :=
  Relation.ReflTransGen.mono (fun _ _ hp ↦ mem_parts_iff.2 (.inl hp)) _ _ h

/-- What is not in sight stands in a value of an object literal or on the right of a filter. -/
theorem Within.inSight_or_hidden (h : s.Within e) :
    s.InSight e ∨ ∃ host p : Expr, host.InSight e ∧ p ∈ host.hidden ∧ s.Within p := by
  induction h using Relation.ReflTransGen.head_induction_on with
  | refl => exact .inl .refl
  | @head e p hp hrest ih =>
    rcases mem_parts_iff.1 hp with hshown | hhidden
    · rcases ih with hs | ⟨host, q, hhost, hq, hs⟩
      · exact .inl (.head hshown hs)
      · exact .inr ⟨host, q, .head hshown hhost, hq, hs⟩
    · exact .inr ⟨e, p, .refl, hhidden, hrest⟩

/-! ## Chains inside chains -/

theorem chain?_member_eq_some {field : String} {path : List String}
    (h : (member e field).chain? = some path) :
    ∃ begun, e.chain? = some begun ∧ path = begun ++ [field] := by
  obtain ⟨begun, hbegun, hpath⟩ := Option.bind_eq_some_iff.1 h
  exact ⟨begun, hbegun, (Option.some.inj hpath).symm⟩

theorem chain?_index_eq_some {path : List String} (h : (index e p).chain? = some path) :
    ∃ segment begun, p.segment? = some segment ∧ e.chain? = some begun ∧
      path = begun ++ [segment] := by
  obtain ⟨segment, hsegment, h⟩ := Option.bind_eq_some_iff.1 h
  obtain ⟨begun, hbegun, hpath⟩ := Option.bind_eq_some_iff.1 h
  exact ⟨segment, begun, hsegment, hbegun, (Option.some.inj hpath).symm⟩

/-- A constant key has nothing inside it, and is no chain itself. -/
theorem eq_of_inSight_segment {segment : String} (hp : p.segment? = some segment)
    (hs : s.InSight p) : s = p ∧ p.chain? = none := by
  have hleaf : p.shown = [] ∧ p.chain? = none := by
    cases p with
    | number _ | string _ => exact ⟨rfl, rfl⟩
    | _ => cases hp
  rcases Relation.ReflTransGen.cases_head hs with rfl | ⟨q, hq, -⟩
  · exact ⟨rfl, hleaf.2⟩
  · rw [hleaf.1] at hq
    cases hq

theorem prefix_of_inSight {path begun : List String} (he : e.chain? = some path)
    (hs : s.InSight e) (hbegun : s.chain? = some begun) : begun <+: path := by
  induction hs using Relation.ReflTransGen.head_induction_on generalizing path with
  | refl =>
    cases hbegun.symm.trans he
    exact List.prefix_refl _
  | @head e p hp hrest ih =>
    cases e with
    | member subject field =>
      obtain rfl : p = subject := List.mem_singleton.1 hp
      obtain ⟨q, hq, rfl⟩ := chain?_member_eq_some he
      exact (ih hq).trans (List.prefix_append _ _)
    | index subject position =>
      obtain ⟨segment, q, hsegment, hq, rfl⟩ := chain?_index_eq_some he
      rcases List.mem_cons.1 hp with rfl | hp
      · exact (ih hq).trans (List.prefix_append _ _)
      · obtain rfl : p = position := List.mem_singleton.1 hp
        obtain ⟨rfl, hnone⟩ := eq_of_inSight_segment hsegment hrest
        cases hnone.symm.trans hbegun
    | name text => cases hp
    | _ => cases he

/-! ## What is collected -/

theorem chains_of_chain? {path : List String} (h : e.chain? = some path) : e.chains = [path] := by
  cases e with
  | name text =>
    cases h
    rfl
  | member _ _ | index _ _ => rw [chains, h]
  | _ => cases h

theorem chainsOfAll_eq_flatMap (es : List Expr) : chainsOfAll es = es.flatMap chains := by
  induction es with
  | nil => rfl
  | cons e es ih => rw [chainsOfAll, List.flatMap_cons, ih]

/-- What is no chain itself has the chains of all its parts in sight. -/
theorem chains_of_chain?_eq_none (h : e.chain? = none) : e.chains = e.shown.flatMap chains := by
  cases e with
  | member subject field => simp [chains, h, shown, parts]
  | index subject position => simp [chains, h, shown, parts]
  | binary o left right => simp [chains, shown, parts]
  | conditional test yes no => simp [chains, shown, parts]
  | transform subject function arguments =>
    simp [chains, shown, parts, chainsOfAll_eq_flatMap]
  | filter subject field o right => simp [chains, shown]
  | array items => simp [chains, shown, parts, chainsOfAll_eq_flatMap]
  | name text => cases h
  | number _ | string _ | bool _ | null | object _ => rfl

theorem exists_of_mem_chains {path : List String} (h : path ∈ e.chains) :
    ∃ s : Expr, s.InSight e ∧ s.chain? = some path := by
  induction e using induction_parts with
  | whole e ih =>
    cases he : e.chain? with
    | some whole =>
      rw [chains_of_chain? he, List.mem_singleton] at h
      exact ⟨e, .refl, h ▸ he⟩
    | none =>
      rw [chains_of_chain?_eq_none he] at h
      obtain ⟨p, hp, hpath⟩ := List.mem_flatMap.1 h
      obtain ⟨s, hs, hchain⟩ := ih p (mem_parts_iff.2 (.inl hp)) hpath
      exact ⟨s, .head hp hs, hchain⟩

/-- Every chain in sight is the beginning of one that is collected. -/
theorem exists_prefix_of_inSight {begun : List String} (hs : s.InSight e)
    (hbegun : s.chain? = some begun) : ∃ path ∈ e.chains, begun <+: path := by
  induction hs using Relation.ReflTransGen.head_induction_on with
  | refl => exact ⟨begun, by simp [chains_of_chain? hbegun], List.prefix_refl _⟩
  | @head e p hp hrest ih =>
    cases he : e.chain? with
    | some path =>
      refine ⟨path, by simp [chains_of_chain? he], ?_⟩
      exact prefix_of_inSight he (.head hp hrest) hbegun
    | none =>
      obtain ⟨path, hpath, hprefix⟩ := ih
      refine ⟨path, ?_, hprefix⟩
      rw [chains_of_chain?_eq_none he]
      exact List.mem_flatMap.2 ⟨p, hp, hpath⟩

end Expr

/-! ## What a condition takes for granted -/

/-- A path leads somewhere only if all beginnings of it do. -/
theorem isPresent_of_prefix {vars : Members Value} {begun path : List String}
    (h : begun <+: path) (hpath : isPresent vars path = true) : isPresent vars begun = true := by
  obtain ⟨rest, rfl⟩ := h
  cases begun with
  | nil => rfl
  | cons root begun =>
    rw [List.cons_append, isPresent] at hpath
    rw [isPresent]
    cases hroot : vars.get? root with
    | none =>
      rw [hroot] at hpath
      cases hpath
    | some v =>
      rw [hroot, Option.bind_some, Value.descend_append] at hpath
      rw [Option.bind_some]
      cases hv : v.descend begun with
      | none =>
        rw [hv] at hpath
        cases hpath
      | some w => rfl

/-- All chains in sight lead somewhere. -/
def Granted (e : Expr) (vars : Members Value) : Prop :=
  ∀ (s : Expr) (path : List String), s.InSight e → s.chain? = some path → isPresent vars path = true

theorem all_isPresent_iff_granted {e : Expr} {vars : Members Value} :
    e.chains.all (isPresent vars) = true ↔ Granted e vars := by
  rw [List.all_eq_true]
  constructor
  · intro hall s begun hs hbegun
    obtain ⟨path, hpath, hprefix⟩ := Expr.exists_prefix_of_inSight hs hbegun
    exact isPresent_of_prefix hprefix (hall path hpath)
  · intro hgranted path hpath
    obtain ⟨s, hs, hchain⟩ := Expr.exists_of_mem_chains hpath
    exact hgranted s path hs hchain

/-- **Data in sight.** A condition holds if and only if every access chain in sight leads somewhere
and the value of the expression is true. -/
theorem holdsIn_iff {c : Condition} {vars : Members Value} :
    c.holdsIn vars = true ↔
      Granted c.expr vars ∧ holds (c.expr.eval (vars.mapValues Value.widen)) = true := by
  rw [holdsIn, Bool.and_eq_true, all_isPresent_iff_granted]

end Workflow.Condition
