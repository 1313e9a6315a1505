import Workflow.Proofs.Condition.Chains
import Workflow.Proofs.Except

/-!
# Conditions on data that is not there

A condition that reads data which is not there is meant to be false. It is, if the access chain is
in sight, for then it is looked for before anything is evaluated. It is also false if the variable
of the chain is not there and the expression has no value without it: `Expr.Needed` follows the
parts whose values every value of the expression comes from, hidden or not.

That is as far as it goes. In a value of an object literal or on the right of a filter an access
that finds nothing is null, and an error can be dropped by an operator further out, and objects and
arrays count as true whatever they hold.
-/

namespace Workflow.Condition

open Json (Value Members)

namespace Expr

variable {e s p : Expr} {scope : Scope}

/-! ## Values that come from values of parts -/

/-- The parts of an expression that have values whenever it has one. A disjunction and a conditional
may go on without one of theirs. -/
def needed : Expr → List Expr
  | binary .or _ _ | conditional _ _ _ => []
  | binary .and left _ => [left]
  | e => e.parts

/-- An expression is one of the parts that another has no value without, or is the other one. -/
def Needed (s e : Expr) : Prop := Relation.ReflTransGen (fun e p : Expr ↦ p ∈ e.needed) e s

theorem mem_parts_of_mem_needed (h : p ∈ e.needed) : p ∈ e.parts := by
  cases e with
  | conditional test yes no => cases h
  | binary o left right =>
    cases o with
    | or => cases h
    | and => exact List.mem_cons.2 (.inl (List.mem_singleton.1 h))
    | _ => exact h
  | _ => exact h

theorem Needed.within (h : s.Needed e) : s.Within e :=
  Relation.ReflTransGen.mono (fun _ _ ↦ mem_parts_of_mem_needed) _ _ h

theorem exists_of_evalItems {items : List Expr} {vs : List Value}
    (h : evalItems scope items = .ok vs) (hp : p ∈ items) : ∃ v, p.eval scope = .ok v := by
  induction items generalizing vs with
  | nil => cases hp
  | cons e es ih =>
    obtain ⟨v, hv, h⟩ := exists_of_bind_eq_ok h
    obtain ⟨vs', hvs, -⟩ := exists_of_bind_eq_ok h
    rcases List.mem_cons.1 hp with rfl | hp
    · exact ⟨v, hv⟩
    · exact ih hvs hp

theorem exists_of_evalMembers {done out : Members Value} {members : List (String × Expr)}
    (h : evalMembers scope done members = .ok out) (hp : p ∈ members.map (·.2)) :
    ∃ v, p.eval scope = .ok v := by
  induction members generalizing done with
  | nil => cases hp
  | cons m ms ih =>
    obtain ⟨k, e⟩ := m
    obtain ⟨v, hv, h⟩ := exists_of_bind_eq_ok h
    rcases List.mem_cons.1 hp with rfl | hp
    · exact ⟨v, hv⟩
    · split at h
      · cases h
      · exact ih h hp

theorem exists_of_operands {left right : Expr} {f : Value → Value → Except EvalError Value}
    {v : Value} (h : (do let l ← left.eval scope; let r ← right.eval scope; f l r) = .ok v)
    (hp : p ∈ [left, right]) : ∃ w, p.eval scope = .ok w := by
  obtain ⟨l, hl, h⟩ := exists_of_bind_eq_ok h
  obtain ⟨r, hr, -⟩ := exists_of_bind_eq_ok h
  rcases List.mem_cons.1 hp with rfl | hp
  · exact ⟨l, hl⟩
  · obtain rfl : p = right := List.mem_singleton.1 hp
    exact ⟨r, hr⟩

theorem exists_of_eval {v : Value} (h : e.eval scope = .ok v) (hp : p ∈ e.needed) :
    ∃ w, p.eval scope = .ok w := by
  cases e with
  | number _ | string _ | bool _ | null | name _ | conditional _ _ _ => cases hp
  | array items =>
    rw [eval] at h
    cases hvs : evalItems scope items with
    | error err =>
      rw [hvs] at h
      cases h
    | ok vs => exact exists_of_evalItems hvs hp
  | object members =>
    rw [eval] at h
    cases hvs : evalMembers scope [] members with
    | error err =>
      rw [hvs] at h
      cases h
    | ok vs => exact exists_of_evalMembers hvs hp
  | binary o left right =>
    cases o with
    | or => cases hp
    | and =>
      obtain rfl : p = left := List.mem_singleton.1 hp
      rw [eval] at h
      cases hl : p.eval scope with
      | error err =>
        -- an error is no truth, so it is the value of the conjunction
        rw [hl] at h
        cases h
      | ok w => exact ⟨w, rfl⟩
    | _ => exact exists_of_operands h hp
  | transform subject function arguments =>
    obtain ⟨w, hw, h⟩ := exists_of_bind_eq_ok h
    obtain ⟨ws, hws, -⟩ := exists_of_bind_eq_ok h
    rcases List.mem_cons.1 hp with rfl | hp
    · exact ⟨w, hw⟩
    · exact exists_of_evalItems hws hp
  | member subject field =>
    obtain rfl : p = subject := List.mem_singleton.1 hp
    obtain ⟨w, hw, -⟩ := exists_of_bind_eq_ok h
    exact ⟨w, hw⟩
  | index subject position => exact exists_of_operands h hp
  | filter subject field o right => exact exists_of_operands h hp

theorem Needed.exists_value (hs : s.Needed e) {v : Value} (h : e.eval scope = .ok v) :
    ∃ w, s.eval scope = .ok w := by
  induction hs using Relation.ReflTransGen.head_induction_on generalizing v with
  | refl => exact ⟨v, h⟩
  | head hp _ ih =>
    obtain ⟨w, hw⟩ := exists_of_eval h hp
    exact ih hw

/-- A chain begins with the name of a variable, and has no value without it. -/
theorem exists_root {path : List String} (h : e.chain? = some path) :
    ∃ root rest, path = root :: rest ∧ (name root).Needed e := by
  induction e using induction_parts generalizing path with
  | whole e ih =>
    cases e with
    | name text =>
      cases h
      exact ⟨text, [], rfl, .refl⟩
    | member subject field =>
      obtain ⟨begun, hbegun, rfl⟩ := chain?_member_eq_some h
      obtain ⟨root, rest, rfl, hroot⟩ := ih subject (by simp [parts]) hbegun
      exact ⟨root, rest ++ [field], rfl, .head (by simp [needed, parts]) hroot⟩
    | index subject position =>
      obtain ⟨segment, begun, -, hbegun, rfl⟩ := chain?_index_eq_some h
      obtain ⟨root, rest, rfl, hroot⟩ := ih subject (by simp [parts]) hbegun
      exact ⟨root, rest ++ [segment], rfl, .head (by simp [needed, parts]) hroot⟩
    | _ => cases h

theorem eval_name_eq_ok {text : String} {v : Value} (h : (name text).eval scope = .ok v) :
    scope.get? text = some v := by
  rw [eval] at h
  cases hget : scope.get? text with
  | none =>
    rw [hget] at h
    cases h
  | some w =>
    rw [hget] at h
    cases h
    rfl

end Expr

/-! ## Conditions -/

theorem exists_of_holds {r : Except EvalError Value} (h : holds r = true) : ∃ v, r = .ok v := by
  cases r with
  | error e => cases h
  | ok v => exact ⟨v, rfl⟩

theorem evaluate_eq {source : String} {c : Condition} (h : parse source = .ok c)
    (vars : Members Value) : evaluate source vars = c.holdsIn vars := by
  rw [evaluate, h]

/-- **Missing data.** Let a chain that stands anywhere in a condition lead nowhere. If the chain is
in sight, the condition is false. It is also false if not even the variable is there and the
expression has no value without the chain. So if it is true, then all chains in sight lead somewhere
and this one stands in a value of an object literal or on the right of a filter. -/
theorem evaluate_of_absent {source : String} {c : Condition} (hc : parse source = .ok c)
    {vars : Members Value} {s : Expr} (hs : s.Within c.expr) {path : List String}
    (hpath : s.chain? = some path) (habsent : isPresent vars path = false) :
    (s.InSight c.expr → evaluate source vars = false) ∧
    (∀ root rest, path = root :: rest → vars.get? root = none → s.Needed c.expr →
      evaluate source vars = false) ∧
    (evaluate source vars = true → Granted c.expr vars ∧
      ∃ host p : Expr, host.InSight c.expr ∧ p ∈ host.hidden ∧ s.Within p) := by
  rw [evaluate_eq hc]
  have hsight : s.InSight c.expr → ¬c.holdsIn vars = true := by
    intro hin hholds
    have hpresent := (holdsIn_iff.1 hholds).1 s path hin hpath
    rw [habsent] at hpresent
    cases hpresent
  refine ⟨fun hin ↦ Bool.eq_false_iff.2 (hsight hin), ?_, fun hholds ↦ ?_⟩
  · intro root rest hroot hnone hneeded
    refine Bool.eq_false_iff.2 fun hholds ↦ ?_
    obtain ⟨v, hv⟩ := exists_of_holds (holdsIn_iff.1 hholds).2
    obtain ⟨root', rest', hroot', hname⟩ := Expr.exists_root hpath
    obtain ⟨rfl, -⟩ := List.cons.inj (hroot.symm.trans hroot')
    have hneededRoot : (Expr.name root).Needed c.expr := hneeded.trans hname
    obtain ⟨w, hw⟩ := hneededRoot.exists_value hv
    -- evaluation sees the same names, with other numbers under them
    have hget := Expr.eval_name_eq_ok hw
    rw [Members.get?_mapValues, hnone] at hget
    cases hget
  · refine ⟨(holdsIn_iff.1 hholds).1, ?_⟩
    exact hs.inSight_or_hidden.resolve_left fun hin ↦ hsight hin hholds

/-! ## A title that is not there -/

theorem parse_of_tokens {source : String} {ts : List Token} {e : Expr}
    (hblank : Text.isBlankText source = false) (hscan : Token.scan? source = some ts)
    (he : Expr.ofTokens? ts = some e) : parse source = .ok ⟨source, e⟩ := by
  rw [parse, hblank, Expr.parse?, hscan, Option.bind_some, he]
  rfl

def title : Expr := .member (.name "draft") "title"

/-- A list of the items with the title of a draft. -/
def selection : Condition where
  source := "items[.title == (draft.title)]"
  expr := .filter (.name "items") "title" .equal title

def titled : Condition where
  source := "\x7btitle: draft.title\x7d"
  expr := .object [("title", title)]

theorem parse_selection : parse selection.source = .ok selection := by
  have hscan : Token.scan? selection.source = some [.name "items", .openBracket, .dot,
      .name "title", .op .equal, .openParen, .name "draft", .dot, .name "title", .closeParen,
      .closeBracket] := by
    decide +kernel
  exact parse_of_tokens (by decide +kernel) hscan (by cbv)

theorem parse_titled : parse titled.source = .ok titled := by
  have hscan : Token.scan? titled.source = some [.openBrace, .name "title", .colon,
      .name "draft", .dot, .name "title", .closeBrace] := by
    decide +kernel
  exact parse_of_tokens (by decide +kernel) hscan (by cbv)

theorem within_selection : title.Within selection.expr :=
  .single (List.mem_cons_of_mem _ List.mem_cons_self)

theorem within_titled : title.Within titled.expr := .single List.mem_cons_self

/-- Two conditions that read the title of a draft without one hold: a list counts as true even if it
is empty, and so does an object that holds null. -/
theorem holds_without_title :
    (parse selection.source = .ok selection ∧ title.Within selection.expr ∧
      title.chain? = some ["draft", "title"] ∧
      isPresent [("draft", .object []), ("items", .array [])] ["draft", "title"] = false ∧
      evaluate selection.source [("draft", .object []), ("items", .array [])] = true) ∧
    parse titled.source = .ok titled ∧ title.Within titled.expr ∧
      title.chain? = some ["draft", "title"] ∧
      isPresent [("draft", .object [])] ["draft", "title"] = false ∧
      evaluate titled.source [("draft", .object [])] = true :=
  ⟨⟨parse_selection, within_selection, rfl, by decide +kernel, by decide +kernel⟩,
    parse_titled, within_titled, rfl, by decide +kernel, by decide +kernel⟩

/-- Without the draft itself there is no list. -/
theorem evaluate_of_absent_draft :
    parse selection.source = .ok selection ∧ title.Within selection.expr ∧
    title.chain? = some ["draft", "title"] ∧
    isPresent [("items", .array [])] ["draft", "title"] = false ∧
    title.Needed selection.expr ∧
    evaluate selection.source [("items", .array [])] = false := by
  have hneeded : title.Needed selection.expr :=
    .single (List.mem_cons_of_mem _ List.mem_cons_self)
  have habsent : isPresent [("items", .array [])] ["draft", "title"] = false := by decide +kernel
  obtain ⟨-, hfalse, -⟩ := evaluate_of_absent parse_selection within_selection rfl habsent
  exact ⟨parse_selection, within_selection, rfl, habsent, hneeded,
    hfalse "draft" ["title"] rfl (by decide +kernel) hneeded⟩

end Workflow.Condition
