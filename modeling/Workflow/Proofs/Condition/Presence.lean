import Workflow.Proofs.Condition.Lookup
import Workflow.Proofs.Decimal.Zero

/-!
# What is looked for and what is read

The access chains of a condition are looked for as paths, and in a path a segment is only a text.
The segment `0` names a member of an object and indexes an array, whether the access was `['0']` or
`[0]`. Evaluation keeps the two apart: a field or a text reads members only, and a number reads
items only. So data can be there for the one and not for the other. `Expr.fits` says of a chain that
no access of it meets data of the other kind, and `eval_of_isPresent` that the value of a chain that
is there is the data if the chain fits, and null if it does not.
-/

namespace Workflow

open Json (Value Members)

/-! ## One access -/

namespace Json

theorem indexOfSegment?_intText {n : Nat} (h : n < Bits.count 64) :
    indexOfSegment? (String.ofList (Number.intText n)) = some n := by
  have hdigits : Number.intText n = Nat.toDigits 10 n := if_neg (by omega)
  have hall : (Nat.toDigits 10 n).all Char.isDigit = true :=
    List.all_eq_true.2 fun c hc ↦ Nat.isDigit_of_mem_toDigits (by decide) (by decide) hc
  have hvalue : (Nat.toDigits 10 n).foldl (fun acc c ↦ 10 * acc + (c.toNat - '0'.toNat)) 0 = n :=
    Nat.ofDigitChars_ten_toDigits
  rw [indexOfSegment?, String.toList_ofList, hdigits]
  cases hchars : Nat.toDigits 10 n with
  | nil => exact absurd hchars Nat.toDigits_ne_nil
  | cons c cs =>
    rw [hchars] at hall hvalue
    have hplus : c ≠ '+' := by
      rintro rfl
      exact absurd (List.all_eq_true.1 hall _ List.mem_cons_self) (by decide)
    simp only [List.foldl_cons, Nat.mul_zero, Nat.zero_add, Char.reduceToNat] at hvalue
    simp [hplus, hall, hvalue, h]

namespace Value

variable {v w : Value} {segment : String}

theorem widen_eq_null_iff : v.widen = null ↔ v = null := by
  cases v <;> simp [widen]

/-- A text reads what is found under it in an object, and nothing in an array. -/
theorem memberOf_widen (h : v.child? segment = some w) :
    Condition.memberOf v.widen segment = if v.object?.isSome then w.widen else null := by
  cases v with
  | object ms =>
    have hget : Members.get? segment ms = some w := h
    rw [Condition.memberOf, widen, widenMembers_eq_mapValues, member?, Members.get?_mapValues, hget]
    rfl
  | array xs => rfl
  | _ => cases h

theorem of_segment?_number {x : Float}
    (h : (Condition.Expr.number x).segment? = some segment) :
    ofFloat x = number (.float x) ∧ (Decimal.floor x).toUInt64 = x.toUInt64 ∧
      segment = String.ofList (Number.intText x.toUInt64.toNat) := by
  rw [Condition.Expr.segment?, Option.ite_none_right_eq_some, Bool.and_eq_true, Bool.and_eq_true,
    Option.some.injEq] at h
  obtain ⟨⟨⟨hfinite, hwhole⟩, -⟩, hsegment⟩ := h
  refine ⟨?_, Decimal.toUInt64_eq_of_beq hwhole, hsegment.symm⟩
  rw [ofFloat, hfinite]
  rfl

/-- A position reads what is found there in an array, and nothing in an object. -/
theorem indexOf_widen {x : Float} (hsegment : (Condition.Expr.number x).segment? = some segment)
    (h : v.child? segment = some w) :
    Condition.indexOf v.widen (number (.float x)) =
      .ok (if v.array?.isSome then w.widen else null) := by
  obtain ⟨-, hposition, rfl⟩ := of_segment?_number hsegment
  cases v with
  | array xs =>
    have hbound : x.toUInt64.toNat < Bits.count 64 := x.toUInt64.toNat_lt
    have hget : xs[x.toUInt64.toNat]? = some w := by
      rw [child?, indexOfSegment?_intText hbound] at h
      exact h
    have hget' : (xs.map widen)[(Decimal.floor x).toUInt64.toNat]? = some w.widen := by
      rw [hposition, List.getElem?_map, hget, Option.map_some]
    rw [widen, widenItems_eq_map]
    change Except.ok (((xs.map widen)[(Decimal.floor x).toUInt64.toNat]?).getD null) = _
    rw [hget']
    rfl
  | object ms => rfl
  | _ => cases h

/-- What is no numeral finds something in objects only. -/
theorem isSome_object?_of_child? (hsegment : indexOfSegment? segment = none)
    (h : v.child? segment = some w) : v.object?.isSome = true := by
  cases v with
  | object ms => rfl
  | array xs =>
    rw [child?, hsegment] at h
    cases h
  | _ => cases h

end Value

end Json

/-! ## Chains -/

namespace Condition

/-- What a path leads to from the variables. -/
def found? (vars : Members Value) : List String → Option Value
  | [] => none
  | root :: path => (vars.get? root).bind (·.descend path)

namespace Expr

/-- What is found where a chain leads. -/
def target? (vars : Members Value) (e : Expr) : Option Value := e.chain?.bind (found? vars)

/-- Whether every access of a chain meets data of its kind: objects where a field or a text is read,
arrays where a number is. -/
def fits (vars : Members Value) : Expr → Bool
  | member subject _ | index subject (.string _) =>
    subject.fits vars && ((subject.target? vars).bind Value.object?).isSome
  | index subject (.number _) =>
    subject.fits vars && ((subject.target? vars).bind Value.array?).isSome
  | _ => true

variable {e : Expr} {vars : Members Value} {path : List String} {w : Value}

theorem found?_append_singleton {begun : List String} {segment : String}
    (h : found? vars (begun ++ [segment]) = some w) (hne : begun ≠ []) :
    ∃ v, found? vars begun = some v ∧ v.child? segment = some w := by
  cases begun with
  | nil => exact absurd rfl hne
  | cons root begun =>
    rw [List.cons_append] at h
    obtain ⟨v, hv, hw⟩ := Option.bind_eq_some_iff.1 h
    rw [Value.descend_append] at hw
    obtain ⟨u, hu, hw⟩ := Option.bind_eq_some_iff.1 hw
    obtain ⟨w', hw', hw⟩ := Option.bind_eq_some_iff.1 hw
    cases hw
    exact ⟨u, Option.bind_eq_some_iff.2 ⟨v, hv, hu⟩, hw'⟩

theorem ne_nil_of_chain? (h : e.chain? = some path) : path ≠ [] := by
  obtain ⟨root, rest, rfl, -⟩ := exists_root h
  exact List.cons_ne_nil root rest

theorem target?_eq (hchain : e.chain? = some path) (hw : found? vars path = some w) :
    e.target? vars = some w := by
  rw [target?, hchain, Option.bind_some, hw]

theorem fits_member {subject : Expr} {field : String} {v : Value}
    (h : subject.target? vars = some v) :
    (member subject field).fits vars = (subject.fits vars && v.object?.isSome) := by
  rw [fits, h, Option.bind_some]

theorem fits_index_string {subject : Expr} {text : String} {v : Value}
    (h : subject.target? vars = some v) :
    (index subject (.string text)).fits vars = (subject.fits vars && v.object?.isSome) := by
  rw [fits, h, Option.bind_some]

theorem fits_index_number {subject : Expr} {x : Float} {v : Value}
    (h : subject.target? vars = some v) :
    (index subject (.number x)).fits vars = (subject.fits vars && v.array?.isSome) := by
  rw [fits, h, Option.bind_some]

/-- The value of a chain that leads somewhere: what is there, if every access meets its kind. -/
theorem eval_of_found (hchain : e.chain? = some path) (hw : found? vars path = some w) :
    e.eval (vars.mapValues Value.widen) = .ok (if e.fits vars then w.widen else .null) := by
  induction e using induction_parts generalizing path w with
  | whole e ih =>
    cases e with
    | name n =>
      cases hchain
      obtain ⟨v, hv, hw⟩ := Option.bind_eq_some_iff.1 hw
      cases hw
      rw [eval, Members.get?_mapValues, hv]
      rfl
    | member subject field =>
      obtain ⟨begun, hbegun, rfl⟩ := chain?_member_eq_some hchain
      obtain ⟨v, hv, hchild⟩ := found?_append_singleton hw (ne_nil_of_chain? hbegun)
      rw [eval, ih subject (by simp [parts]) hbegun hv, fits_member (target?_eq hbegun hv)]
      cases subject.fits vars with
      | true => exact congrArg Except.ok (Value.memberOf_widen hchild)
      | false => rfl
    | index subject position =>
      obtain ⟨segment, begun, hsegment, hbegun, rfl⟩ := chain?_index_eq_some hchain
      obtain ⟨v, hv, hchild⟩ := found?_append_singleton hw (ne_nil_of_chain? hbegun)
      rw [eval, ih subject (by simp [parts]) hbegun hv]
      cases position with
      | string text =>
        cases hsegment
        rw [fits_index_string (target?_eq hbegun hv)]
        cases subject.fits vars with
        | true => exact congrArg Except.ok (Value.memberOf_widen hchild)
        | false => rfl
      | number x =>
        rw [fits_index_number (target?_eq hbegun hv), eval, (Value.of_segment?_number hsegment).1]
        cases subject.fits vars with
        | true => exact Value.indexOf_widen hsegment hchild
        | false => rfl
      | _ => cases hsegment
    | _ => cases hchain

/-- A chain without numerals reads from objects only. -/
theorem fits_of_found (hchain : e.chain? = some path) (hw : found? vars path = some w)
    (h : ∀ segment ∈ path.tail, Json.indexOfSegment? segment = none) : e.fits vars = true := by
  induction e using induction_parts generalizing path w with
  | whole e ih =>
    -- the last segment is no numeral, and neither are those before it
    have hstep {subject : Expr} {begun : List String} {segment : String}
        (hsubject : subject ∈ e.parts) (hbegun : subject.chain? = some begun)
        (hpath : path = begun ++ [segment]) : Json.indexOfSegment? segment = none ∧
        ∃ v, subject.target? vars = some v ∧ (subject.fits vars && v.object?.isSome) = true := by
      have hne := ne_nil_of_chain? hbegun
      rw [hpath] at hw h
      rw [List.tail_append_of_ne_nil hne, List.forall_mem_append] at h
      have hsegment := h.2 segment (List.mem_singleton_self segment)
      obtain ⟨v, hv, hchild⟩ := found?_append_singleton hw hne
      have hfits := ih subject hsubject hbegun hv h.1
      refine ⟨hsegment, v, target?_eq hbegun hv, ?_⟩
      rw [hfits, Value.isSome_object?_of_child? hsegment hchild, Bool.true_and]
    cases e with
    | name n => rfl
    | member subject field =>
      obtain ⟨begun, hbegun, hpath⟩ := chain?_member_eq_some hchain
      obtain ⟨-, v, hv, hfits⟩ := hstep (by simp [parts]) hbegun hpath
      rw [fits_member hv, hfits]
    | index subject position =>
      obtain ⟨segment, begun, hsegment, hbegun, hpath⟩ := chain?_index_eq_some hchain
      obtain ⟨hnumeral, v, hv, hfits⟩ := hstep (by simp [parts]) hbegun hpath
      cases position with
      | string text => rw [fits_index_string hv, hfits]
      | number x =>
        obtain ⟨-, -, rfl⟩ := Value.of_segment?_number hsegment
        rw [Json.indexOfSegment?_intText x.toUInt64.toNat_lt] at hnumeral
        cases hnumeral
      | _ => cases hsegment
    | _ => cases hchain

end Expr

variable {vars : Members Value} {e : Expr} {path : List String}

/-- **Present chains.** A chain that is there leads to a value, and it has this value, widened, if
it fits. If it does not fit it is null, and that is another value unless null is what is there. A
chain without numerals always fits. -/
theorem eval_of_isPresent (hchain : e.chain? = some path) (hpresent : isPresent vars path = true) :
    ∃ w, found? vars path = some w ∧
      e.eval (vars.mapValues Value.widen) = .ok (if e.fits vars then w.widen else .null) ∧
      (e.eval (vars.mapValues Value.widen) = .ok w.widen ↔ e.fits vars = true ∨ w = .null) ∧
      ((∀ segment ∈ path.tail, Json.indexOfSegment? segment = none) → e.fits vars = true) := by
  obtain ⟨root, rest, rfl, -⟩ := Expr.exists_root hchain
  obtain ⟨w, hw⟩ := Option.isSome_iff_exists.1 hpresent
  have heval := Expr.eval_of_found hchain hw
  refine ⟨w, hw, heval, ?_, Expr.fits_of_found hchain hw⟩
  rw [heval, Except.ok.injEq]
  cases e.fits vars with
  | true => exact iff_of_true rfl (.inl rfl)
  | false =>
    rw [if_neg Bool.false_ne_true, eq_comm, Value.widen_eq_null_iff]
    exact (or_iff_right Bool.false_ne_true).symm

/-! ## The key zero -/

/-- A list of one number, and an object with one number under the key zero. -/
def numbered : Members Value :=
  [("byKey", .object [("0", .number (.int 1))]), ("list", .array [.number (.int 1)])]

/-- The key zero of the object, as a text. -/
def textOfObject : Expr := .index (.name "byKey") (.string "0")

theorem eval_textOfObject :
    textOfObject.chain? = some ["byKey", "0"] ∧ isPresent numbered ["byKey", "0"] = true ∧
    textOfObject.eval (numbered.mapValues Value.widen) = .ok (.number (.float 1.0)) := by
  have hpresent : isPresent numbered ["byKey", "0"] = true := by decide +kernel
  obtain ⟨w, hw, -, hiff, -⟩ := eval_of_isPresent (e := textOfObject) rfl hpresent
  have hone : found? numbered ["byKey", "0"] = some (.number (.int 1)) := by decide +kernel
  cases hone.symm.trans hw
  have hfits : textOfObject.fits numbered = true := by decide +kernel
  have hwiden : Value.widen (.number (.int 1)) = .number (.float 1.0) := by decide +kernel
  exact ⟨rfl, hpresent, hwiden ▸ hiff.2 (.inl hfits)⟩

/-- The first item of the list, by a text. -/
def textOfList : Expr := .index (.name "list") (.string "0")

/-- The key zero of the object, as a position. -/
def positionOfObject : Expr := .index (.name "byKey") (.number 0.0)

/-- A text that meets a list and a position that meets an object are found and not read, so that the
comparison of either with null holds although a number is there. -/
theorem null_of_present :
    (textOfList.chain? = some ["list", "0"] ∧ isPresent numbered ["list", "0"] = true ∧
      found? numbered ["list", "0"] = some (.number (.int 1)) ∧
      textOfList.eval (numbered.mapValues Value.widen) = .ok .null ∧
      evaluate "list['0'] == null" numbered = true) ∧
    positionOfObject.chain? = some ["byKey", "0"] ∧ isPresent numbered ["byKey", "0"] = true ∧
      found? numbered ["byKey", "0"] = some (.number (.int 1)) ∧
      positionOfObject.eval (numbered.mapValues Value.widen) = .ok .null ∧
      evaluate "byKey[0] == null" numbered = true :=
  ⟨⟨rfl, by decide +kernel, by decide +kernel, rfl, by decide +kernel⟩, by decide +kernel,
    by decide +kernel, by decide +kernel, rfl, by decide +kernel⟩

end Condition

end Workflow
