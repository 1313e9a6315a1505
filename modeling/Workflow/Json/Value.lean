import Workflow.Json.Members
import Workflow.Json.Number

/-!
# JSON values

The dynamic values that flow between steps: step outputs, inputs of handlers, workflow documents.
Two notions of equality are kept apart. `Value.beq` compares as the data model does, with the
equality of doubles; structural equality is decidable as well and tells the two zeros apart.
-/

namespace Workflow.Json

inductive Value where
  | null
  | bool (b : Bool)
  | number (n : Number)
  | string (s : String)
  | array (items : List Value)
  | object (members : List (String × Value))
  deriving Inhabited, Repr

namespace Value

/-! ## Equality -/

mutual

/-- Equality of values, numbers compared by `Number.beq`. -/
def beq : Value → Value → Bool
  | null, null => true
  | bool a, bool b => a == b
  | number m, number n => m.beq n
  | string s, string t => s == t
  | array xs, array ys => beqItems xs ys
  | object ms, object ns => beqMembers ms ns
  | _, _ => false

def beqItems : List Value → List Value → Bool
  | [], [] => true
  | x :: xs, y :: ys => x.beq y && beqItems xs ys
  | _, _ => false

def beqMembers : Members Value → Members Value → Bool
  | [], [] => true
  | (k, x) :: ms, (l, y) :: ns => k == l && x.beq y && beqMembers ms ns
  | _, _ => false

end

instance : BEq Value := ⟨beq⟩

mutual

def decEq : (x y : Value) → Decidable (x = y)
  | null, null => isTrue rfl
  | bool a, bool b => decidable_of_iff (a = b) (by simp)
  | number m, number n => decidable_of_iff (m = n) (by simp)
  | string s, string t => decidable_of_iff (s = t) (by simp)
  | array xs, array ys =>
    have := decEqItems xs ys
    decidable_of_iff (xs = ys) (by simp)
  | object ms, object ns =>
    have := decEqMembers ms ns
    decidable_of_iff (ms = ns) (by simp)
  | null, bool _ | null, number _ | null, string _ | null, array _ | null, object _
  | bool _, null | bool _, number _ | bool _, string _ | bool _, array _ | bool _, object _
  | number _, null | number _, bool _ | number _, string _ | number _, array _
  | number _, object _ | string _, null | string _, bool _ | string _, number _
  | string _, array _ | string _, object _ | array _, null | array _, bool _ | array _, number _
  | array _, string _ | array _, object _ | object _, null | object _, bool _
  | object _, number _ | object _, string _ | object _, array _ => isFalse nofun

def decEqItems : (xs ys : List Value) → Decidable (xs = ys)
  | [], [] => isTrue rfl
  | [], _ :: _ => isFalse nofun
  | _ :: _, [] => isFalse nofun
  | x :: xs, y :: ys =>
    have := decEq x y
    have := decEqItems xs ys
    decidable_of_iff (x = y ∧ xs = ys) (by simp)

def decEqMembers : (ms ns : Members Value) → Decidable (ms = ns)
  | [], [] => isTrue rfl
  | [], _ :: _ => isFalse nofun
  | _ :: _, [] => isFalse nofun
  | (k, x) :: ms, (l, y) :: ns =>
    have := decEq x y
    have := decEqMembers ms ns
    decidable_of_iff (k = l ∧ x = y ∧ ms = ns) (by simp [and_assoc])

end

instance : DecidableEq Value := decEq

/-! ## Views -/

def string? : Value → Option String
  | string s => some s
  | _ => none

def number? : Value → Option Number
  | number n => some n
  | _ => none

def array? : Value → Option (List Value)
  | array xs => some xs
  | _ => none

def object? : Value → Option (Members Value)
  | object ms => some ms
  | _ => none

def isNull : Value → Bool
  | null => true
  | _ => false

def member? (name : String) : Value → Option Value
  | object ms => Members.get? name ms
  | _ => none

/-- A number that counts something. -/
def ofNat (n : Nat) : Value := number (.int n)

mutual

/-- The value with the members of every object in ascending order, the last one of each name. -/
def normalize : Value → Value
  | array xs => array (normalizeItems xs)
  | object ms => object (Members.ofList (normalizeMembers ms))
  | v => v

def normalizeItems : List Value → List Value
  | [] => []
  | x :: xs => x.normalize :: normalizeItems xs

def normalizeMembers : Members Value → Members Value
  | [] => []
  | (k, x) :: ms => (k, x.normalize) :: normalizeMembers ms

end

end Value

/-- A member that is written only when there is a value. -/
def optionalMember (name : String) (s : Option String) : List (String × Value) :=
  (s.map fun s ↦ (name, Value.string s)).toList

end Workflow.Json
