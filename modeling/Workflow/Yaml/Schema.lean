import Workflow.Decimal.Nearest
import Workflow.Json.Value
import Workflow.Text.Digits

/-!
# The types of scalars

A scalar without quotes and without a tag is read by its spelling: as null, a truth value, an
integer, a double, or else as a string. Integers may be written in base ten, sixteen, eight or two;
one that starts with a zero and has more digits is a string. The tags of the four types other than
strings ask for that type.
-/

namespace Workflow.Yaml.Schema

open Json (Value)

def isNull (s : String) : Bool := s == "null" || s == "Null" || s == "NULL" || s == "~"

def bool? (s : String) : Option Bool :=
  if s == "true" || s == "True" || s == "TRUE" then some true
  else if s == "false" || s == "False" || s == "FALSE" then some false
  else none

/-! ## Integers -/

/-- Whether a text is a number with a leading zero, such as `007`. -/
def isPadded (s : List Char) : Bool :=
  match (Text.signed s).2 with
  | '0' :: c :: r => (c :: r).all Char.isDigit
  | _ => false

/-- The magnitude that a text without a sign spells in one of the four bases. -/
def magnitude? : List Char → Option Nat
  | '0' :: 'x' :: s => Text.digits? 16 s
  | '0' :: 'o' :: s => Text.digits? 8 s
  | '0' :: 'b' :: s => Text.digits? 2 s
  | s => Text.digits? 10 s

def int? (s : List Char) : Option Int := do
  if isPadded s then none
  let (negative, r) := Text.signed s
  let n ← magnitude? r
  return if negative then -n else n

/-! ## Doubles -/

/-- The magnitude of a decimal with digits on at least one side of its point, and an exponent. -/
def decimal? (s : List Char) : Option Float := do
  let whole := s.takeWhile Char.isDigit
  let rest := s.dropWhile Char.isDigit
  let (fraction, rest) :=
    match rest with
    | '.' :: r => (r.takeWhile Char.isDigit, r.dropWhile Char.isDigit)
    | r => ([], r)
  let significand ← Text.digits? 10 (whole ++ fraction)
  let exponent ←
    match rest with
    | [] => some (0 : Int)
    | e :: r => do
      if !(e == 'e' || e == 'E') then none
      let (negative, r) := Text.signed r
      let n ← Text.digits? 10 r
      some (if negative then -(n : Int) else n)
  return Decimal.nearest significand (exponent - fraction.length)

/-- The double that a text spells; there are three spellings each of an infinity and of the value
that is no number. -/
def float? (s : List Char) : Option Float :=
  let (negative, r) := Text.signed s
  let text := String.ofList r
  if text == ".inf" || text == ".Inf" || text == ".INF" then
    some (if negative then -1.0 / 0.0 else 1.0 / 0.0)
  else if text == ".nan" || text == ".NaN" || text == ".NAN" then
    if s == r then some (0.0 / 0.0) else none
  else do
    let x ← decimal? r
    if x.isInf then none else some (if negative then -x else x)

/-! ## Values -/

/-- An integer as a value, unless it has more than 64 bits. -/
def intValue? (n : Int) : Option Value :=
  if Json.Number.isExact n then some (.number (.int n)) else none

/-- A double as a value; there is null in place of one that is not finite. -/
def floatValue (x : Float) : Value :=
  if x.isNaN || x.isInf then .null else .number (.float x)

/-- Whether an integer has too many bits for a value but is still taken for one, of 128 bits. -/
def isWide (n : Int) : Bool :=
  !Json.Number.isExact n && (Bits.fitsSigned 128 n || Bits.fitsUnsigned 128 n)

/-- The value of a scalar by its spelling alone. -/
def plain? (text : String) : Option Value :=
  let s := text.toList
  if s.isEmpty || isNull text then some .null
  else
    match bool? text with
    | some b => some (.bool b)
    | none =>
      match (int? s).filter fun n ↦ Json.Number.isExact n || isWide n with
      | some n => intValue? n
      | none =>
        if isPadded s then some (.string text)
        else some (((float? s).map floatValue).getD (.string text))

/-- The value of a scalar. Tags of an application have no meaning here; those of the standard that
name no type of their own make it a string. -/
def scalar? (tag : Option String) (isPlain : Bool) (text : String) : Option Value :=
  match tag with
  | none => if isPlain then plain? text else some (.string text)
  | some tag =>
    if tag == "tag:yaml.org,2002:bool" then (bool? text).map .bool
    else if tag == "tag:yaml.org,2002:int" then (int? text.toList).bind intValue?
    else if tag == "tag:yaml.org,2002:float" then (float? text.toList).map floatValue
    else if tag == "tag:yaml.org,2002:null" then if isNull text then some .null else none
    else if tag.toList.head? == some '!' then none
    else some (.string text)

end Workflow.Yaml.Schema
