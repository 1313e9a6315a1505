import Workflow.Bits
import Workflow.Date
import Workflow.Decimal.Nearest
import Workflow.Text.Digits
import Workflow.Text.Split
import Workflow.Toml.Value

/-!
# Scalars without quotes

A scalar that is not a string is one run of characters, read as a whole: a truth value, an integer
in base ten, sixteen, eight or two, a double, or a date, a time or both. Underscores may stand
between two digits of a number, and a number in base ten has no zeros in front.
-/

namespace Workflow.Toml.Scalar

/-- The digits of a number without the underscores between them. -/
def ungrouped? (s : List Char) : Option (List Char) :=
  let groups := Text.splitOn '_' s
  if groups.any List.isEmpty then none else some groups.flatten

/-! ## Integers -/

/-- The digits of a number in base ten, none of them a zero in front. -/
def plainDigits? (s : List Char) : Option (List Char) := do
  let digits ← ungrouped? s
  if !digits.all Char.isDigit then none
  match digits with
  | '0' :: _ :: _ => none
  | digits => some digits

/-- The integer that a text spells, of 64 bits. Only base ten has signs. -/
def integer? (s : List Char) : Option Int := do
  let n : Int ←
    match s with
    | '0' :: 'x' :: r => do pure ((← Text.digits? 16 (← ungrouped? r)) : Int)
    | '0' :: 'o' :: r => do pure ((← Text.digits? 8 (← ungrouped? r)) : Int)
    | '0' :: 'b' :: r => do pure ((← Text.digits? 2 (← ungrouped? r)) : Int)
    | s => do
      let (negative, r) := Text.signed s
      let n : Int := ← Text.digits? 10 (← plainDigits? r)
      pure (if negative then -n else n)
  if Bits.fitsSigned 64 n then some n else none

/-! ## Doubles -/

/-- The digits of a number, zeros in front included. -/
def anyDigits? (s : List Char) : Option (List Char) := do
  let digits ← ungrouped? s
  if digits.all Char.isDigit then some digits else none

/-- A text up to the first character of a class, and what follows that character, if there is
one. -/
def cutAt (p : Char → Bool) (s : List Char) : List Char × Option (List Char) :=
  match s.dropWhile fun c ↦ !p c with
  | [] => (s, none)
  | _ :: r => (s.takeWhile fun c ↦ !p c, some r)

/-- The double that a text spells; it has a point, an exponent or both. -/
def decimal? (s : List Char) : Option Float := do
  let (mantissa, exponent) := cutAt (fun c ↦ c == 'e' || c == 'E') s
  let (whole, fraction) := cutAt (· == '.') mantissa
  if exponent.isNone && fraction.isNone then none
  let whole ← plainDigits? whole
  let fraction ← match fraction with
    | none => some []
    | some f => anyDigits? f
  let exponent : Int ← match exponent with
    | none => some 0
    | some e => do
      let (negative, r) := Text.signed e
      let n : Int := ← Text.digits? 10 (← anyDigits? r)
      some (if negative then -n else n)
  return Decimal.nearest (← Text.digits? 10 (whole ++ fraction)) (exponent - fraction.length)

/-- The double that a text spells, with its sign. Positive numbers have to be in the range of
doubles. -/
def float? (s : List Char) : Option Float := do
  let (negative, r) := Text.signed s
  let x ← match String.ofList r with
    | "inf" => some (1.0 / 0.0)
    | "nan" => some (0.0 / 0.0)
    | _ => do
      let x ← decimal? r
      if x.isInf && !negative then none else some x
  return if negative then -x else x

/-! ## Dates and times -/

/-- A number of exactly `width` digits in a range, and the rest. -/
def fixed? (width low high : Nat) (s : List Char) : Option (Nat × List Char) := do
  if (s.take width).length != width || !(s.take width).all Char.isDigit then none
  let n ← Text.digits? 10 (s.take width)
  if low ≤ n ∧ n ≤ high then some (n, s.drop width) else none

/-- A text after one character. -/
def after? (c : Char) : List Char → Option (List Char)
  | d :: s => if d = c then some s else none
  | [] => none

/-- A text after a date. -/
def date? (s : List Char) : Option (List Char) := do
  let (year, s) ← fixed? 4 0 9999 s
  let (month, s) ← fixed? 2 1 12 (← after? '-' s)
  let (day, s) ← fixed? 2 1 31 (← after? '-' s)
  if (⟨year, month, day⟩ : Date).IsDay then some s else none

/-- A text after a time of day. A minute may have a leap second. -/
def time? (s : List Char) : Option (List Char) := do
  let (_, s) ← fixed? 2 0 23 s
  let (_, s) ← fixed? 2 0 59 (← after? ':' s)
  let (_, s) ← fixed? 2 0 60 (← after? ':' s)
  match s with
  | '.' :: c :: s => if c.isDigit then some (s.dropWhile Char.isDigit) else none
  | '.' :: [] => none
  | s => some s

/-- A text after an offset from universal time, if it starts with one. -/
def offset? : List Char → Option (List Char)
  | 'Z' :: s | 'z' :: s => some s
  | '+' :: s | '-' :: s => do
    let (_, s) ← fixed? 2 0 23 s
    let (_, s) ← fixed? 2 0 59 (← after? ':' s)
    return s
  | s => some s

/-- Whether a text is a date. -/
def isDate (s : List Char) : Bool := date? s == some []

/-- Whether a text is a time of day, with an offset from universal time or without. -/
def isTime (s : List Char) : Bool := (time? s).bind offset? == some []

/-- Whether a text is a date, a time of day, or a date and a time with a letter between them. -/
def isMoment (s : List Char) : Bool :=
  time? s == some [] ||
    match date? s with
    | some [] => true
    | some ('T' :: r) | some ('t' :: r) => isTime r
    | _ => false

/-- The value that a run of characters spells. -/
def ofRun? (s : List Char) : Option Value :=
  match String.ofList s with
  | "true" => some (.boolean true)
  | "false" => some (.boolean false)
  | text =>
    if isMoment s then some (.moment text)
    else
      match integer? s with
      | some n => some (.integer n)
      | none => (float? s).map .float

end Workflow.Toml.Scalar
