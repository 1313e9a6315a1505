import Workflow.Date
import Workflow.Json.Decode
import Workflow.Json.Reader
import Workflow.Text.Blank

/-!
# Points in time

A point in time is kept in universal time, to the nanosecond. A leap second is the sixtieth second
of its minute; it is kept as a second whose nanoseconds go on past a billion.

`Instant.ofText` reads the notation of timestamps with some freedom: numbers may be shorter than
their usual width, blanks may stand around them, and a blank or a small letter may separate the day
from the time. The offset from universal time is required. `Instant.text` writes the one strict
form, with three, six or nine decimals or none.
-/

namespace Workflow

/-- A point in time. -/
structure Instant where
  date : Date
  /-- The seconds since midnight. -/
  second : Nat
  /-- The nanoseconds in the second, a billion more in a leap second. -/
  nanosecond : Nat := 0
  deriving DecidableEq, Repr

namespace Instant

/-- The seconds of a day. -/
def dayLength : Nat := 86400

def giga : Nat := 1000000000

/-- The point in time a number of milliseconds after the beginning of 1970. -/
def ofMilliseconds (n : Nat) : Instant where
  date := Nat.repeat Date.next (n / 1000 / dayLength) ⟨1970, 1, 1⟩
  second := n / 1000 % dayLength
  nanosecond := n % 1000 * 1000000

/-! ## Writing -/

/-- The decimal digits of a number, filled up with zeros to a width. -/
def padded (width n : Nat) : String :=
  let digits := Nat.toDigits 10 n
  String.ofList (List.replicate (width - digits.length) '0' ++ digits)

/-- A year: four digits, or a sign and at least four digits outside of those. -/
def yearText (year : Int) : String :=
  if 0 ≤ year ∧ year ≤ 9999 then padded 4 year.toNat
  else (if year < 0 then "-" else "+") ++ padded 4 year.natAbs

/-- The decimals of a second, as many groups of three as there have to be. -/
def decimals (nanosecond : Nat) : String :=
  if nanosecond = 0 then ""
  else if nanosecond % 1000000 = 0 then "." ++ padded 3 (nanosecond / 1000000)
  else if nanosecond % 1000 = 0 then "." ++ padded 6 (nanosecond / 1000)
  else "." ++ padded 9 nanosecond

def text (t : Instant) : String :=
  let leap := if t.nanosecond < giga then 0 else 1
  yearText t.date.year ++ "-" ++ padded 2 t.date.month ++ "-" ++ padded 2 t.date.day ++ "T" ++
    padded 2 (t.second / 3600) ++ ":" ++ padded 2 (t.second / 60 % 60) ++ ":" ++
    padded 2 (t.second % 60 + leap) ++ decimals (t.nanosecond - leap * giga) ++ "Z"

/-! ## Reading -/

/-- Why a text is no point in time. -/
inductive Malformed where
  | outOfRange
  | impossible
  | badCharacter
  | tooShort
  | tooLong
  deriving DecidableEq, Repr

def Malformed.message : Malformed → String
  | outOfRange => "input is out of range"
  | impossible => "no possible date and time matching input"
  | badCharacter => "input contains invalid characters"
  | tooShort => "premature end of input"
  | tooLong => "trailing input"

/-- Reads a part of a text and leaves the rest. -/
abbrev Reader (α : Type) := List Char → Except Malformed (α × List Char)

namespace Reader

/-- The largest number that is read at all. -/
def largest : Nat := Bits.count 63 - 1

/-- At least one digit and at most `width`, if there is a limit. -/
def digits (width : Option Nat) : Reader Nat := fun s ↦
  let run := s.takeWhile Char.isDigit
  let run := match width with
    | some w => run.take w
    | none => run
  match s, run with
  | [], _ => .error .tooShort
  | _ :: _, [] => .error .badCharacter
  | s, run =>
    let n := run.foldl (fun n c ↦ 10 * n + Json.Reader.digitValue c) 0
    if n ≤ largest then .ok (n, s.drop run.length) else .error .outOfRange

/-- A number in a range, after any blanks. -/
def field (low high : Nat) : Reader Nat := fun s ↦ do
  let (n, s) ← digits (some 2) (Text.trimStart s)
  if low ≤ n ∧ n ≤ high then return (n, s) else throw .outOfRange

/-- A year, after any blanks. With a sign it may have any number of digits. -/
def year : Reader Int := fun s ↦ do
  let (y, s) ← match Text.trimStart s with
    | '-' :: s => (digits none s).map fun (n, s) ↦ (-(n : Int), s)
    | '+' :: s => (digits none s).map fun (n, s) ↦ ((n : Int), s)
    | s => (digits (some 4) s).map fun (n, s) ↦ ((n : Int), s)
  if Bits.fitsSigned 32 y then return (y, s) else throw .outOfRange

/-- One character, after any blanks. -/
def mark (c : Char) : Reader Unit := fun s ↦
  match Text.trimStart s with
  | [] => .error .tooShort
  | d :: s => if d = c then .ok ((), s) else .error .badCharacter

/-- What separates the day from the time. -/
def separator : Reader Unit
  | [] => .error .tooShort
  | c :: s => if c = 'T' ∨ c = 't' ∨ c = ' ' then .ok ((), s) else .error .badCharacter

/-- Decimals, in nanoseconds. Those after the ninth are dropped. -/
def fraction : Reader Nat
  | '.' :: s => do
    let (n, rest) ← digits (some 9) s
    return (n * Nat.pow 10 (9 - (s.length - rest.length)), rest.dropWhile Char.isDigit)
  | s => .ok (0, s)

/-- Two digits, of which the first is below a bound; above it they are out of range. -/
def twoDigits (bound : Nat) : Reader Nat
  | [] => .error .tooShort
  | [c] => .error (if c.toNat < 128 then .tooShort else .badCharacter)
  | c :: d :: s =>
    if c.isDigit ∧ d.isDigit then
      if Json.Reader.digitValue c < bound then
        .ok (10 * Json.Reader.digitValue c + Json.Reader.digitValue d, s)
      else .error .outOfRange
    else .error .badCharacter

/-- An offset from universal time, in seconds. -/
def offset : Reader Int := fun s ↦
  let signed (negative : Bool) (s : List Char) : Except Malformed (Int × List Char) := do
    let (hours, s) ← twoDigits 10 s
    let (minutes, s) ← twoDigits 6 (s.dropWhile fun c ↦ c == ':' || Text.isBlank c)
    let seconds : Int := (hours * 3600 + minutes * 60 : Nat)
    return (if negative then -seconds else seconds, s)
  match s with
  | 'Z' :: s | 'z' :: s => .ok (0, s)
  | '+' :: s => signed false s
  | '-' :: s | '−' :: s => signed true s
  | [] => .error .tooShort
  | u :: t :: c :: s =>
    if [u, t, c].map Char.toUpper == ['U', 'T', 'C'] then .ok (0, s) else .error .badCharacter
  | _ :: _ => .error .badCharacter

end Reader

/-- The first and the last year of the calendar. -/
def years : Int × Int := (-262143, 262142)

/-- The point in time of a day and a time of day at an offset from universal time. -/
def ofLocal (d : Date) (second nanosecond : Nat) (offset : Int) : Except Malformed Instant :=
  let inYears (d : Date) : Bool := years.1 ≤ d.year && d.year ≤ years.2
  if ¬ d.IsDay ∨ ¬ inYears d then .error .outOfRange
  else if (dayLength : Int) ≤ offset.natAbs then .error .outOfRange
  else
    let universal := (second : Int) - offset
    let d :=
      if universal < 0 then d.previous
      else if (dayLength : Int) ≤ universal then d.next
      else d
    if inYears d then .ok ⟨d, (universal % dayLength).toNat, nanosecond⟩ else .error .impossible

def ofText (s : String) : Except Malformed Instant := do
  let (year, s) ← Reader.year s.toList
  let (_, s) ← Reader.mark '-' s
  let (month, s) ← Reader.field 1 12 s
  let (_, s) ← Reader.mark '-' s
  let (day, s) ← Reader.field 1 31 s
  let (_, s) ← Reader.separator s
  let (hour, s) ← Reader.field 0 23 s
  let (_, s) ← Reader.mark ':' s
  let (minute, s) ← Reader.field 0 59 s
  let (_, s) ← Reader.mark ':' s
  let (second, s) ← Reader.field 0 60 s
  let (nanosecond, s) ← Reader.fraction s
  let (offset, s) ← Reader.offset (Text.trimStart s)
  if !(Text.trimStart s).isEmpty then throw .tooLong
  let leap := if second = 60 then 1 else 0
  ofLocal ⟨year, month, day⟩ (3600 * hour + 60 * minute + second - leap) (nanosecond + leap * giga)
    offset

def decode : Json.Decoder Instant
  | .string s => (ofText s).mapError fun e ↦ .unreadable e.message
  | v => .error (.wrongKind v "an RFC 3339 formatted date and time string")

end Instant

end Workflow
