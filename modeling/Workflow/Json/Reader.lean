import Workflow.Json.Value
import Workflow.Text.Digits

/-!
# Reading JSON text

`Value.parse?` reads one document and nothing after it. Members come out as they stood in the text,
repeated names included, since some readers refuse repetitions; `Value.normalize` sorts them.
Arrays and objects nest up to 127 deep.

Every function takes the text still to be read and returns what is left of it.
-/

namespace Workflow.Json.Reader

/-- Drops the blanks between tokens: space, tab and the two line break characters. -/
def skipSpace (s : List Char) : List Char :=
  s.dropWhile fun c ↦ c == ' ' || c == '\n' || c == '\t' || c == '\r'

/-! ## Numbers -/

def digitValue (c : Char) : Nat := c.toNat - '0'.toNat

/-- Appends digits to a significand as long as it fits 64 bits. -/
def absorb (significand : Nat) : List Char → Nat × List Char
  | [] => (significand, [])
  | c :: cs =>
    let next := 10 * significand + digitValue c
    if next < Bits.count 64 then absorb next cs else (significand, c :: cs)

/-- The double `10 ^ n`. -/
def powerOfTen (n : Nat) : Float := Float.ofScientific 1 false n

/-- The double `x * 10 ^ exponent`, rounded after each of at most four multiplications or divisions
by a power of ten; `none` above the range of doubles. -/
def scale (x : Float) (exponent : Int) : Nat → Option Float
  | 0 => some 0.0
  | rounds + 1 =>
    if exponent.natAbs ≤ 308 then
      if 0 ≤ exponent then
        let y := x * powerOfTen exponent.natAbs
        if y.isInf then none else some y
      else some (x / powerOfTen exponent.natAbs)
    else if x == 0.0 then some x
    else if 0 ≤ exponent then none
    else scale (x / powerOfTen 308) (exponent + 308) rounds

/-- The double written as whole digits, digits after the point and an exponent. As many leading
digits as fit 64 bits make the significand. -/
def assemble (negative : Bool) (whole fraction : List Char) (exponent : Int) : Option Number := do
  let (high, surplus) := absorb 0 whole
  let (significand, left) := absorb high fraction
  let exponent := exponent + surplus.length - (fraction.length - left.length : Nat)
  let magnitude ← scale (Float.ofNat significand) exponent 5
  return .float (if negative then -magnitude else magnitude)

/-- The decimal digits a text starts with. -/
def spanDigits (s : List Char) : List Char × List Char :=
  (s.takeWhile Char.isDigit, s.dropWhile Char.isDigit)

/-- The exponent after an `e`, and the rest. -/
def exponent? (s : List Char) : Option (Int × List Char) :=
  let (negative, s) :=
    match s with
    | '-' :: r => (true, r)
    | '+' :: r => (false, r)
    | r => (false, r)
  let (digits, rest) := spanDigits s
  if digits.isEmpty then none
  else
    let n := digits.foldl (fun acc c ↦ 10 * acc + digitValue c) 0
    some (if negative then -n else n, rest)

/-- A number without its sign. -/
def unsigned? (negative : Bool) (s : List Char) : Option (Number × List Char) := do
  let (whole, rest) := spanDigits s
  if whole.isEmpty then none
  if whole.head? == some '0' && whole.length != 1 then none
  let (fraction, rest, pointed) ←
    match rest with
    | '.' :: r =>
      let (digits, r) := spanDigits r
      if digits.isEmpty then none else pure (digits, r, true)
    | r => pure ([], r, false)
  let (exponent, rest, scaled) ←
    match rest with
    | 'e' :: r | 'E' :: r => (exponent? r).map fun (e, r) ↦ (e, r, true)
    | r => pure (0, r, false)
  let n := whole.foldl (fun acc c ↦ 10 * acc + digitValue c) 0
  if pointed || scaled then return (← assemble negative whole fraction exponent, rest)
  else if negative then
    -- Minus zero is a double, as no integer can hold its sign.
    if 0 < n && n ≤ Bits.count 63 then return (.int (-n), rest)
    else return (← assemble true whole [] 0, rest)
  else if n < Bits.count 64 then return (.int n, rest)
  else return (← assemble false whole [] 0, rest)

def number? : List Char → Option (Number × List Char)
  | '-' :: s => unsigned? true s
  | s => unsigned? false s

/-! ## Strings -/

def hex4? : List Char → Option (Nat × List Char)
  | a :: b :: c :: d :: s => do
    let n := 4096 * (← Text.hexValue? a) + 256 * (← Text.hexValue? b) +
      16 * (← Text.hexValue? c) + (← Text.hexValue? d)
    return (n, s)
  | _ => none

/-- The character of a `\u` escape; two escapes make one character outside the basic plane. -/
def unicodeEscape? (s : List Char) : Option (Char × List Char) := do
  let (n, s) ← hex4? s
  if 0xD800 ≤ n ∧ n < 0xDC00 then
    match s with
    | '\\' :: 'u' :: s =>
      let (m, s) ← hex4? s
      if 0xDC00 ≤ m ∧ m < 0xE000 then
        return (Char.ofNat (0x10000 + (n - 0xD800) * 1024 + (m - 0xDC00)), s)
      else none
    | _ => none
  else if 0xDC00 ≤ n ∧ n < 0xE000 then none
  else return (Char.ofNat n, s)

/-- The character of an escape, after its backslash. -/
def escape? : List Char → Option (Char × List Char)
  | '"' :: s => some ('"', s)
  | '\\' :: s => some ('\\', s)
  | '/' :: s => some ('/', s)
  | 'b' :: s => some (Char.ofNat 8, s)
  | 'f' :: s => some (Char.ofNat 12, s)
  | 'n' :: s => some ('\n', s)
  | 'r' :: s => some ('\r', s)
  | 't' :: s => some ('\t', s)
  | 'u' :: s => unicodeEscape? s
  | _ => none

/-- The characters of a string after its opening quote. The fuel is any bound on their number. -/
def stringBody? : Nat → List Char → Option (List Char × List Char)
  | 0, _ => none
  | _ + 1, '"' :: s => some ([], s)
  | fuel + 1, '\\' :: s => do
    let (c, s) ← escape? s
    let (cs, s) ← stringBody? fuel s
    return (c :: cs, s)
  | fuel + 1, c :: s =>
    if c.toNat < 32 then none
    else do
      let (cs, s) ← stringBody? fuel s
      return (c :: cs, s)
  | _ + 1, [] => none

/-- A string after its opening quote. -/
def string? (s : List Char) : Option (String × List Char) :=
  (stringBody? (s.length + 1) s).map fun (cs, rest) ↦ (String.ofList cs, rest)

/-! ## Values -/

mutual

/-- A value. The fuel bounds the number of tokens, the depth the nesting. -/
def value? : Nat → Nat → List Char → Option (Value × List Char)
  | 0, _, _ => none
  | fuel + 1, depth, s =>
    match skipSpace s with
    | 'n' :: 'u' :: 'l' :: 'l' :: r => some (.null, r)
    | 't' :: 'r' :: 'u' :: 'e' :: r => some (.bool true, r)
    | 'f' :: 'a' :: 'l' :: 's' :: 'e' :: r => some (.bool false, r)
    | '"' :: r => (string? r).map fun (t, r) ↦ (.string t, r)
    | '[' :: r =>
      match depth with
      | 0 => none
      | depth + 1 =>
        match skipSpace r with
        | ']' :: r => some (.array [], r)
        | r => (items? fuel depth r).map fun (xs, r) ↦ (.array xs, r)
    | '\x7b' :: r =>
      match depth with
      | 0 => none
      | depth + 1 =>
        match skipSpace r with
        | '\x7d' :: r => some (.object [], r)
        | r => (members? fuel depth r).map fun (ms, r) ↦ (.object ms, r)
    | r => (number? r).map fun (n, r) ↦ (.number n, r)

/-- The items of an array up to and with its closing bracket. -/
def items? : Nat → Nat → List Char → Option (List Value × List Char)
  | 0, _, _ => none
  | fuel + 1, depth, s => do
    let (x, r) ← value? fuel depth s
    match skipSpace r with
    | ']' :: r => return ([x], r)
    | ',' :: r =>
      let (xs, r) ← items? fuel depth r
      return (x :: xs, r)
    | _ => none

/-- The members of an object up to and with its closing brace. -/
def members? : Nat → Nat → List Char → Option (Members Value × List Char)
  | 0, _, _ => none
  | fuel + 1, depth, s =>
    match skipSpace s with
    | '"' :: r => do
      let (k, r) ← string? r
      match skipSpace r with
      | ':' :: r =>
        let (x, r) ← value? fuel depth r
        match skipSpace r with
        | '\x7d' :: r => return ([(k, x)], r)
        | ',' :: r =>
          let (ms, r) ← members? fuel depth r
          return ((k, x) :: ms, r)
        | _ => none
      | _ => none
    | _ => none

end

end Workflow.Json.Reader

namespace Workflow.Json

/-- Reads a document; members keep the order and the repetitions of the text. -/
def Value.parse? (text : String) : Option Value := do
  let s := text.toList
  let (v, rest) ← Reader.value? (2 * s.length + 2) 127 s
  if (Reader.skipSpace rest).isEmpty then some v else none

end Workflow.Json
