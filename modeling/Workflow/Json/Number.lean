import Workflow.Decimal.Shortest

/-!
# Numbers of JSON documents

A number is an integer of 64 bits, signed or unsigned, or a double. The two kinds are kept apart:
`1` and `1.0` are different numbers with different texts, though they widen to the same double.
-/

namespace Workflow.Json

/-- A number of a document. -/
inductive Number where
  | int (n : Int)
  | float (x : Float)
  deriving DecidableEq, Repr

namespace Number

/-- The integers that stay exact: those of 64 bits, signed or unsigned. -/
def isExact (n : Int) : Bool := Bits.fitsSigned 64 n || Bits.fitsUnsigned 64 n

/-- An integer as a number, widened to a double when it is out of the exact range. -/
def ofInt (n : Int) : Number := if isExact n then int n else float (Float.ofInt n)

/-- The double nearest to a number. -/
def toFloat : Number → Float
  | int n => Float.ofInt n
  | float x => x

/-- The value of an integer that is not negative. -/
def toNat? : Number → Option Nat
  | int n => if 0 ≤ n then some n.toNat else none
  | float _ => none

/-- Equality as numbers of one kind; zero has two doubles that are equal. -/
def beq : Number → Number → Bool
  | int m, int n => m == n
  | float x, float y => x == y
  | _, _ => false

/-! ## Text -/

/-- How a format writes doubles: with a point from one power of ten up to, not including, another,
and with an exponent outside that range, which may have a plus sign. -/
structure FloatFormat where
  leastPositional : Int
  leastExponential : Int
  plusSign : Bool

/-- JSON text has doubles below `10 ^ -5` and from `10 ^ 16` on with an exponent and its sign. -/
def floatFormat : FloatFormat := ⟨-5, 16, true⟩

private def exponentText (format : FloatFormat) (e : Int) : List Char :=
  (if e < 0 then ['-'] else if format.plusSign then ['+'] else []) ++
    Decimal.Scientific.digitsOf e.natAbs

/-- The text of a positive decimal; an integral value keeps one zero after the point. -/
def decimalText (format : FloatFormat) (d : Decimal.Scientific) : List Char :=
  let k := d.exponent
  if format.leastPositional ≤ k && k < format.leastExponential then
    if k < 0 then
      '0' :: '.' :: (List.replicate (-k - 1).toNat '0' ++ d.digits)
    else
      let whole := k.toNat + 1
      let point := d.digits.take whole ++ List.replicate (whole - d.digits.length) '0'
      let rest := d.digits.drop whole
      point ++ '.' :: (if rest.isEmpty then ['0'] else rest)
  else
    match d.digits with
    | [] => []
    | first :: rest =>
      first :: (if rest.isEmpty then [] else '.' :: rest) ++ 'e' :: exponentText format k

/-- The text of a double. A document holds no infinite double; such a value is written as `null`. -/
def floatText (format : FloatFormat) (x : Float) : List Char :=
  match Decimal.Binary64.ofFloat x with
  | none => "null".toList
  | some b =>
    let magnitude :=
      if b.mantissa = 0 then "0.0".toList
      else decimalText format (Decimal.Scientific.ofBinary b.mantissa b.exponent b.atBinade)
    if b.negative then '-' :: magnitude else magnitude

def intText (n : Int) : List Char :=
  if n < 0 then '-' :: Decimal.Scientific.digitsOf n.natAbs
  else Decimal.Scientific.digitsOf n.natAbs

def text : Number → String
  | int n => String.ofList (intText n)
  | float x => String.ofList (floatText floatFormat x)

end Number

end Workflow.Json
