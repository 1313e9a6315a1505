import Workflow.Bits

/-!
# Doubles as exact binary numbers

`Binary64.ofFloat` reads a finite double as `mantissa * 2 ^ exponent` with a sign, which is what
the exact arithmetic of this library works on. `remainder` is the remainder of a division whose
quotient is truncated, computed without any rounding; of `floor` and `power` the cases of zeros and
infinities are spelled out.
-/

namespace Workflow.Decimal

/-- The exact value `± mantissa * 2 ^ exponent` of a finite double. -/
structure Binary64 where
  negative : Bool
  mantissa : Nat
  exponent : Int
  /-- Whether the next double towards zero is only half as far away as the next one outwards. -/
  atBinade : Bool
  deriving DecidableEq, Repr

namespace Binary64

/-- The exact value of a double, or `none` for an infinity and for a value that is no number. -/
def ofFloat (x : Float) : Option Binary64 :=
  let bits : Nat := x.toBits.toNat
  let fraction : Nat := bits % Bits.count 52
  let biased : Nat := bits / Bits.count 52 % Bits.count 11
  let negative := bits / Bits.count 63 == 1
  if biased = 2047 then none
  else if biased = 0 then some ⟨negative, fraction, -1074, false⟩
  else some ⟨negative, Bits.count 52 + fraction, (biased : Int) - 1075, fraction == 0 && 1 < biased⟩

/-- Both mantissas over the smaller of the two exponents. -/
private def aligned (x y : Binary64) : Nat × Nat × Int :=
  let low := min x.exponent y.exponent
  (x.mantissa <<< (x.exponent - low).toNat, y.mantissa <<< (y.exponent - low).toNat, low)

/-- The double nearest to `mantissa * 2 ^ exponent`, for a mantissa below `2 ^ 53`. -/
private def toFloat (negative : Bool) (mantissa : Nat) (exponent : Int) : Float :=
  let magnitude := Float.scaleB (Float.ofNat mantissa) exponent
  if negative then -magnitude else magnitude

end Binary64

/-! ## Operations -/

/-- The remainder `x - n * y` with `n` the quotient `x / y` cut towards zero; it takes the sign of
`x` and is exact. No number comes out when `x` is infinite or `y` is zero. -/
def remainder (x y : Float) : Float :=
  if y == 0.0 then 0.0 / 0.0
  else if x == 0.0 then if y.isNaN then y else x
  else
    match Binary64.ofFloat x, Binary64.ofFloat y with
    | some a, some b =>
      let (m, n, low) := a.aligned b
      Binary64.toFloat a.negative (m % n) low
    | some _, none => if y.isNaN then y else x
    | none, _ => 0.0 / 0.0

/-- The greatest whole number that is not above a double. A zero keeps its sign, and what is not
finite stays as it is. -/
def floor (x : Float) : Float := if x == 0.0 || !x.isFinite then x else x.floor

/-- Whether a double is an odd whole number. -/
def isOdd (x : Float) : Bool := floor x == x && floor (x / 2.0) != x / 2.0

/-- A power. Every zeroth power is one, and an odd power of a zero has the sign of the zero. -/
def power (x y : Float) : Float :=
  if y == 0.0 then 1.0
  else if x == 0.0 then
    let zero := if isOdd y then x else 0.0
    if y.isNaN then y else if 0.0 < y then zero else 1.0 / zero
  else x.pow y

end Workflow.Decimal
