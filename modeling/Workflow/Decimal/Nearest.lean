import Workflow.Decimal.Shortest

/-!
# The double nearest to a decimal
-/

namespace Workflow.Decimal

/-- The double nearest to `significand * 10 ^ exponent`; infinite above the range of doubles. The
order of magnitude decides first, so that no power much larger than a double is ever computed. -/
def nearest (significand : Nat) (exponent : Int) : Float :=
  let magnitude := (Scientific.digitsOf significand).length + exponent
  if significand = 0 || magnitude < -330 then 0.0
  else if 310 < magnitude then 1.0 / 0.0
  else Float.ofScientific significand (exponent < 0) exponent.natAbs

end Workflow.Decimal
