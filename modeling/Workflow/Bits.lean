/-!
# Ranges of words

Numbers that fit a word of so many bits, with a sign or without one. Formats that hold numbers in
words refuse or widen those that do not fit.
-/

namespace Workflow.Bits

/-- How many words there are of a number of bits: one of no bits, and twice as many for each bit
more. -/
def count (bits : Nat) : Nat := Nat.pow 2 bits

/-- Whether an integer fits a word without a sign. -/
def fitsUnsigned (bits : Nat) (n : Int) : Bool := 0 ≤ n && n < count bits

/-- Whether an integer fits a word whose first bit is a sign. -/
def fitsSigned (bits : Nat) (n : Int) : Bool :=
  -(count (bits - 1) : Int) ≤ n && n < count (bits - 1)

end Workflow.Bits
