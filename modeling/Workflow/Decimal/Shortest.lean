import Workflow.Decimal.Binary64

/-!
# The shortest decimal that reads back

Every finite double owns an interval of real numbers that round to it. `Scientific.ofBinary` looks
for the decimal with the fewest significant digits in that interval, and among those of equal
length for the one nearest to the double, all in exact arithmetic on natural numbers.
-/

namespace Workflow.Decimal

/-- A positive decimal `d.ddd… * 10 ^ exponent`; `digits` has no trailing zero and starts with a
digit other than zero. -/
structure Scientific where
  digits : List Char
  exponent : Int
  deriving DecidableEq, Repr

namespace Scientific

def digitsOf (n : Nat) : List Char := Nat.toDigits 10 n

private def pow (base : Nat) (e : Int) : Nat := Nat.pow base e.toNat

/-- The number `n * 10 ^ grid` without the zeros at its end. -/
private def ofGrid (n : Nat) (grid : Int) : Scientific :=
  let all := digitsOf n
  ⟨(all.reverse.dropWhile (· == '0')).reverse, all.length - 1 + grid⟩

/-- The decimal on the grid of multiples of `10 ^ grid` that lies in the rounding interval of
`mantissa * 2 ^ exponent`, the nearer one if both neighbours do and the even one on a tie. -/
private def onGrid? (mantissa : Nat) (exponent : Int) (atBinade : Bool) (grid : Int) :
    Option Scientific :=
  -- In units of a quarter of the last binary place the interval has whole ends.
  let quarter := exponent - 2
  let scale := pow 2 quarter * pow 10 (-grid)
  let unit := pow 2 (-quarter) * pow 10 grid
  let value := 4 * mantissa * scale
  let low := (4 * mantissa - (if atBinade then 1 else 2)) * scale
  let high := (4 * mantissa + 2) * scale
  let inside (n : Nat) : Bool :=
    if mantissa % 2 = 0 then low ≤ n * unit && n * unit ≤ high
    else low < n * unit && n * unit < high
  let below := value / unit
  let gapBelow := value - below * unit
  let gapAbove := (below + 1) * unit - value
  match inside below, inside (below + 1) with
  | true, true =>
    let up := gapAbove < gapBelow || (gapAbove == gapBelow && below % 2 == 1)
    some (ofGrid (if up then below + 1 else below) grid)
  | true, false => some (ofGrid below grid)
  | false, true => some (ofGrid (below + 1) grid)
  | false, false => none

/-- The exponent of the leading decimal digit of `mantissa * 2 ^ exponent`. -/
private def leading (mantissa : Nat) (exponent : Int) : Int :=
  -- Every positive double is above `10 ^ -324`, so 350 places show its leading digit.
  (digitsOf (mantissa * pow 2 exponent * pow 10 350 / pow 2 (-exponent))).length - 351

/-- The shortest decimal in the rounding interval of `mantissa * 2 ^ exponent`. -/
def ofBinary (mantissa : Nat) (exponent : Int) (atBinade : Bool) : Scientific :=
  let k := leading mantissa exponent
  -- Seventeen digits always suffice.
  let found := (List.range 17).findSome? fun (n : Nat) ↦ onGrid? mantissa exponent atBinade (k - n)
  found.getD (ofGrid mantissa 0)

/-! ## Digits -/

theorem exists_mem_digitsOf_ne_zero {n : Nat} (h : n ≠ 0) : ∃ c ∈ digitsOf n, c ≠ '0' := by
  induction n using Nat.strongRecOn with
  | ind n ih =>
    by_cases hn : n < 10
    · refine ⟨n.digitChar, ?_, ?_⟩
      · rw [digitsOf, Nat.toDigits_of_lt_base hn]
        exact List.mem_singleton_self _
      · have hdigits : ∀ d < 10, d ≠ 0 → d.digitChar ≠ '0' := by decide
        exact hdigits n hn h
    · obtain ⟨c, hc, hne⟩ := ih (n / 10) (by omega) (by omega)
      refine ⟨c, ?_, hne⟩
      rw [digitsOf, Nat.toDigits_of_base_le (by decide) (Nat.le_of_not_lt hn)]
      exact List.mem_append_left _ hc

private theorem digits_ofGrid_ne_nil {n : Nat} (h : n ≠ 0) (grid : Int) :
    (ofGrid n grid).digits ≠ [] := by
  obtain ⟨c, hc, hne⟩ := exists_mem_digitsOf_ne_zero h
  intro hnil
  have hdrop : (digitsOf n).reverse.dropWhile (· == '0') = [] := List.reverse_eq_nil_iff.1 hnil
  have htake : (digitsOf n).reverse.takeWhile (· == '0') = (digitsOf n).reverse := by
    have happend := List.takeWhile_append_dropWhile (p := (· == '0')) (l := (digitsOf n).reverse)
    rwa [hdrop, List.append_nil] at happend
  have hall : (digitsOf n).reverse.all (· == '0') = true := htake ▸ List.all_takeWhile
  exact hne (beq_iff_eq.1 (List.all_eq_true.1 hall c (List.mem_reverse.2 hc)))

private theorem pow_pos {base : Nat} (h : 0 < base) (e : Int) : 0 < pow base e := Nat.pow_pos h

private theorem ne_zero_of_inside {even : Prop} [Decidable even] {n unit low high : Nat}
    (hlow : 0 < low)
    (h : (if even then low ≤ n * unit && n * unit ≤ high
      else low < n * unit && n * unit < high) = true) : n ≠ 0 := by
  rintro rfl
  rw [Nat.zero_mul] at h
  split at h
  · simp only [Bool.and_eq_true, decide_eq_true_eq] at h
    omega
  · simp only [Bool.and_eq_true, decide_eq_true_eq] at h
    omega

/-- The interval of a double other than zero does not reach down to zero. -/
private theorem digits_ne_nil_of_onGrid? {mantissa : Nat} (h : mantissa ≠ 0) {exponent : Int}
    {atBinade : Bool} {grid : Int} {d : Scientific}
    (hd : onGrid? mantissa exponent atBinade grid = some d) : d.digits ≠ [] := by
  have hlow : 0 < (4 * mantissa - (if atBinade then 1 else 2)) *
      (pow 2 (exponent - 2) * pow 10 (-grid)) := by
    refine Nat.mul_pos ?_ (Nat.mul_pos (pow_pos (by decide) _) (pow_pos (by decide) _))
    split
    · omega
    · omega
  unfold onGrid? at hd
  dsimp only at hd
  split at hd
  · next hbelow _ =>
    cases hd
    refine digits_ofGrid_ne_nil ?_ grid
    split
    · exact Nat.succ_ne_zero _
    · exact ne_zero_of_inside hlow hbelow
  · next hbelow _ =>
    cases hd
    exact digits_ofGrid_ne_nil (ne_zero_of_inside hlow hbelow) grid
  · cases hd
    exact digits_ofGrid_ne_nil (Nat.succ_ne_zero _) grid
  · cases hd

theorem digits_ofBinary_ne_nil {mantissa : Nat} (h : mantissa ≠ 0) (exponent : Int)
    (atBinade : Bool) : (ofBinary mantissa exponent atBinade).digits ≠ [] := by
  unfold ofBinary
  dsimp only
  cases hd : (List.range 17).findSome? fun (n : Nat) ↦
      onGrid? mantissa exponent atBinade (leading mantissa exponent - n) with
  | none => exact digits_ofGrid_ne_nil h 0
  | some d =>
    obtain ⟨n, -, hn⟩ := List.exists_of_findSome?_eq_some hd
    exact digits_ne_nil_of_onGrid? h hn

end Scientific

end Workflow.Decimal
