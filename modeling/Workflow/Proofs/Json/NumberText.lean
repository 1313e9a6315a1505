import Workflow.Json.Number
import Workflow.Text.Blank

/-!
# The texts of numbers

The text of a number has something in it besides blanks, so it may stand wherever a text is required
to have.
-/

namespace Workflow

namespace Text

theorem isBlankText_ofList_of_mem {cs : List Char} {c : Char} (hc : c ∈ cs)
    (h : isBlank c = false) : isBlankText (String.ofList cs) = false := by
  rw [isBlankText, String.toList_ofList]
  exact List.all_eq_false.2 ⟨c, hc, by simp [h]⟩

theorem isBlank_of_isDigit {c : Char} (h : c.isDigit = true) : isBlank c = false := by
  simp only [Char.isDigit, Bool.and_eq_true, decide_eq_true_eq] at h
  have hlow : 48 ≤ c.toNat := UInt32.le_iff_toNat_le.1 h.1
  have hhigh : c.toNat ≤ 57 := UInt32.le_iff_toNat_le.1 h.2
  simp only [isBlank, Bool.or_eq_false_iff, Bool.and_eq_false_iff, decide_eq_false_iff_not,
    beq_eq_false_iff_ne]
  omega

end Text

namespace Json.Number

/-- A text has a character in it that is not blank. -/
def Visible (cs : List Char) : Prop := ∃ c ∈ cs, Text.isBlank c = false

theorem visible_digitsOf (n : Nat) : Visible (Decimal.Scientific.digitsOf n) := by
  obtain ⟨c, cs, hcs⟩ := List.exists_cons_of_ne_nil
    (Nat.toDigits_ne_nil : Nat.toDigits 10 n ≠ [])
  have hc : c ∈ Nat.toDigits 10 n := hcs ▸ List.mem_cons_self
  exact ⟨c, hc, Text.isBlank_of_isDigit
    (Nat.isDigit_of_mem_toDigits (by decide) (by decide) hc)⟩

theorem visible_intText (n : Int) : Visible (intText n) := by
  obtain ⟨c, hc, hblank⟩ := visible_digitsOf n.natAbs
  unfold intText
  split
  · exact ⟨c, List.mem_cons_of_mem _ hc, hblank⟩
  · exact ⟨c, hc, hblank⟩

theorem visible_decimalText (format : FloatFormat) {d : Decimal.Scientific} (h : d.digits ≠ []) :
    Visible (decimalText format d) := by
  unfold decimalText
  dsimp only
  split
  · split
    · exact ⟨'0', List.mem_cons_self, by decide⟩
    · exact ⟨'.', List.mem_append_right _ List.mem_cons_self, by decide⟩
  · cases hd : d.digits with
    | nil => exact absurd hd h
    | cons first rest => exact ⟨'e', by simp, by decide⟩

theorem visible_floatText (format : FloatFormat) (x : Float) : Visible (floatText format x) := by
  unfold floatText
  cases hx : Decimal.Binary64.ofFloat x with
  | none =>
    have hn : 'n' ∈ "null".toList := by decide
    exact ⟨'n', hn, by decide⟩
  | some b =>
    have hmagnitude : Visible (if b.mantissa = 0 then "0.0".toList
        else decimalText format
          (Decimal.Scientific.ofBinary b.mantissa b.exponent b.atBinade)) := by
      split
      · exact ⟨'0', by decide, by decide⟩
      · next hm =>
        exact visible_decimalText format (Decimal.Scientific.digits_ofBinary_ne_nil hm _ _)
    obtain ⟨c, hc, hblank⟩ := hmagnitude
    dsimp only
    split
    · exact ⟨c, List.mem_cons_of_mem _ hc, hblank⟩
    · exact ⟨c, hc, hblank⟩

theorem isBlankText_text (n : Number) : Text.isBlankText n.text = false := by
  cases n with
  | int n =>
    obtain ⟨c, hc, hblank⟩ := visible_intText n
    exact Text.isBlankText_ofList_of_mem hc hblank
  | float x =>
    obtain ⟨c, hc, hblank⟩ := visible_floatText floatFormat x
    exact Text.isBlankText_ofList_of_mem hc hblank

end Json.Number

end Workflow
