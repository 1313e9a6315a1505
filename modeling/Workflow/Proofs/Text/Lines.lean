import Workflow.Proofs.Text.Occurrence
import Workflow.Proofs.Text.Split

/-!
# How lines begin

The lines of a text are its pieces between the line breaks. A text without line breaks begins a
line just where it begins the text or follows a line break. So lines that begin with it are found by
searching the text, and nothing has to be cut: `exists_mem_lines_iff`.
-/

namespace Workflow.Text

variable {p s line : List Char} {others : List (List Char)}

/-- The lines of a text. -/
def lines (s : List Char) : List (List Char) := splitOn '\n' s

theorem lines_append (s t : List Char) : lines (s ++ '\n' :: t) = lines s ++ lines t :=
  splitOn_append s t

theorem lines_of_notMem (h : '\n' ∉ s) : lines s = [s] := splitOn_of_notMem h

theorem isPrefix_first_line_iff (hp : '\n' ∉ p) (h : lines s = line :: others) :
    p <+: line ↔ p <+: s := by
  rw [eq_of_splitOn h]
  cases others with
  | nil => rw [List.flatMap_nil, List.append_nil]
  | cons next others => exact (isPrefix_append_cons_iff hp).symm

theorem exists_mem_other_lines_iff (hp : '\n' ∉ p) (h : lines s = line :: others) :
    (∃ l ∈ others, p <+: l) ↔ ('\n' :: p) <:+: s := by
  induction s generalizing line others with
  | nil =>
    cases h
    simp
  | cons c s ih =>
    obtain ⟨first, rest, hs⟩ := List.exists_cons_of_ne_nil (splitOn_ne_nil '\n' s)
    rw [lines, splitOn, hs] at h
    rw [List.infix_cons_iff]
    by_cases hc : c = '\n'
    · subst hc
      rw [if_pos rfl] at h
      obtain ⟨-, rfl⟩ := List.cons.inj h
      simp only [List.mem_cons, exists_eq_or_imp]
      rw [isPrefix_first_line_iff hp hs, ih hs, List.cons_prefix_cons, and_iff_right rfl]
    · rw [if_neg hc] at h
      obtain ⟨-, rfl⟩ := List.cons.inj h
      rw [ih hs, List.cons_prefix_cons, or_iff_right fun hstart ↦ hc hstart.1.symm]

/-- A line begins with a text if the whole does or a line break is followed by it. -/
theorem exists_mem_lines_iff (hp : '\n' ∉ p) :
    (∃ l ∈ lines s, p <+: l) ↔ p <+: s ∨ ('\n' :: p) <:+: s := by
  obtain ⟨line, others, hs⟩ := List.exists_cons_of_ne_nil (splitOn_ne_nil '\n' s)
  rw [lines, hs]
  simp only [List.mem_cons, exists_eq_or_imp]
  rw [isPrefix_first_line_iff hp hs, exists_mem_other_lines_iff hp hs]

end Workflow.Text
