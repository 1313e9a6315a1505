import Workflow.Text.Split

/-!
# Pieces of texts

Cutting a text at a character is the cutting of lists of the core library, so its laws hold here:
a text is its pieces with the character between them.
-/

namespace Workflow.Text

variable {sep : Char} {s t : List Char}

theorem splitOn_eq (sep : Char) (s : List Char) : splitOn sep s = s.splitOn sep := by
  induction s with
  | nil => rfl
  | cons c s ih =>
    rw [splitOn, ih, List.splitOn_cons_eq_if_modifyHead]
    by_cases hc : c = sep
    · rw [if_pos hc, if_pos (beq_iff_eq.2 hc)]
    · rw [if_neg hc, if_neg (fun h ↦ hc (eq_of_beq h))]
      cases hpieces : s.splitOn sep with
      | nil => exact absurd hpieces (List.splitOn_ne_nil sep s)
      | cons piece pieces => rfl

theorem splitOn_of_notMem (h : sep ∉ s) : splitOn sep s = [s] := by
  rw [splitOn_eq, List.splitOn_eq_singleton h]

/-- A separator cuts a text in two, whatever stands around it. -/
theorem splitOn_append (s t : List Char) :
    splitOn sep (s ++ sep :: t) = splitOn sep s ++ splitOn sep t := by
  rw [splitOn_eq, splitOn_eq, splitOn_eq, List.splitOn_append_cons_self]

theorem notMem_of_mem_splitOn {piece : List Char} (h : piece ∈ splitOn sep s) : sep ∉ piece := by
  induction s generalizing piece with
  | nil =>
    rw [List.mem_singleton.1 h]
    exact List.not_mem_nil
  | cons c s ih =>
    rw [splitOn] at h
    split at h
    · rcases List.mem_cons.1 h with rfl | h
      · exact List.not_mem_nil
      · exact ih h
    · next hc =>
      cases hpieces : splitOn sep s with
      | nil => exact absurd hpieces (splitOn_ne_nil sep s)
      | cons first pieces =>
        rw [hpieces] at h ih
        rcases List.mem_cons.1 h with rfl | h
        · exact List.not_mem_cons_of_ne_of_not_mem (Ne.symm hc) (ih List.mem_cons_self)
        · exact ih (List.mem_cons_of_mem _ h)

theorem intercalate_cons {α : Type} (sep piece : List α) (pieces : List (List α)) :
    sep.intercalate (piece :: pieces) = piece ++ pieces.flatMap (sep ++ ·) := by
  induction pieces generalizing piece with
  | nil => rw [List.intercalate_singleton, List.flatMap_nil, List.append_nil]
  | cons next pieces ih =>
    rw [List.intercalate_cons_cons, ih, List.flatMap_cons, List.append_assoc, List.append_assoc]

theorem mem_of_mem_intercalate {α : Type} {sep : List α} {pieces : List (List α)} {a : α}
    (h : a ∈ sep.intercalate pieces) : a ∈ sep ∨ ∃ piece ∈ pieces, a ∈ piece := by
  cases pieces with
  | nil => cases h
  | cons piece pieces =>
    rw [intercalate_cons] at h
    rcases List.mem_append.1 h with h | h
    · exact .inr ⟨piece, List.mem_cons_self, h⟩
    · obtain ⟨next, hnext, h⟩ := List.mem_flatMap.1 h
      rcases List.mem_append.1 h with h | h
      · exact .inl h
      · exact .inr ⟨next, List.mem_cons_of_mem _ hnext, h⟩

theorem eq_of_splitOn {piece : List Char} {pieces : List (List Char)}
    (h : splitOn sep s = piece :: pieces) : s = piece ++ pieces.flatMap (sep :: ·) := by
  have hjoin : [sep].intercalate (piece :: pieces) = s := by
    rw [← h, splitOn_eq, List.intercalate_splitOn]
  exact hjoin.symm.trans (intercalate_cons [sep] piece pieces)

/-- A dotted path is its first segment and, after one dot each, the others. -/
theorem toList_eq_of_segments {path root : String} {rest : List String}
    (h : segments path = root :: rest) :
    path.toList = root.toList ++ rest.flatMap ('.' :: ·.toList) := by
  rw [segments] at h
  cases hpieces : splitOn '.' path.toList with
  | nil => exact absurd hpieces (splitOn_ne_nil _ _)
  | cons piece pieces =>
    rw [hpieces, List.map_cons] at h
    obtain ⟨hroot, hrest⟩ := List.cons.inj h
    rw [eq_of_splitOn hpieces, ← hroot, ← hrest, String.toList_ofList, List.flatMap_map]
    simp only [String.toList_ofList]

end Workflow.Text
