import Workflow.Frontmatter
import Workflow.Proofs.Text.Lines

/-!
# Headers and bodies

A document with a header is its first line of dashes, the header, and a later line that starts with
dashes and ends the header. `split_eq_some_iff` says that it is taken apart at the first such line,
whatever stands in the header and in the body. So what was written is what is read, `split_write`,
and a document is without a header only if one of the two lines is missing.
-/

namespace Workflow.Frontmatter

open Text (lines)

variable {s rest header body document : List Char}

/-! ## Line breaks -/

/-- The line breaks that may end the first line. -/
def lineBreaks : List (List Char) := [['\n'], ['\r', '\n']]

theorem notMem_fence : '\n' ∉ fence := by decide

theorem afterBreak?_eq_some_iff :
    afterBreak? s = some rest ↔ ∃ lineBreak ∈ lineBreaks, s = lineBreak ++ rest := by
  unfold afterBreak?
  split
  · simp [lineBreaks, eq_comm]
  · simp [lineBreaks, eq_comm]
  · next hcrlf hlf =>
    refine iff_of_false nofun ?_
    rintro ⟨lineBreak, hmem, rfl⟩
    rcases List.mem_cons.1 hmem with rfl | hmem
    · exact hlf rest rfl
    · rw [List.mem_singleton.1 hmem] at hcrlf
      exact hcrlf rest rfl

/-! ## The end of a header -/

/-- A header is empty or consists of whole lines of which none starts with a fence. -/
inductive IsHeader : List Char → Prop where
  | empty : IsHeader []
  | ofLines {s : List Char} (h : ∀ line ∈ lines s, ¬fence <+: line) : IsHeader (s ++ ['\n'])

theorem forall_mem_lines_iff : (∀ line ∈ lines s, ¬fence <+: line) ↔
    ¬fence <+: s ∧ ¬('\n' :: fence) <:+: s := by
  rw [← not_or, ← Text.exists_mem_lines_iff notMem_fence, not_exists]
  exact forall_congr' fun line ↦ not_and.symm

/-- A text is cut before its first line that starts with a fence. -/
theorem cutAt_of_not_isInfix (h : ¬('\n' :: fence) <:+: s) (rest : List Char) :
    Text.CutAt ('\n' :: fence) (s ++ ('\n' :: fence) ++ rest) s rest := by
  refine ⟨rfl, fun b a heq ↦ Nat.le_of_not_lt fun hlt ↦ h ?_⟩
  rw [List.append_assoc, List.append_assoc] at heq
  obtain ⟨u, rfl⟩ :=
    List.prefix_of_prefix_length_le (heq ▸ List.prefix_append b _) (List.prefix_append s _)
      (Nat.le_of_lt hlt)
  rw [List.append_assoc] at heq
  have hu := List.append_cancel_left heq
  cases u with
  | nil => exact absurd hlt (by simp)
  | cons c u =>
    -- what an earlier occurrence adds to the line break lies before the later line break
    obtain ⟨rfl, htail⟩ := List.cons.inj hu
    have hstart : fence <+: u ++ '\n' :: (fence ++ rest) := ⟨a, htail.symm⟩
    have hfence := (Text.isPrefix_append_cons_iff notMem_fence).1 hstart
    exact (List.cons_prefix_cons.2 ⟨rfl, hfence⟩).isInfix.trans (List.suffix_append b _).isInfix

theorem untilFence?_eq_some_iff :
    untilFence? s = some (header, rest) ↔ s = header ++ fence ++ rest ∧ IsHeader header := by
  constructor
  · intro h
    rw [untilFence?] at h
    split at h
    · next r hstart =>
      cases h
      exact ⟨Text.dropStart?_eq_some_iff.1 hstart, .empty⟩
    · next hstart =>
      obtain ⟨⟨before, after⟩, hbreak, heq⟩ := Option.map_eq_some_iff.1 h
      cases heq
      have hcut := Text.breakOn_eq_some_iff.1 hbreak
      have hfence : ¬fence <+: before := fun hbefore ↦
        Text.dropStart?_eq_none_iff.1 hstart
          (hcut.eq ▸ (hbefore.trans (List.prefix_append _ _)).trans (List.prefix_append _ _))
      refine ⟨?_, .ofLines (forall_mem_lines_iff.2 ⟨hfence, ?_⟩)⟩
      · rw [hcut.eq]
        simp only [List.append_assoc, List.cons_append, List.nil_append]
      · exact hcut.not_isInfix_before (List.cons_ne_nil _ _)
  · rintro ⟨rfl, hheader⟩
    cases hheader with
    | empty =>
      rw [untilFence?, List.nil_append, Text.dropStart?_eq_some_iff.2 rfl]
    | @ofLines s h =>
      obtain ⟨hstart, hinfix⟩ := forall_mem_lines_iff.1 h
      have heq : s ++ ['\n'] ++ fence ++ rest = s ++ ('\n' :: fence) ++ rest := by
        simp only [List.append_assoc, List.cons_append, List.nil_append]
      have hnone : Text.dropStart? fence (s ++ ('\n' :: fence) ++ rest) = none := by
        rw [Text.dropStart?_eq_none_iff, List.append_assoc, List.cons_append,
          Text.isPrefix_append_cons_iff notMem_fence]
        exact hstart
      rw [untilFence?, heq, hnone, Text.breakOn_eq_some_iff.2 (cutAt_of_not_isInfix hinfix rest)]
      rfl

theorem untilFence?_eq_none_iff : untilFence? s = none ↔ ∀ line ∈ lines s, ¬fence <+: line := by
  rw [forall_mem_lines_iff, untilFence?]
  split
  · next r hstart =>
    exact iff_of_false nofun fun h ↦ h.1 ⟨r, (Text.dropStart?_eq_some_iff.1 hstart).symm⟩
  · next hstart =>
    rw [Option.map_eq_none_iff, Text.breakOn_eq_none_iff,
      and_iff_right (Text.dropStart?_eq_none_iff.1 hstart)]

/-! ## Documents -/

def IsOpen (document : List Char) : Prop :=
  ∃ lineBreak ∈ lineBreaks, (fence ++ lineBreak) <+: document

section

variable {lineBreak : List Char}

theorem split_append (hmem : lineBreak ∈ lineBreaks) (s : List Char) :
    split (fence ++ lineBreak ++ s) =
      (untilFence? s).map fun (header, rest) ↦ (header, bodyAfter rest) := by
  have hopen : Text.dropStart? fence (fence ++ lineBreak ++ s) = some (lineBreak ++ s) :=
    Text.dropStart?_eq_some_iff.2 (List.append_assoc _ _ _)
  have hbreak : afterBreak? (lineBreak ++ s) = some s :=
    afterBreak?_eq_some_iff.2 ⟨lineBreak, hmem, rfl⟩
  simp only [split, hopen, hbreak, Option.bind_eq_bind, Option.bind_some]
  cases untilFence? s <;> rfl

theorem tail_lines_append (hmem : lineBreak ∈ lineBreaks) (s : List Char) :
    (lines (fence ++ lineBreak ++ s)).tail = lines s := by
  have htail {first : List Char} (hfirst : '\n' ∉ first) :
      (lines (first ++ '\n' :: s)).tail = lines s := by
    rw [Text.lines_append, Text.lines_of_notMem hfirst, List.singleton_append, List.tail_cons]
  rcases List.mem_cons.1 hmem with rfl | hmem
  · exact htail notMem_fence
  · rw [List.mem_singleton.1 hmem]
    exact htail (by decide : '\n' ∉ fence ++ ['\r'])

end

theorem split_of_not_isOpen (h : ¬IsOpen document) : split document = none := by
  rw [Option.eq_none_iff_forall_ne_some]
  intro parts hsome
  obtain ⟨opened, hopen, hsome⟩ := Option.bind_eq_some_iff.1 hsome
  obtain ⟨started, hbreak, -⟩ := Option.bind_eq_some_iff.1 hsome
  obtain ⟨lineBreak, hmem, rfl⟩ := afterBreak?_eq_some_iff.1 hbreak
  refine h ⟨lineBreak, hmem, started, ?_⟩
  rw [Text.dropStart?_eq_some_iff.1 hopen, List.append_assoc]

theorem split_eq_some_iff : split document = some (header, body) ↔
    ∃ lineBreak ∈ lineBreaks, ∃ rest, document = fence ++ lineBreak ++ (header ++ fence ++ rest) ∧
      IsHeader header ∧ body = bodyAfter rest := by
  constructor
  · intro h
    obtain ⟨lineBreak, hmem, s, rfl⟩ : IsOpen document :=
      Classical.byContradiction fun hopen ↦ nomatch (split_of_not_isOpen hopen).symm.trans h
    rw [split_append hmem] at h
    obtain ⟨⟨_, rest⟩, huntil, hparts⟩ := Option.map_eq_some_iff.1 h
    cases hparts
    obtain ⟨rfl, hheader⟩ := untilFence?_eq_some_iff.1 huntil
    exact ⟨lineBreak, hmem, rest, rfl, hheader, rfl⟩
  · rintro ⟨lineBreak, hmem, rest, rfl, hheader, rfl⟩
    rw [split_append hmem, untilFence?_eq_some_iff.2 ⟨rfl, hheader⟩]
    rfl

/-- A document is without header and body just if it has no first line of dashes or no later line
that starts with dashes. -/
theorem split_eq_none_iff : split document = none ↔
    ¬IsOpen document ∨ ∀ line ∈ (lines document).tail, ¬fence <+: line := by
  by_cases hopen : IsOpen document
  · obtain ⟨lineBreak, hmem, s, rfl⟩ := id hopen
    rw [split_append hmem, tail_lines_append hmem, Option.map_eq_none_iff, untilFence?_eq_none_iff,
      or_iff_right fun hnot ↦ hnot hopen]
  · exact iff_of_true (split_of_not_isOpen hopen) (.inl hopen)

/-! ## Writing -/

/-- A document with a header of whole lines, and a body that begins on the line after it. -/
def write (lineBreak header body : List Char) : List Char :=
  fence ++ lineBreak ++ header ++ ['\n'] ++ fence ++ ['\n'] ++ body

/-- What stands on the line of the closing dashes is not of the body. -/
theorem bodyAfter_cons (body : List Char) :
    bodyAfter ('\n' :: body) = body.dropWhile fun c ↦ c == '\n' || c == '\r' := rfl

/-- **Splitting inverts writing.** A header of which no line starts with dashes is read as it was
written, with the line break after it, and so is the body but for the line breaks it starts with.
No other document is without header than one that lacks the first line of dashes, or a later line
that starts with dashes. -/
theorem split_write :
    (∀ lineBreak ∈ lineBreaks, ∀ header body, (∀ line ∈ lines header, ¬fence <+: line) →
      split (write lineBreak header body) =
        some (header ++ ['\n'], body.dropWhile fun c ↦ c == '\n' || c == '\r')) ∧
    ∀ document, split document = none ↔
      (∀ lineBreak ∈ lineBreaks, ¬(fence ++ lineBreak) <+: document) ∨
        ∀ line ∈ (lines document).tail, ¬fence <+: line := by
  constructor
  · intro lineBreak hmem header body hlines
    rw [split_eq_some_iff]
    refine ⟨lineBreak, hmem, '\n' :: body, ?_, .ofLines hlines, (bodyAfter_cons body).symm⟩
    simp only [write, List.append_assoc, List.cons_append, List.nil_append]
  · intro document
    rw [split_eq_none_iff, IsOpen]
    simp only [not_exists, not_and]

/-- A header of two lines after a line break of two characters, with dashes at the end of a line,
and a body with dashes. -/
theorem split_write_note :
    split (write ['\r', '\n'] "a: b ---\nc".toList "\r\n\n---\nend".toList) =
      some ("a: b ---\nc\n".toList, "---\nend".toList) :=
  split_write.1 _ (by decide) _ _ (by decide)

end Workflow.Frontmatter
