import Workflow.Text.Split

/-!
# Occurrences in texts

`Text.breakOn` searches a text for a pattern. Here its answer is told without the search: it cuts
the text at the occurrence before which no other begins (`breakOn_eq_some_iff`), and it finds
nothing only if the pattern does not occur (`breakOn_eq_none_iff`).
-/

namespace Workflow.Text

variable {p s before after : List Char}

/-- A text is cut at the first occurrence of a pattern: no other one begins earlier. -/
structure CutAt (p s before after : List Char) : Prop where
  eq : s = before ++ p ++ after
  first : ∀ b a, s = b ++ p ++ a → before.length ≤ b.length

namespace CutAt

theorem isInfix (h : CutAt p s before after) : p <:+: s := ⟨before, after, h.eq.symm⟩

theorem not_isInfix_before (hp : p ≠ []) (h : CutAt p s before after) : ¬p <:+: before := by
  rintro ⟨x, y, rfl⟩
  have heq : s = x ++ p ++ (y ++ p ++ after) := by
    rw [h.eq]
    simp only [List.append_assoc]
  have hfirst := h.first _ _ heq
  have hpos : 0 < p.length := List.length_pos_iff.2 hp
  simp only [List.length_append] at hfirst
  omega

theorem unique {before' after' : List Char} (h : CutAt p s before after)
    (h' : CutAt p s before' after') : before = before' ∧ after = after' := by
  have hlen : before.length = before'.length :=
    Nat.le_antisymm (h.first _ _ h'.eq) (h'.first _ _ h.eq)
  have heq : before ++ (p ++ after) = before' ++ (p ++ after') := by
    rw [← List.append_assoc, ← List.append_assoc, ← h.eq, ← h'.eq]
  obtain ⟨rfl, hrest⟩ := List.append_inj heq hlen
  exact ⟨rfl, List.append_cancel_left hrest⟩

theorem cons {c : Char} (h : CutAt p s before after) (hc : ¬p <+: c :: s) :
    CutAt p (c :: s) (c :: before) after := by
  refine ⟨by rw [h.eq]; rfl, fun b a heq ↦ ?_⟩
  cases b with
  | nil => exact absurd ⟨a, heq.symm⟩ hc
  | cons x b =>
    obtain ⟨-, hs⟩ := List.cons.inj heq
    exact Nat.succ_le_succ (h.first b a hs)

/-- A text that begins with the pattern is found only from the first occurrence on. -/
theorem isInfix_append {q : List Char} (h : CutAt p s before after) (hp : p <+: q)
    (hq : q <:+: s) : q <:+: p ++ after := by
  obtain ⟨x, rfl⟩ := hp
  obtain ⟨b, a, hs⟩ := hq
  have hle : before.length ≤ b.length := h.first b (x ++ a) (by simp [← hs])
  have heq : before ++ (p ++ after) = b ++ (p ++ x ++ a) := by
    rw [← List.append_assoc, ← h.eq, ← hs, List.append_assoc]
  obtain ⟨y, rfl⟩ := List.prefix_of_prefix_length_le ⟨_, heq⟩ (List.prefix_append b _) hle
  rw [List.append_assoc] at heq
  exact ⟨y, a, by rw [List.append_cancel_left heq, List.append_assoc]⟩

end CutAt

theorem isPrefix_append_cons_iff {x y : List Char} {c : Char} (hc : c ∉ p) :
    p <+: x ++ c :: y ↔ p <+: x := by
  constructor
  · rintro ⟨t, heq⟩
    rcases List.append_eq_append_iff.1 heq with ⟨u, hx, -⟩ | ⟨u, hp, hu⟩
    · exact ⟨u, hx.symm⟩
    · cases u with
      | nil => exact ⟨[], by rw [List.append_nil, hp, List.append_nil]⟩
      | cons d u =>
        obtain ⟨rfl, -⟩ := List.cons.inj hu
        exact absurd (hp ▸ List.mem_append_right x List.mem_cons_self) hc
  · exact fun h ↦ h.trans (List.prefix_append x _)

/-- The first place of a character cuts a text in one way. -/
theorem append_cons_inj {x y x' y' : List Char} {c : Char} (hx : c ∉ x) (hx' : c ∉ x') :
    x ++ c :: y = x' ++ c :: y' ↔ x = x' ∧ y = y' := by
  constructor
  · intro h
    have hle : x <+: x' := (isPrefix_append_cons_iff hx).1 (h ▸ List.prefix_append x _)
    have hge : x' <+: x := (isPrefix_append_cons_iff hx').1 (h ▸ List.prefix_append x' _)
    obtain rfl : x = x' := hle.eq_of_length_le hge.length_le
    exact ⟨rfl, (List.cons.inj (List.append_cancel_left h)).2⟩
  · rintro ⟨rfl, rfl⟩
    rfl

/-- A text without a character does not reach over that character. -/
theorem isInfix_of_notMem {x y : List Char} {c : Char} (hc : c ∉ p) (h : p <:+: x ++ c :: y) :
    p <:+: x ∨ p <:+: y := by
  obtain ⟨b, a, heq⟩ := h
  rcases List.append_eq_append_iff.1 heq with ⟨u, rfl, -⟩ | ⟨u, hbp, hu⟩
  · exact .inl ⟨b, u, rfl⟩
  · cases u with
    | nil =>
      rw [List.append_nil] at hbp
      exact .inl ⟨b, [], by rw [hbp, List.append_nil]⟩
    | cons d u =>
      obtain ⟨rfl, rfl⟩ := List.cons.inj hu
      -- the character stands in what ends with the text, so it stands before the text
      rcases List.append_eq_append_iff.1 hbp with ⟨v, -, rfl⟩ | ⟨v, -, hv⟩
      · exact absurd (by simp) hc
      · cases v with
        | nil => exact absurd (hv ▸ List.mem_cons_self : _ ∈ [] ++ p) hc
        | cons e v =>
          obtain ⟨-, rfl⟩ := List.cons.inj hv
          exact .inr ⟨v, a, rfl⟩

theorem dropStart?_eq_none_iff : dropStart? p s = none ↔ ¬p <+: s := by
  rw [Option.eq_none_iff_forall_ne_some, List.IsPrefix, not_exists]
  refine forall_congr' fun r ↦ not_congr ?_
  rw [dropStart?_eq_some_iff, eq_comm]

/-- What a search answers: the cut at the first occurrence, or that there is none. -/
theorem breakOn_cases (p s : List Char) :
    (breakOn p s = none ∧ ¬p <:+: s) ∨
      ∃ before after, breakOn p s = some (before, after) ∧ CutAt p s before after := by
  induction s with
  | nil =>
    cases p with
    | nil => exact .inr ⟨[], [], rfl, rfl, fun _ _ _ ↦ Nat.zero_le _⟩
    | cons x p => exact .inl ⟨rfl, by simp⟩
  | cons c s ih =>
    rw [breakOn]
    cases hstart : dropStart? p (c :: s) with
    | some r =>
      refine .inr ⟨[], r, rfl, ?_, fun _ _ _ ↦ Nat.zero_le _⟩
      exact dropStart?_eq_some_iff.1 hstart
    | none =>
      have hc := dropStart?_eq_none_iff.1 hstart
      rcases ih with ⟨hnone, hnot⟩ | ⟨before, after, hsome, hcut⟩
      · refine .inl ⟨by rw [hnone]; rfl, ?_⟩
        rw [List.infix_cons_iff]
        exact not_or.2 ⟨hc, hnot⟩
      · exact .inr ⟨c :: before, after, by rw [hsome]; rfl, hcut.cons hc⟩

theorem breakOn_eq_some_iff : breakOn p s = some (before, after) ↔ CutAt p s before after := by
  rcases breakOn_cases p s with ⟨hnone, hnot⟩ | ⟨b, a, hsome, hcut⟩
  · rw [hnone]
    exact iff_of_false (by simp) fun h ↦ hnot h.isInfix
  · rw [hsome, Option.some.injEq, Prod.mk.injEq]
    constructor
    · rintro ⟨rfl, rfl⟩
      exact hcut
    · exact hcut.unique

theorem breakOn_eq_none_iff : breakOn p s = none ↔ ¬p <:+: s := by
  rcases breakOn_cases p s with ⟨hnone, hnot⟩ | ⟨b, a, hsome, hcut⟩
  · exact iff_of_true hnone hnot
  · exact iff_of_false (by simp [hsome]) fun hnot ↦ hnot hcut.isInfix

theorem occursIn_iff : occursIn p s = true ↔ p <:+: s := by
  rw [occursIn, Option.isSome_iff_ne_none, ne_eq, breakOn_eq_none_iff, Decidable.not_not]

end Workflow.Text
