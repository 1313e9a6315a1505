/-!
# Cutting texts

Searching and cutting on lists of characters. `breakOn` finds the first occurrence of a pattern,
and `breakOn_eq` says that the two parts around it give the text back; `splitOn` cuts at every
occurrence of one character.
-/

namespace Workflow.Text

/-- The rest of a text after a given beginning, if it begins so. -/
def dropStart? : List Char → List Char → Option (List Char)
  | [], s => some s
  | _ :: _, [] => none
  | p :: ps, c :: s => if p = c then dropStart? ps s else none

theorem dropStart?_eq_some_iff {p s r : List Char} : dropStart? p s = some r ↔ s = p ++ r := by
  induction p generalizing s with
  | nil => simp [dropStart?, eq_comm]
  | cons a p ih =>
    cases s with
    | nil => simp [dropStart?]
    | cons c s =>
      by_cases h : a = c
      · subst h
        simp [dropStart?, ih]
      · simp [dropStart?, h, Ne.symm h]

/-- The text before and the text after the first occurrence of a pattern. -/
def breakOn (p : List Char) : List Char → Option (List Char × List Char)
  | [] => (dropStart? p []).map fun r ↦ ([], r)
  | c :: s =>
    match dropStart? p (c :: s) with
    | some r => some ([], r)
    | none => (breakOn p s).map fun (before, after) ↦ (c :: before, after)

theorem breakOn_eq {p s before after : List Char} (h : breakOn p s = some (before, after)) :
    s = before ++ p ++ after := by
  induction s generalizing before with
  | nil =>
    simp only [breakOn, Option.map_eq_some_iff, Prod.mk.injEq] at h
    obtain ⟨r, hr, rfl, rfl⟩ := h
    simpa using dropStart?_eq_some_iff.1 hr
  | cons c s ih =>
    simp only [breakOn] at h
    split at h
    · next r hr =>
      obtain ⟨rfl, rfl⟩ := by simpa using h
      simpa using dropStart?_eq_some_iff.1 hr
    · simp only [Option.map_eq_some_iff, Prod.mk.injEq, Prod.exists] at h
      obtain ⟨b, a, hb, rfl, rfl⟩ := h
      simp [ih hb]

/-- The part after the first occurrence is shorter than the text, when the pattern is not empty. -/
theorem length_after_breakOn {p s before after : List Char} (hp : p ≠ [])
    (h : breakOn p s = some (before, after)) : after.length < s.length := by
  have hlen := congrArg List.length (breakOn_eq h)
  have : 0 < p.length := List.length_pos_iff.2 hp
  simp only [List.length_append] at hlen
  omega

/-- Whether a pattern occurs in a text. -/
def occursIn (p s : List Char) : Bool := (breakOn p s).isSome

/-- The pieces of a text between the occurrences of a character; there is always at least one. -/
def splitOn (sep : Char) : List Char → List (List Char)
  | [] => [[]]
  | c :: s =>
    if c = sep then [] :: splitOn sep s
    else
      match splitOn sep s with
      | [] => [[c]]
      | piece :: pieces => (c :: piece) :: pieces

theorem splitOn_ne_nil (sep : Char) (s : List Char) : splitOn sep s ≠ [] := by
  cases s with
  | nil => simp [splitOn]
  | cons c s =>
    simp only [splitOn]
    split
    · simp
    · split <;> simp

/-- The segments of a dotted path. -/
def segments (path : String) : List String := (splitOn '.' path.toList).map String.ofList

end Workflow.Text
