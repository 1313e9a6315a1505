import Mathlib.Data.List.Basic

/-!
# Interleavings

What happens side by side happens in some order, and every part of it keeps its own. `Shuffle` says
so of two lists and `Interleaved` of any number of them. The order in which the parts are listed
does not matter, by `Interleaved.perm`.
-/

namespace Workflow

variable {α β : Type}

/-- The third list is made of the other two, each of which keeps its order. -/
inductive Shuffle : List α → List α → List α → Prop where
  | nil : Shuffle [] [] []
  | left (a : α) {l m n : List α} : Shuffle l m n → Shuffle (a :: l) m (a :: n)
  | right (a : α) {l m n : List α} : Shuffle l m n → Shuffle l (a :: m) (a :: n)

/-- A list is made of several others, each of which keeps its order. -/
inductive Interleaved : List (List α) → List α → Prop where
  | nil : Interleaved [] []
  | cons {l m n : List α} {ls : List (List α)} :
      Interleaved ls m → Shuffle l m n → Interleaved (l :: ls) n

namespace Shuffle

theorem filterMap (f : α → Option β) {l m n : List α} (h : Shuffle l m n) :
    Shuffle (l.filterMap f) (m.filterMap f) (n.filterMap f) := by
  induction h with
  | nil => exact nil
  | left a _ ih =>
    rw [List.filterMap_cons, List.filterMap_cons]
    cases f a with
    | none => exact ih
    | some b => exact left b ih
  | right a _ ih =>
    rw [List.filterMap_cons, List.filterMap_cons]
    cases f a with
    | none => exact ih
    | some b => exact right b ih

/-- Two lists that are shuffled into a third one after the other may change places. -/
theorem exchange {k m n : List α} (h : Shuffle k m n) :
    ∀ {l r : List α}, Shuffle l r m → ∃ m', Shuffle k r m' ∧ Shuffle l m' n := by
  induction h with
  | nil =>
    intro l r hr
    cases hr
    exact ⟨[], nil, nil⟩
  | left a _ ih =>
    intro l r hr
    obtain ⟨m', hk, hl⟩ := ih hr
    exact ⟨a :: m', left a hk, right a hl⟩
  | right a _ ih =>
    intro l r hr
    cases hr with
    | left _ hr =>
      obtain ⟨m', hk, hl⟩ := ih hr
      exact ⟨m', hk, left a hl⟩
    | right _ hr =>
      obtain ⟨m', hk, hl⟩ := ih hr
      exact ⟨a :: m', right a hk, right a hl⟩

theorem append (l m : List α) : Shuffle l m (l ++ m) := by
  induction l with
  | nil =>
    induction m with
    | nil => exact nil
    | cons b m ih => exact right b ih
  | cons a l ih => exact left a ih

theorem append_right {l m n : List α} (h : Shuffle l m n) (k : List α) :
    Shuffle l (m ++ k) (n ++ k) := by
  induction h with
  | nil => exact append [] k
  | left a _ ih => exact left a ih
  | right a _ ih => exact right a ih

theorem sublist {l m n : List α} (h : Shuffle l m n) : l.Sublist n ∧ m.Sublist n := by
  induction h with
  | nil => exact ⟨.slnil, .slnil⟩
  | left a _ ih => exact ⟨ih.1.cons_cons a, ih.2.cons a⟩
  | right a _ ih => exact ⟨ih.1.cons a, ih.2.cons_cons a⟩

theorem perm_append {l m n : List α} (h : Shuffle l m n) : n.Perm (l ++ m) := by
  induction h with
  | nil => exact .nil
  | left a _ ih => exact ih.cons a
  | right a _ ih => exact (ih.cons a).trans List.perm_middle.symm

theorem mem_iff {l m n : List α} (h : Shuffle l m n) {a : α} : a ∈ n ↔ a ∈ l ∨ a ∈ m := by
  induction h with
  | nil => simp
  | left b _ ih => rw [List.mem_cons, List.mem_cons, ih, or_assoc]
  | right b _ ih => rw [List.mem_cons, List.mem_cons, ih, or_left_comm]

end Shuffle

namespace Interleaved

theorem append {ls ks : List (List α)} {m n : List α} (hl : Interleaved ls m)
    (hk : Interleaved ks n) : Interleaved (ls ++ ks) (m ++ n) := by
  induction hl with
  | nil => exact hk
  | cons _ hs ih => exact cons ih (hs.append_right n)

theorem sublist {ls : List (List α)} {n : List α} (h : Interleaved ls n) :
    ∀ l ∈ ls, l.Sublist n := by
  induction h with
  | nil => nofun
  | cons _ hs ih =>
    exact List.forall_mem_cons.2 ⟨hs.sublist.1, fun l hl ↦ (ih l hl).trans hs.sublist.2⟩

theorem exists_mem {ls : List (List α)} {n : List α} (h : Interleaved ls n) {a : α}
    (ha : a ∈ n) : ∃ l ∈ ls, a ∈ l := by
  induction h with
  | nil => cases ha
  | cons _ hs ih =>
    rcases hs.mem_iff.1 ha with ha | ha
    · exact ⟨_, List.mem_cons_self, ha⟩
    · obtain ⟨l, hl, ha⟩ := ih ha
      exact ⟨l, List.mem_cons_of_mem _ hl, ha⟩

theorem perm_flatten {ls : List (List α)} {n : List α} (h : Interleaved ls n) :
    n.Perm ls.flatten := by
  induction h with
  | nil => exact .nil
  | cons _ hs ih =>
    rw [List.flatten_cons]
    exact hs.perm_append.trans (ih.append_left _)

theorem flatten (ls : List (List α)) : Interleaved ls ls.flatten := by
  induction ls with
  | nil => exact nil
  | cons l ls ih => exact cons ih (.append l _)

theorem filterMap (f : α → Option β) {ls : List (List α)} {n : List α} (h : Interleaved ls n) :
    Interleaved (ls.map (·.filterMap f)) (n.filterMap f) := by
  induction h with
  | nil => exact nil
  | cons _ hs ih => exact cons ih (hs.filterMap f)

theorem perm {ls ms : List (List α)} (hp : ls.Perm ms) :
    ∀ {n : List α}, Interleaved ls n → Interleaved ms n := by
  induction hp with
  | nil => exact fun h ↦ h
  | cons l _ ih =>
    intro n h
    cases h with
    | cons h hs => exact cons (ih h) hs
  | swap l k ls =>
    intro n h
    cases h with
    | cons h hk =>
      cases h with
      | cons h hl =>
        -- the order matters to the shuffles only in which of the two is done first
        obtain ⟨m', hk', hl'⟩ := hk.exchange hl
        exact cons (cons h hk') hl'
  | trans _ _ ih₁ ih₂ => exact fun h ↦ ih₂ (ih₁ h)

end Interleaved

end Workflow
