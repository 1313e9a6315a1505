import Workflow.Proofs.Files.Making

/-!
# Listing folders

A folder lists the names under which there is something at its place, in no order that is of any
account: `Files.mem_list_iff`. Where a path leads to a folder, it goes on to do so as long as no
folder goes away.
-/

namespace Workflow.Files

variable {fs fs' : Files} {place q : List String} {steps : List String} {path : String}

/-! ## Ways that lead to folders -/

/-- All that is a folder in one state is a folder in another one. -/
def FoldersStay (fs fs' : Files) : Prop :=
  ∀ q, fs.get? q = some .folder → fs'.get? q = some .folder

theorem Grows.foldersStay {new : List String → Prop} (h : fs.Grows fs' new) : fs.FoldersStay fs' :=
  fun _ ↦ h.folder

theorem foldersStay_put (h : fs.get? place ≠ some .folder) (e : Entry) :
    fs.FoldersStay (fs.put place e) := by
  intro q hq
  have hne : q ≠ place := by
    rintro rfl
    exact h hq
  rw [get?_put_of_ne hne]
  exact hq

theorem FoldersStay.follow (h : fs.FoldersStay fs')
    (hfollow : fs.follow place steps = .ok (q, .folder)) :
    fs'.follow place steps = .ok (q, .folder) := by
  induction steps generalizing place with
  | nil =>
    obtain ⟨rfl, hfolder⟩ := follow_nil_eq_ok_iff.1 hfollow
    exact follow_nil_eq_ok_iff.2 ⟨rfl, h _ hfolder⟩
  | cons step steps ih =>
    have hplace := get?_of_follow_cons hfollow
    rw [follow_cons hplace] at hfollow
    rw [follow_cons (h _ hplace)]
    split at hfollow
    · cases hfollow
    · next hshort =>
      rw [if_neg hshort]
      exact ih hfollow

theorem follow_concat_dot (h : fs.follow place steps = .ok (q, .folder)) :
    fs.follow place (steps ++ ["."]) = .ok (q, .folder) := by
  induction steps generalizing place with
  | nil =>
    rw [List.nil_append, follow_cons (follow_nil_eq_ok_iff.1 h).2, if_neg (by decide)]
    exact h
  | cons step steps ih =>
    have hplace := get?_of_follow_cons h
    rw [follow_cons hplace] at h
    rw [List.cons_append, follow_cons hplace]
    split at h
    · cases h
    · next hshort =>
      rw [if_neg hshort]
      exact ih h

/-- Steps without two dots never lead back. -/
theorem length_le_walk (h : ".." ∉ steps) (place : List String) :
    place.length ≤ (walk place steps).length := by
  induction steps generalizing place with
  | nil => exact Nat.le_refl _
  | cons step steps ih =>
    obtain ⟨hdots, hsteps⟩ := List.ne_and_not_mem_of_not_mem_cons h
    by_cases hdot : step = "."
    · subst hdot
      rw [walk_dot]
      exact ih hsteps place
    · rw [walk_name hdot hdots.symm]
      refine Nat.le_trans ?_ (ih hsteps _)
      rw [List.length_append]
      exact Nat.le_add_right _ _

/-! ## Names in a folder -/

theorem find_eq_ok {r : List String × Entry} (h : fs.find path = .ok r) : r.1 = fs.place path := by
  rw [find] at h
  split at h
  · cases h
  · split at h
    · cases h
    · dsimp only at h
      rw [← start] at h
      rw [follow_eq_ok h, walk_append, place_eq_walk]
      split
      · rfl
      · rfl

theorem ite_getLast?_eq_some_iff {name : String} :
    (if q.dropLast = place then q.getLast? else none) = some name ↔ place ++ [name] = q := by
  constructor
  · intro h
    split at h
    · next hplace =>
      obtain ⟨before, rfl⟩ := List.getLast?_eq_some_iff.1 h
      rw [List.dropLast_concat] at hplace
      rw [hplace]
    · cases h
  · rintro rfl
    rw [List.dropLast_concat, if_pos rfl, List.getLast?_concat]

theorem mem_list_iff {names : List String} (h : fs.list path = .ok names) {name : String} :
    name ∈ names ↔ (fs.get? (fs.place path ++ [name])).isSome = true := by
  rw [list] at h
  split at h
  · next place hfind =>
    cases h
    have hne : ¬(place ++ [name]).isEmpty = true := by simp
    rw [← find_eq_ok hfind, get?, if_neg hne, List.lookup_isSome_iff, List.mem_filterMap]
    refine exists_congr fun entry ↦ and_congr_right fun _ ↦ ?_
    rw [beq_iff_eq]
    exact ite_getLast?_eq_some_iff
  · cases h
  · cases h

theorem exists_list_of_follow (hne : path ≠ "") (hnul : '\x00' ∉ path.toList)
    (h : fs.follow (fs.start path) (Path.pieces path) = .ok (fs.place path, .folder)) :
    ∃ names, fs.list path = .ok names := by
  have hfind : fs.find path = .ok (fs.place path, .folder) := by
    rw [find, if_neg (by simpa using hne), if_neg (fun hmem ↦ hnul (List.contains_iff_mem.1 hmem))]
    dsimp only
    rw [← start]
    split
    · exact follow_concat_dot h
    · rw [List.append_nil]
      exact h
  rw [list, hfind]
  exact ⟨_, rfl⟩

/-- The empty path leads nowhere. -/
theorem list_empty (fs : Files) : fs.list "" = .error .notFound := rfl

end Workflow.Files
