/-!
# Sets of names

A set of names is a list in strictly ascending order. `Sorted.insert` says that adding a name keeps
the order and `mem_insert` what it adds.
-/

namespace Workflow.Text

/-- Names in strictly ascending order. -/
abbrev NameSet := List String

namespace NameSet

def insert (name : String) : NameSet → NameSet
  | [] => [name]
  | n :: ns =>
    if name < n then name :: n :: ns else if n = name then n :: ns else n :: insert name ns

def insertAll (set : NameSet) (names : List String) : NameSet :=
  names.foldl (fun acc n ↦ insert n acc) set

def ofList (names : List String) : NameSet := insertAll [] names

/-- Strictly ascending order. -/
def Sorted (set : NameSet) : Prop := set.Pairwise (· < ·)

/-! ## Laws -/

@[simp] theorem mem_insert {name x : String} {set : NameSet} :
    x ∈ insert name set ↔ x = name ∨ x ∈ set := by
  induction set with
  | nil => simp [insert]
  | cons n ns ih =>
    simp only [insert]
    split
    · simp
    · split
      · next h => subst h; simp
      · simp only [List.mem_cons, ih]
        constructor <;> rintro (h | h | h) <;> simp [h]

@[simp] theorem mem_insertAll {x : String} {set : NameSet} {names : List String} :
    x ∈ insertAll set names ↔ x ∈ set ∨ x ∈ names := by
  induction names generalizing set with
  | nil => simp [insertAll]
  | cons n ns ih =>
    have step : insertAll set (n :: ns) = insertAll (insert n set) ns := rfl
    rw [step, ih, mem_insert, List.mem_cons]
    grind

theorem mem_ofList {x : String} {names : List String} : x ∈ ofList names ↔ x ∈ names := by
  simp [ofList]

theorem Sorted.insert {name : String} {set : NameSet} (h : Sorted set) :
    Sorted (NameSet.insert name set) := by
  induction set with
  | nil => simp [NameSet.insert, Sorted]
  | cons n ns ih =>
    obtain ⟨hn, hs⟩ := List.pairwise_cons.1 h
    simp only [NameSet.insert]
    split
    · next hlt =>
      refine List.pairwise_cons.2 ⟨fun x hx ↦ ?_, h⟩
      rcases List.mem_cons.1 hx with rfl | hx
      · exact hlt
      · exact String.lt_trans hlt (hn x hx)
    · split
      · exact h
      · next hle hne =>
        refine List.pairwise_cons.2 ⟨fun x hx ↦ ?_, ih hs⟩
        rcases mem_insert.1 hx with rfl | hx
        · exact Decidable.byContradiction fun hlt ↦
            hne (String.le_antisymm (String.not_lt.1 hle) (String.not_lt.1 hlt))
        · exact hn x hx

theorem Sorted.insertAll {set : NameSet} {names : List String} (h : Sorted set) :
    Sorted (NameSet.insertAll set names) := by
  induction names generalizing set with
  | nil => exact h
  | cons n ns ih => exact ih h.insert

theorem sorted_ofList (names : List String) : Sorted (ofList names) :=
  Sorted.insertAll List.Pairwise.nil

/-- A name after all others goes to the end. -/
theorem insert_eq_append {name : String} {set : NameSet} (h : ∀ n ∈ set, n < name) :
    insert name set = set ++ [name] := by
  induction set with
  | nil => rfl
  | cons n ns ih =>
    obtain ⟨hn, hns⟩ := List.forall_mem_cons.1 h
    have hne : n ≠ name := fun heq ↦ String.lt_irrefl _ (heq ▸ hn)
    rw [insert, if_neg (String.lt_asymm hn), if_neg hne, ih hns]
    rfl

theorem insertAll_eq_append {set : NameSet} {names : List String} (h : Sorted (set ++ names)) :
    insertAll set names = set ++ names := by
  induction names generalizing set with
  | nil => exact (List.append_nil set).symm
  | cons n ns ih =>
    have hset : ∀ m ∈ set, m < n := fun m hm ↦
      (List.pairwise_append.1 h).2.2 m hm n List.mem_cons_self
    have hn : insertAll set (n :: ns) = insertAll (set ++ [n]) ns := by
      rw [← insert_eq_append hset]
      rfl
    have hs : Sorted (set ++ [n] ++ ns) := by rwa [List.append_assoc]
    rw [hn, ih hs, List.append_assoc]
    rfl

theorem insert_comm_of_lt {a b : String} (h : a < b) (set : NameSet) :
    insert a (insert b set) = insert b (insert a set) := by
  have hba := String.lt_asymm h
  have hne := String.ne_of_lt h
  induction set with
  | nil => simp [insert, h, hba, hne]
  | cons n ns ih =>
    by_cases hbn : b < n
    · have han := String.lt_trans h hbn
      simp [insert, h, hba, hne, hbn, han]
    · by_cases hnb : n = b
      · subst hnb
        simp [insert, h, hba, hne]
      · by_cases han : a < n
        · simp [insert, hba, hne, hbn, hnb, han]
        · by_cases hna : n = a
          · subst hna
            simp [insert, hbn, hnb]
          · simp [insert, hbn, hnb, han, hna, ih]

/-- The order in which names are added makes no difference. -/
theorem insert_comm (a b : String) (set : NameSet) :
    insert a (insert b set) = insert b (insert a set) := by
  by_cases h : a < b
  · exact insert_comm_of_lt h set
  · by_cases heq : a = b
    · rw [heq]
    · exact (insert_comm_of_lt (Std.lt_of_le_of_ne (String.not_lt.1 h) (Ne.symm heq)) set).symm

theorem insertAll_insert (name : String) (set : NameSet) (names : List String) :
    insertAll (insert name set) names = insert name (insertAll set names) := by
  induction names generalizing set with
  | nil => rfl
  | cons n ns ih =>
    have hstep : insertAll (insert name set) (n :: ns) =
        insertAll (insert n (insert name set)) ns := rfl
    rw [hstep, insert_comm, ih]
    rfl

theorem insertAll_append (set : NameSet) (xs ys : List String) :
    insertAll (insertAll set xs) ys = insertAll set (xs ++ ys) := List.foldl_append.symm

/-- Names that are added in another order make the same set. -/
theorem insertAll_perm {xs ys : List String} (h : xs.Perm ys) (set : NameSet) :
    insertAll set xs = insertAll set ys :=
  h.foldl_eq' (fun x _ y _ acc ↦ insert_comm y x acc) set

theorem insertAll_comm (set : NameSet) (xs ys : List String) :
    insertAll (insertAll set xs) ys = insertAll (insertAll set ys) xs := by
  rw [insertAll_append, insertAll_append]
  exact insertAll_perm List.perm_append_comm set

theorem insert_insert (name : String) (set : NameSet) :
    insert name (insert name set) = insert name set := by
  induction set with
  | nil => simp [insert]
  | cons n ns ih =>
    by_cases hlt : name < n
    · simp [insert, hlt]
    · by_cases hn : n = name
      · simp [insert, hn]
      · simp [insert, hlt, hn, ih]

theorem insert_insertAll_of_mem {name : String} {names : List String} (h : name ∈ names)
    (set : NameSet) : insert name (insertAll set names) = insertAll set names := by
  induction names generalizing set with
  | nil => cases h
  | cons n ns ih =>
    have hstep : insertAll set (n :: ns) = insertAll (insert n set) ns := rfl
    rw [hstep]
    rcases List.mem_cons.1 h with rfl | h
    · rw [← insertAll_insert, insert_insert]
    · exact ih h _

/-- Names that were added already add nothing. -/
theorem insertAll_of_subset {xs ys : List String} (h : ys ⊆ xs) (set : NameSet) :
    insertAll (insertAll set xs) ys = insertAll set xs := by
  induction ys with
  | nil => rfl
  | cons y ys ih =>
    obtain ⟨hy, hys⟩ := List.cons_subset.1 h
    have hstep : insertAll (insertAll set xs) (y :: ys) =
        insertAll (insert y (insertAll set xs)) ys := rfl
    rw [hstep, insert_insertAll_of_mem hy, ih hys]

/-- A set is the set of its names. -/
theorem ofList_eq_self {set : NameSet} (h : Sorted set) : ofList set = set :=
  insertAll_eq_append h

end NameSet

end Workflow.Text
