/-!
# Named members in key order

A list of named values, kept in ascending order of the names by `insert`. Looking a name up finds
the first member of that name. The laws of `insert` below need no assumption on the order, so they
hold of every list of members, also of one read as it stood in a document.
-/

namespace Workflow.Json

/-- Named values. -/
abbrev Members (α : Type) := List (String × α)

namespace Members

variable {α β : Type}

/-- The value of the first member with a name. -/
def get? (name : String) : Members α → Option α
  | [] => none
  | (n, v) :: ms => if n = name then some v else get? name ms

def contains (name : String) (ms : Members α) : Bool := (ms.get? name).isSome

/-- Puts a value under a name: in place of the value it had, or before the first greater name. -/
def insert (name : String) (value : α) : Members α → Members α
  | [] => [(name, value)]
  | (n, v) :: ms =>
    if name < n then (name, value) :: (n, v) :: ms
    else if n = name then (name, value) :: ms
    else (n, v) :: insert name value ms

/-- Puts a value under a name that has none yet. -/
def insertNew (name : String) (value : α) (ms : Members α) : Members α :=
  if ms.contains name then ms else ms.insert name value

/-- Puts values under their names one after another, so that the last of one name stays. -/
def insertAll (ms : Members α) (more : Members α) : Members α :=
  more.foldl (fun acc (n, v) ↦ acc.insert n v) ms

/-- Members in ascending order of their names, the last one of each name. -/
def ofList (ms : Members α) : Members α := insertAll [] ms

/-- Adds the members of names that are new. -/
def union (ms : Members α) (more : Members α) : Members α :=
  more.foldl (fun acc (n, v) ↦ acc.insertNew n v) ms

def mapValues (f : α → β) (ms : Members α) : Members β := ms.map fun (n, v) ↦ (n, f v)

/-- The names in strictly ascending order. -/
def Sorted (ms : Members α) : Prop := (ms.map (·.1)).Pairwise (· < ·)

/-! ## Laws of look-up -/

@[simp] theorem get?_nil (name : String) : get? name ([] : Members α) = none := rfl

theorem get?_cons (name n : String) (v : α) (ms : Members α) :
    get? name ((n, v) :: ms) = if n = name then some v else get? name ms := rfl

theorem get?_insert (name n : String) (v : α) (ms : Members α) :
    get? name (insert n v ms) = if n = name then some v else get? name ms := by
  induction ms with
  | nil => rfl
  | cons m ms ih =>
    obtain ⟨k, w⟩ := m
    simp only [insert]
    split
    · simp [get?_cons]
    · split
      · next h => subst h; simp [get?_cons]; split <;> simp_all
      · next h =>
        simp only [get?_cons, ih]
        split
        · next h' => subst h'; simp [Ne.symm h]
        · rfl

theorem contains_insert (name n : String) (v : α) (ms : Members α) :
    contains name (insert n v ms) = (decide (n = name) || contains name ms) := by
  simp only [contains, get?_insert]
  split <;> simp_all

theorem get?_insertNew (name n : String) (v : α) (ms : Members α) :
    get? name (insertNew n v ms) = (get? name ms).or (if n = name then some v else none) := by
  simp only [insertNew]
  split
  · next h =>
    simp only [contains] at h
    split
    · next h' => subst h'; obtain ⟨w, hw⟩ := Option.isSome_iff_exists.1 h; simp [hw]
    · simp
  · next h =>
    simp only [contains, Bool.not_eq_true, Option.isSome_eq_false_iff,
      Option.isNone_iff_eq_none] at h
    rw [get?_insert]
    split
    · next h' => subst h'; simp [h]
    · simp

theorem get?_mapValues (f : α → β) (name : String) (ms : Members α) :
    get? name (mapValues f ms) = (get? name ms).map f := by
  induction ms with
  | nil => rfl
  | cons m ms ih =>
    obtain ⟨k, w⟩ := m
    simp only [mapValues, List.map_cons, get?_cons] at ih ⊢
    split <;> simp_all

end Members

end Workflow.Json
