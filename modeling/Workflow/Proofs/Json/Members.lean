import Mathlib.Data.List.Nodup
import Workflow.Json.Members
import Workflow.Text.NameSet

/-!
# Look-up in members

Members whose names are all different are known by their look-ups: a member is there if and only if
its name leads to its value. So nothing that reads members by name depends on their order, and
`Members.ofList`, which puts them in ascending order, changes no look-up.

Most documents have members that may be left out. `Members.present` lists those that are there, and
its look-ups are read off the list of all of them.
-/

namespace Workflow.Json.Members

variable {α β : Type}

def Distinct (ms : Members α) : Prop := (ms.map (·.1)).Nodup

/-! ## Members and their look-ups -/

theorem mem_of_get? {ms : Members α} {name : String} {v : α} (h : ms.get? name = some v) :
    (name, v) ∈ ms := by
  induction ms with
  | nil => cases h
  | cons m ms ih =>
    obtain ⟨n, w⟩ := m
    rw [get?_cons] at h
    split at h
    · next hn =>
      cases h
      rw [hn]
      exact List.mem_cons_self
    · exact List.mem_cons_of_mem _ (ih h)

theorem get?_eq_none {ms : Members α} {name : String} (h : name ∉ ms.map (·.1)) :
    ms.get? name = none := by
  cases hv : ms.get? name with
  | none => rfl
  | some v => exact absurd (List.mem_map_of_mem (mem_of_get? hv)) h

theorem isSome_get?_iff {ms : Members α} {name : String} :
    (ms.get? name).isSome ↔ name ∈ ms.map (·.1) := by
  induction ms with
  | nil => simp
  | cons m ms ih =>
    obtain ⟨n, w⟩ := m
    rw [get?_cons, List.map_cons, List.mem_cons, ← ih]
    by_cases hn : n = name
    · simp [hn]
    · simp [hn, Ne.symm hn]

theorem Distinct.get?_of_mem {ms : Members α} (h : ms.Distinct) {name : String} {v : α}
    (hv : (name, v) ∈ ms) : ms.get? name = some v := by
  induction ms with
  | nil => cases hv
  | cons m ms ih =>
    obtain ⟨n, w⟩ := m
    obtain ⟨hn, hms⟩ := List.nodup_cons.1 h
    rw [get?_cons]
    rcases List.mem_cons.1 hv with heq | hv
    · cases heq
      rw [if_pos rfl]
    · have hne : n ≠ name := by
        rintro rfl
        exact hn (List.mem_map.2 ⟨_, hv, rfl⟩)
      rw [if_neg hne, ih hms hv]

theorem get?_filter (p : String → Bool) {name : String} (h : p name = true) (ms : Members α) :
    get? name (ms.filter fun m ↦ p m.1) = ms.get? name := by
  induction ms with
  | nil => rfl
  | cons m ms ih =>
    obtain ⟨n, w⟩ := m
    by_cases hn : n = name
    · subst hn
      rw [List.filter_cons_of_pos (by exact h), get?_cons, get?_cons, if_pos rfl, if_pos rfl]
    · rw [get?_cons, if_neg hn, List.filter_cons]
      split
      · rw [get?_cons, if_neg hn, ih]
      · exact ih

/-! ## The order of insertions -/

theorem insert_comm_of_lt {a b : String} (h : a < b) (v w : α) (ms : Members α) :
    insert a v (insert b w ms) = insert b w (insert a v ms) := by
  have hba := String.lt_asymm h
  have hne := String.ne_of_lt h
  induction ms with
  | nil => simp [insert, h, hba, hne]
  | cons m ms ih =>
    obtain ⟨n, u⟩ := m
    by_cases hbn : b < n
    · have han := String.lt_trans h hbn
      simp [insert, h, hba, hne, hbn, han]
    · by_cases hnb : n = b
      · subst hnb
        simp [insert, h, hba, hne]
      · by_cases han : a < n
        · simp [insert, hba, hne, hbn, hnb, han]
        · by_cases hna : n = a
          · subst hna
            simp [insert, hbn, hnb]
          · simp [insert, hbn, hnb, han, hna, ih]

/-- Values that are put under different names may be put there in either order. -/
theorem insert_comm {a b : String} (h : a ≠ b) (v w : α) (ms : Members α) :
    insert a v (insert b w ms) = insert b w (insert a v ms) := by
  by_cases hlt : a < b
  · exact insert_comm_of_lt hlt v w ms
  · exact (insert_comm_of_lt (Std.lt_of_le_of_ne (String.not_lt.1 hlt) h.symm) w v ms).symm

/-! ## Ascending order -/

theorem eq_or_mem_of_mem_insert {name : String} {v : α} {ms : Members α} {m : String × α}
    (h : m ∈ insert name v ms) : m = (name, v) ∨ m ∈ ms := by
  induction ms with
  | nil => exact .inl (List.mem_singleton.1 h)
  | cons k ms ih =>
    obtain ⟨n, w⟩ := k
    rw [insert] at h
    split at h
    · exact List.mem_cons.1 h
    · split at h
      · exact (List.mem_cons.1 h).imp_right (List.mem_cons_of_mem _)
      · rcases List.mem_cons.1 h with rfl | h
        · exact .inr List.mem_cons_self
        · exact (ih h).imp_right (List.mem_cons_of_mem _)

theorem mem_or_mem_of_mem_insertAll {ms more : Members α} {m : String × α}
    (h : m ∈ insertAll ms more) : m ∈ ms ∨ m ∈ more := by
  induction more generalizing ms with
  | nil => exact .inl h
  | cons k more ih =>
    rcases ih h with h | h
    · rcases eq_or_mem_of_mem_insert h with rfl | h
      · exact .inr List.mem_cons_self
      · exact .inl h
    · exact .inr (List.mem_cons_of_mem _ h)

theorem map_fst_insert (name : String) (v : α) (ms : Members α) :
    (insert name v ms).map (·.1) = Text.NameSet.insert name (ms.map (·.1)) := by
  induction ms with
  | nil => rfl
  | cons m ms ih =>
    obtain ⟨n, w⟩ := m
    rw [insert, List.map_cons, Text.NameSet.insert]
    split
    · rfl
    · split
      · next h => rw [List.map_cons, h]
      · rw [List.map_cons, ih]

theorem Sorted.insert {ms : Members α} (h : ms.Sorted) (name : String) (v : α) :
    Sorted (insert name v ms) := by
  rw [Sorted, map_fst_insert]
  exact Text.NameSet.Sorted.insert h

theorem Sorted.insertAll {ms : Members α} (h : ms.Sorted) (more : Members α) :
    Sorted (insertAll ms more) := by
  induction more generalizing ms with
  | nil => exact h
  | cons m more ih => exact ih (h.insert m.1 m.2)

theorem sorted_nil : Sorted ([] : Members α) := List.Pairwise.nil

theorem sorted_ofList (ms : Members α) : Sorted (ofList ms) := sorted_nil.insertAll ms

theorem Sorted.distinct {ms : Members α} (h : ms.Sorted) : ms.Distinct :=
  List.Pairwise.imp (fun hlt ↦ String.ne_of_lt hlt) h

theorem insert_eq_append {name : String} {v : α} {ms : Members α} (h : ∀ m ∈ ms, m.1 < name) :
    insert name v ms = ms ++ [(name, v)] := by
  induction ms with
  | nil => rfl
  | cons m ms ih =>
    obtain ⟨n, w⟩ := m
    obtain ⟨hn, hms⟩ := List.forall_mem_cons.1 h
    have hne : n ≠ name := fun heq ↦ String.lt_irrefl _ (heq ▸ hn)
    rw [insert, if_neg (String.lt_asymm hn), if_neg hne, ih hms]
    rfl

theorem insertAll_eq_append {ms more : Members α} (h : Sorted (ms ++ more)) :
    insertAll ms more = ms ++ more := by
  induction more generalizing ms with
  | nil => exact (List.append_nil ms).symm
  | cons m more ih =>
    have hms : ∀ k ∈ ms, k.1 < m.1 := by
      rw [Sorted, List.map_append, List.pairwise_append] at h
      exact fun k hk ↦ h.2.2 k.1 (List.mem_map_of_mem hk) m.1 List.mem_cons_self
    have hm : insertAll ms (m :: more) = insertAll (ms ++ [m]) more := by
      rw [← insert_eq_append hms]
      rfl
    have hs : Sorted (ms ++ [m] ++ more) := by rwa [List.append_assoc]
    rw [hm, ih hs, List.append_assoc]
    rfl

theorem ofList_eq_self {ms : Members α} (h : ms.Sorted) : ofList ms = ms := insertAll_eq_append h

theorem get?_insertAll {more : Members α} (h : more.Distinct) (name : String) (ms : Members α) :
    get? name (insertAll ms more) = (more.get? name).or (ms.get? name) := by
  induction more generalizing ms with
  | nil => rfl
  | cons m more ih =>
    obtain ⟨n, v⟩ := m
    obtain ⟨hn, hmore⟩ := List.nodup_cons.1 h
    have hstep : insertAll ms ((n, v) :: more) = insertAll (ms.insert n v) more := rfl
    rw [hstep, ih hmore, get?_insert, get?_cons]
    split
    · next heq =>
      rw [get?_eq_none (heq ▸ hn)]
      rfl
    · rfl

theorem get?_insertAll_filterMap (f : String → Option α) (names : List String) (name : String)
    (ms : Members α) :
    get? name (insertAll ms (names.filterMap fun n ↦ (f n).map fun v ↦ (n, v))) =
      if name ∈ names then (f name).or (ms.get? name) else ms.get? name := by
  induction names generalizing ms with
  | nil => rfl
  | cons n names ih =>
    have hcons : name ∈ n :: names ↔ n = name ∨ name ∈ names := by rw [List.mem_cons, eq_comm]
    cases hv : f n with
    | none =>
      rw [List.filterMap_cons_none (by rw [hv]; rfl), ih]
      by_cases hn : n = name
      · rw [if_pos (hcons.2 (.inl hn)), ← hn, hv, Option.none_or, ite_self]
      · simp only [hcons, hn, false_or]
    | some v =>
      have hstep : ∀ more, insertAll ms ((n, v) :: more) = insertAll (ms.insert n v) more :=
        fun _ ↦ rfl
      rw [List.filterMap_cons_some (b := (n, v)) (by rw [hv]; rfl), hstep, ih, get?_insert]
      by_cases hn : n = name
      · rw [if_pos hn, if_pos (hcons.2 (.inl hn)), ← hn, hv, Option.some_or, Option.some_or,
          ite_self]
      · simp only [hcons, hn, false_or, if_false]

/-- Members with different names are found in whatever order they stand. -/
theorem get?_ofList {ms : Members α} (h : ms.Distinct) (name : String) :
    get? name (ofList ms) = ms.get? name := by
  rw [ofList, get?_insertAll h, get?_nil, Option.or_none]

theorem get?_union (ms more : Members α) (name : String) :
    get? name (ms.union more) = (ms.get? name).or (more.get? name) := by
  induction more generalizing ms with
  | nil => exact (Option.or_none).symm
  | cons m more ih =>
    obtain ⟨n, v⟩ := m
    have hstep : ms.union ((n, v) :: more) = (ms.insertNew n v).union more := rfl
    rw [hstep, ih, get?_insertNew, get?_cons, Option.or_assoc]
    split
    · rfl
    · rw [Option.none_or]

/-- Members of names that are there already add nothing. -/
theorem union_eq_self {ms more : Members α} (h : ∀ m ∈ more, ms.contains m.1) :
    ms.union more = ms := by
  induction more with
  | nil => rfl
  | cons m more ih =>
    obtain ⟨hm, hmore⟩ := List.forall_mem_cons.1 h
    have hstep : ms.union (m :: more) = (ms.insertNew m.1 m.2).union more := rfl
    rw [hstep, insertNew, if_pos hm, ih hmore]

theorem mapValues_insert (f : α → β) (name : String) (v : α) (ms : Members α) :
    mapValues f (insert name v ms) = insert name (f v) (mapValues f ms) := by
  induction ms with
  | nil => rfl
  | cons m ms ih =>
    obtain ⟨n, w⟩ := m
    simp only [insert, mapValues, List.map_cons] at ih ⊢
    split
    · rfl
    · split
      · rfl
      · rw [List.map_cons, ih]

theorem mapValues_ofList (f : α → β) (ms : Members α) :
    mapValues f (ofList ms) = ofList (mapValues f ms) := by
  have h : ∀ acc : Members α,
      mapValues f (insertAll acc ms) = insertAll (mapValues f acc) (mapValues f ms) := by
    induction ms with
    | nil => exact fun acc ↦ rfl
    | cons m ms ih =>
      intro acc
      have hm : insertAll (mapValues f acc) (mapValues f (m :: ms)) =
          insertAll (mapValues f (acc.insert m.1 m.2)) (mapValues f ms) := by
        rw [mapValues_insert]
        rfl
      rw [hm, ← ih]
      rfl
  exact h []

theorem Distinct.mapValues {ms : Members α} (h : ms.Distinct) (f : α → β) :
    Distinct (mapValues f ms) := by
  rw [Distinct, Members.mapValues, List.map_map]
  exact h

/-! ## Members that may be left out -/

/-- The members that are there, among some that may be left out. -/
def present (fs : Members (Option α)) : Members α :=
  fs.flatMap fun f ↦ (f.2.map fun v ↦ (f.1, v)).toList

theorem present_cons (f : String × Option α) (fs : Members (Option α)) :
    present (f :: fs) = (f.2.map fun v ↦ (f.1, v)).toList ++ present fs := List.flatMap_cons

theorem names_present_sublist (fs : Members (Option α)) :
    ((present fs).map (·.1)).Sublist (fs.map (·.1)) := by
  induction fs with
  | nil => exact List.Sublist.refl _
  | cons f fs ih =>
    obtain ⟨n, _ | v⟩ := f
    · exact ih.cons n
    · exact ih.cons_cons n

theorem Distinct.present {fs : Members (Option α)} (h : fs.Distinct) : (present fs).Distinct :=
  h.sublist (names_present_sublist fs)

theorem get?_present {fs : Members (Option α)} (h : fs.Distinct) (name : String) :
    get? name (present fs) = (fs.get? name).join := by
  induction fs with
  | nil => rfl
  | cons f fs ih =>
    obtain ⟨n, o⟩ := f
    obtain ⟨hn, hfs⟩ := List.nodup_cons.1 h
    have hnone : n = name → get? name (Members.present fs) = none := fun heq ↦
      get?_eq_none fun hmem ↦ hn (heq ▸ (names_present_sublist fs).subset hmem)
    rw [present_cons, get?_cons]
    cases o with
    | none =>
      split
      · next heq => exact hnone heq
      · exact ih hfs
    | some v =>
      rw [Option.map_some, Option.toList_some, List.singleton_append, get?_cons]
      split
      · rfl
      · exact ih hfs

end Workflow.Json.Members
