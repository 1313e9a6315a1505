import Mathlib.Data.List.Induction
import Workflow.Context
import Workflow.Proofs.Json.Members

/-!
# Forks of a context

While forks of a context are worked on, the context itself goes on: it sets variables, other forks
are made of it, and some are folded back. So a fork may be folded back long after it was made, with
a copy of variables that have changed in the meantime. `Family.Develops` lets all of this happen in
any order, and anything happen to a fork.

What the parent becomes can be said without the forks' histories. It is the parent that has made its
own edits alone, with the variables that this one lacks taken from the first merged fork to have
them, and with all files of all merged forks. `Family.Outcome` says this and what one merge does;
`Family.Develops.outcome` proves it of every history.
-/

namespace Workflow

open Json (Members Value)
open Text (NameSet)

namespace Context

/-! ## Histories -/

/-- What a context does to itself. -/
inductive Edit where
  | set (name : String) (v : Value)
  | addFile (path : String)
  | markCompleted (phase : String)
  | markPaused (task : String)

def edit (c : Context) : Edit → Context
  | .set name v => c.set name v
  | .addFile path => c.addFile path
  | .markCompleted phase => c.markCompleted phase
  | .markPaused task => c.markPaused task

/-- What happens to a context: an edit of its own, or a fork that is folded back. -/
inductive Event where
  | edit (e : Edit)
  | merge (child : Context)

namespace Event

/-- The edits among some events. -/
def edits (es : List Event) : List Edit :=
  es.filterMap fun
    | .edit e => some e
    | .merge _ => none

def merged (es : List Event) : List Context :=
  es.filterMap fun
    | .edit _ => none
    | .merge child => some child

def files : Event → List String
  | .edit (.addFile path) => [path]
  | .edit _ => []
  | .merge child => child.changedFiles

variable {es : List Event} {child : Context} {path : String}

theorem mem_merged : child ∈ merged es ↔ .merge child ∈ es := by
  rw [merged, List.mem_filterMap]
  constructor
  · rintro ⟨e | d, hmem, h⟩
    · cases h
    · cases h
      exact hmem
  · exact fun h ↦ ⟨_, h, rfl⟩

theorem mem_flatMap_files :
    path ∈ es.flatMap files ↔
      .edit (.addFile path) ∈ es ∨ ∃ child ∈ merged es, path ∈ child.changedFiles := by
  rw [List.mem_flatMap]
  constructor
  · rintro ⟨e | child, hmem, h⟩
    · cases e with
      | addFile p =>
        cases List.mem_singleton.1 h
        exact .inl hmem
      | set _ _ | markCompleted _ | markPaused _ => cases h
    · exact .inr ⟨child, mem_merged.2 hmem, h⟩
  · rintro (hmem | ⟨child, hmem, h⟩)
    · exact ⟨_, hmem, List.mem_singleton_self path⟩
    · exact ⟨_, mem_merged.1 hmem, h⟩

@[simp] theorem merged_append_edit (es : List Event) (e : Edit) :
    merged (es ++ [.edit e]) = merged es := by
  simp [merged]

@[simp] theorem merged_append_merge (es : List Event) (child : Context) :
    merged (es ++ [.merge child]) = merged es ++ [child] := by
  simp [merged]

end Event

/-- What a context becomes by an event. -/
def become (c : Context) : Event → Context
  | .edit e => c.edit e
  | .merge child => c.merge child

/-- What a context becomes by some events, one after another. -/
def after (c : Context) (es : List Event) : Context := es.foldl become c

/-- What a context becomes by the edits among some events, as if no fork were ever folded back. -/
def alone (c : Context) (es : List Event) : Context := (Event.edits es).foldl edit c

section Histories

variable (c : Context) (es : List Event)

@[simp] theorem after_append (e : Event) : c.after (es ++ [e]) = (c.after es).become e := by
  simp [after]

@[simp] theorem alone_append_edit (e : Edit) :
    c.alone (es ++ [.edit e]) = (c.alone es).edit e := by
  simp [alone, Event.edits]

@[simp] theorem alone_append_merge (child : Context) :
    c.alone (es ++ [.merge child]) = c.alone es := by
  simp [alone, Event.edits]

end Histories

/-! ## One event -/

section Step

variable {c d : Context}

theorem get?_merge (c child : Context) (key : String) :
    (c.merge child).vars.get? key = (c.vars.get? key).or (child.vars.get? key) :=
  Members.get?_union _ _ key

theorem get?_edit_or {key : String} {o : Option Value}
    (h : c.vars.get? key = (d.vars.get? key).or o) (e : Edit) :
    (c.edit e).vars.get? key = ((d.edit e).vars.get? key).or o := by
  cases e with
  | set name v =>
    simp only [edit, set, Members.get?_insert]
    split
    · rfl
    · exact h
  | addFile _ | markPaused _ => exact h
  | markCompleted phase =>
    simp only [edit, markCompleted, apply_ite Context.vars, ite_self]
    exact h

theorem get?_edit_eq_none {key : String} (h : c.vars.get? key = none) {e : Edit}
    (he : ∀ v, e ≠ .set key v) : (c.edit e).vars.get? key = none := by
  cases e with
  | set name v =>
    have hne : name ≠ key := fun heq ↦ he v (heq ▸ rfl)
    simp only [edit, set, Members.get?_insert, if_neg hne, h]
  | addFile _ | markPaused _ => exact h
  | markCompleted phase =>
    simp only [edit, markCompleted, apply_ite Context.vars, ite_self, h]

theorem changedFiles_become (c : Context) (e : Event) :
    (c.become e).changedFiles = NameSet.insertAll c.changedFiles e.files := by
  cases e with
  | merge child => rfl
  | edit e =>
    cases e with
    | set _ _ | addFile _ | markPaused _ => rfl
    | markCompleted phase =>
      simp only [become, edit, markCompleted, apply_ite Context.changedFiles, ite_self]
      rfl

/-- Two contexts have the same completed phases, task at hand and paused task. -/
structure SameProgress (c d : Context) : Prop where
  completedPhases_eq : c.completedPhases = d.completedPhases
  task_eq : c.task = d.task
  pausedTask_eq : c.pausedTask = d.pausedTask

theorem SameProgress.refl (c : Context) : c.SameProgress c := ⟨rfl, rfl, rfl⟩

theorem SameProgress.merge (h : c.SameProgress d) (child : Context) :
    (c.merge child).SameProgress d :=
  ⟨h.completedPhases_eq, h.task_eq, h.pausedTask_eq⟩

theorem SameProgress.edit (h : c.SameProgress d) (e : Edit) :
    (c.edit e).SameProgress (d.edit e) := by
  cases e with
  | set _ _ | addFile _ => exact ⟨h.completedPhases_eq, h.task_eq, h.pausedTask_eq⟩
  | markPaused task => exact ⟨h.completedPhases_eq, h.task_eq, rfl⟩
  | markCompleted phase =>
    have hphase : c.isCompleted phase = d.isCompleted phase := by
      rw [isCompleted, isCompleted, h.completedPhases_eq]
    simp only [Context.edit, markCompleted, hphase]
    split
    · exact h
    · exact ⟨congrArg (· ++ [phase]) h.completedPhases_eq, h.task_eq, h.pausedTask_eq⟩

end Step

/-! ## All events -/

section Run

variable {c : Context} {es : List Event}

/-- A variable that the context alone would lack is that of the first merged fork to have it. -/
theorem get?_after (c : Context) (es : List Event) (key : String) :
    (c.after es).vars.get? key =
      ((c.alone es).vars.get? key).or ((Event.merged es).findSome? fun d ↦ d.vars.get? key) := by
  induction es using List.reverseRecOn with
  | nil => exact Option.or_none.symm
  | append_singleton es e ih =>
    cases e with
    | edit e =>
      rw [after_append, alone_append_edit, Event.merged_append_edit]
      exact get?_edit_or ih e
    | merge child =>
      rw [after_append, alone_append_merge, Event.merged_append_merge, become, get?_merge, ih,
        Option.or_assoc, List.findSome?_append, List.findSome?_singleton]

theorem get?_alone_eq_none {key : String} (h : c.vars.get? key = none)
    (hes : ∀ v, .edit (.set key v) ∉ es) : (c.alone es).vars.get? key = none := by
  induction es using List.reverseRecOn with
  | nil => exact h
  | append_singleton es e ih =>
    have hnone := ih fun v hv ↦ hes v (List.mem_append_left _ hv)
    cases e with
    | merge child => rwa [alone_append_merge]
    | edit e =>
      rw [alone_append_edit]
      exact get?_edit_eq_none hnone fun v hv ↦ hes v (hv ▸ List.mem_concat_self)

theorem changedFiles_after (c : Context) (es : List Event) :
    (c.after es).changedFiles = NameSet.insertAll c.changedFiles (es.flatMap Event.files) := by
  induction es using List.reverseRecOn with
  | nil => rfl
  | append_singleton es e ih =>
    rw [after_append, changedFiles_become, ih, NameSet.insertAll_append, List.flatMap_append,
      List.flatMap_singleton]

theorem sameProgress_after (c : Context) (es : List Event) :
    (c.after es).SameProgress (c.alone es) := by
  induction es using List.reverseRecOn with
  | nil => exact .refl c
  | append_singleton es e ih =>
    cases e with
    | edit e =>
      rw [after_append, alone_append_edit]
      exact ih.edit e
    | merge child =>
      rw [after_append, alone_append_merge]
      exact ih.merge child

/-- A fork that was folded back as it is has nothing left to give. -/
theorem merge_after_of_mem {child : Context} (h : child ∈ Event.merged es) :
    (c.after es).merge child = c.after es := by
  have hvars : ∀ m ∈ child.vars, (c.after es).vars.contains m.1 := fun m hm ↦ by
    have hm : (child.vars.get? m.1).isSome :=
      Members.isSome_get?_iff.2 (List.mem_map_of_mem hm)
    have hfirst : ((Event.merged es).findSome? fun d ↦ d.vars.get? m.1).isSome :=
      List.findSome?_isSome_iff.2 ⟨child, h, hm⟩
    rw [Members.contains, get?_after, Option.isSome_or, hfirst, Bool.or_true]
  have hfiles : child.changedFiles ⊆ es.flatMap Event.files := fun path hpath ↦
    Event.mem_flatMap_files.2 (.inr ⟨child, h, hpath⟩)
  rw [merge, Members.union_eq_self hvars, changedFiles_after, NameSet.insertAll_of_subset hfiles,
    ← changedFiles_after]

end Run

end Context

/-! ## Parents and their forks -/

open Context (Edit Event)

/-- A context and the forks that were made of it. -/
structure Family where
  parent : Context
  forks : List Context := []

namespace Family

variable {m n : Family} {es : List Event}

/-- How a family goes on, by the events of its parent: a fork is made of the parent as it is, and
is folded back as the fork is, any number of times. In between, anything may happen to a fork. -/
inductive Develops (m : Family) : List Event → Family → Prop where
  | start : m.Develops [] m
  | edit {es : List Event} {n : Family} (e : Edit) :
      m.Develops es n → m.Develops (es ++ [.edit e]) { n with parent := n.parent.edit e }
  | fork {es : List Event} {n : Family} (task : Task) :
      m.Develops es n → m.Develops es { n with forks := n.forks ++ [n.parent.fork task] }
  | work {es : List Event} {n : Family} (i : Nat) (f : Context → Context) :
      m.Develops es n → m.Develops es { n with forks := n.forks.modify i f }
  | merge {es : List Event} {n : Family} {child : Context} :
      m.Develops es n → child ∈ n.forks →
        m.Develops (es ++ [.merge child]) { n with parent := n.parent.merge child }

/-- What becomes of a parent is decided by what happened to it, not by when its forks were made. -/
theorem Develops.parent_eq (h : m.Develops es n) : n.parent = m.parent.after es := by
  induction h with
  | start => rfl
  | edit e _ ih => rw [Context.after_append, ← ih, Context.become]
  | fork task _ ih => exact ih
  | work i f _ ih => exact ih
  | merge _ _ ih => rw [Context.after_append, ← ih, Context.become]

/-- What forks do to their parent in a history, whatever they are and whenever they were made. -/
structure Outcome (m : Family) (es : List Event) (n : Family) : Prop where
  /-- A merge changes no variable that there is, and adds those that there are not. -/
  get?_merge : ∀ child ∈ n.forks, ∀ key,
    (n.parent.merge child).vars.get? key = (n.parent.vars.get? key).or (child.vars.get? key)
  /-- A merge adds the files of the fork. -/
  mem_changedFiles_merge : ∀ child ∈ n.forks, ∀ path,
    path ∈ (n.parent.merge child).changedFiles ↔
      path ∈ n.parent.changedFiles ∨ path ∈ child.changedFiles
  /-- A merge touches nothing else. -/
  sameProgress_merge : ∀ child ∈ n.forks, (n.parent.merge child).SameProgress n.parent
  /-- A variable that the parent has by its own doing has the value it would have without forks, and
  any other is that of the first merged fork to have it. -/
  get?_eq : ∀ key, n.parent.vars.get? key =
    ((m.parent.alone es).vars.get? key).or
      ((Event.merged es).findSome? fun child ↦ child.vars.get? key)
  /-- A key that the parent neither held at first nor set itself. -/
  get?_of_not_set : ∀ key, m.parent.vars.get? key = none → (∀ v, .edit (.set key v) ∉ es) →
    n.parent.vars.get? key = (Event.merged es).findSome? fun child ↦ child.vars.get? key
  /-- The files are those at first, the parent's own, and those of all merged forks. -/
  mem_changedFiles : ∀ path,
    path ∈ n.parent.changedFiles ↔
      path ∈ m.parent.changedFiles ∨ .edit (.addFile path) ∈ es ∨
        ∃ child ∈ Event.merged es, path ∈ child.changedFiles
  /-- The order of the events does not matter to the files. -/
  changedFiles_eq_of_perm : ∀ (m' : Family) (es' : List Event) (n' : Family),
    m'.Develops es' n' → m'.parent = m.parent → es'.Perm es →
      n'.parent.changedFiles = n.parent.changedFiles
  /-- To fold back what was folded back already, at whatever time, changes nothing. -/
  merge_again : ∀ child ∈ Event.merged es, n.parent.merge child = n.parent
  /-- Phases and tasks are as the parent's own edits leave them. -/
  sameProgress : n.parent.SameProgress (m.parent.alone es)

/-- **Forks and their parent.** A stale copy of a variable is never folded back over a newer one. -/
theorem Develops.outcome (h : m.Develops es n) : Outcome m es n where
  get?_merge child _ key := Context.get?_merge n.parent child key
  mem_changedFiles_merge child _ path := NameSet.mem_insertAll
  sameProgress_merge child _ := (Context.SameProgress.refl n.parent).merge child
  get?_eq key := by rw [h.parent_eq, Context.get?_after]
  get?_of_not_set key hkey hes := by
    rw [h.parent_eq, Context.get?_after, Context.get?_alone_eq_none hkey hes, Option.none_or]
  mem_changedFiles path := by
    rw [h.parent_eq, Context.changedFiles_after, NameSet.mem_insertAll, Event.mem_flatMap_files]
  changedFiles_eq_of_perm m' es' n' h' hparent hperm := by
    rw [h.parent_eq, h'.parent_eq, Context.changedFiles_after, Context.changedFiles_after, hparent,
      NameSet.insertAll_perm (hperm.flatMap_right Event.files)]
  merge_again child hchild := by
    rw [h.parent_eq]
    exact Context.merge_after_of_mem hchild
  sameProgress := by
    rw [h.parent_eq]
    exact Context.sameProgress_after m.parent es

/-! Two forks are made of a context with a note, one before the note is rewritten and one after. -/

def noted : Family where
  parent := Context.empty.set "note" (.string "old")

/-- The work on a fork, which gives a verdict, changes the note and writes a file. -/
def reviewing (file : String) (c : Context) : Context :=
  ((c.set "verdict" (.string file)).set "note" (.string "seen")).addFile file

def early : Context := reviewing "a.rs" (noted.parent.fork ⟨"one", 0, 2, .string "one"⟩)

/-- The fork that was made of the context with the new note, after the work on it. -/
def late : Context :=
  reviewing "b.rs"
    ((noted.parent.set "note" (.string "new")).fork ⟨"two", 1, 2, .string "two"⟩)

/-- The later fork is folded back first, and once more after the other. -/
def review : List Event :=
  [.edit (.set "note" (.string "new")), .merge late, .merge early, .merge late]

def reviewed : Family where
  parent :=
    { vars := [("note", .string "new"), ("verdict", .string "b.rs")]
      changedFiles := ["a.rs", "b.rs"] }
  forks := [early, late]

theorem outcome_reviewed : noted.Develops review reviewed ∧ Outcome noted review reviewed := by
  have hforks : noted.Develops [.edit (.set "note" (.string "new"))]
      ⟨noted.parent.set "note" (.string "new"), [early, late]⟩ :=
    ((((Develops.start.fork ⟨"one", 0, 2, .string "one"⟩).edit (.set "note" (.string "new"))).fork
      ⟨"two", 1, 2, .string "two"⟩).work 0 (reviewing "a.rs")).work 1 (reviewing "b.rs")
  have hearly : early ∈ [early, late] := List.mem_cons_self
  have hlate : late ∈ [early, late] := List.mem_cons_of_mem early List.mem_cons_self
  have hparent : reviewed.parent =
      (((noted.parent.set "note" (.string "new")).merge late).merge early).merge late := by
    decide +kernel
  have hreviewed : noted.Develops review reviewed := by
    have hmerged := ((hforks.merge hlate).merge hearly).merge hlate
    rwa [← hparent] at hmerged
  exact ⟨hreviewed, hreviewed.outcome⟩

end Family

end Workflow
