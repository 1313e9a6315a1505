import Workflow.Proofs.Run.Rest

/-!
# Checkpoints in normal form

A checkpoint may come from anywhere, also from a file that was written by hand, with a phase that is
completed twice or with files in any order. A context has neither. So `Context.restore` brings a
checkpoint into its normal form, and nothing else happens to it on the way through a context:
`Checkpoint.NormalForm` says what that form is, and `checkpoint_restore` that it is what comes out,
whatever context the checkpoint is put into.

Checkpoints of contexts are in normal form from the start, because no operation on contexts can make
one that records a phase twice or has its files out of order. `Context.Reachable` are the contexts
that the operations lead to.
-/

namespace Workflow

open Json (Value)

/-- The normal form of a checkpoint has every phase where it stands first and every file once, in
ascending order. -/
structure Checkpoint.NormalForm (cp normal : Checkpoint) : Prop where
  vars_eq : normal.vars = cp.vars
  currentTask_eq : normal.currentTask = cp.currentTask
  completedPhases_eq : normal.completedPhases = cp.completedPhases.eraseDups
  sorted : normal.changedFiles.Pairwise (· < ·)
  mem_changedFiles (path : String) : path ∈ normal.changedFiles ↔ path ∈ cp.changedFiles

namespace Context

/-! ## Putting a checkpoint in place of a context -/

/-- Marking phases one after another adds those that are new, each where it stands first. -/
theorem foldl_markCompleted (c : Context) (phases : List String) :
    phases.foldl markCompleted c = { c with
      completedPhases :=
        c.completedPhases ++ (phases.removeAll c.completedPhases).eraseDups } := by
  induction phases generalizing c with
  | nil => rw [List.nil_removeAll, List.eraseDups_nil, List.append_nil, List.foldl_nil]
  | cons phase phases ih =>
    rw [List.foldl_cons, ih, List.cons_removeAll, markCompleted, isCompleted,
      ← List.elem_eq_contains]
    cases c.completedPhases.elem phase with
    | true => rfl
    | false =>
      have hremove : phases.removeAll (c.completedPhases ++ [phase]) =
          (phases.removeAll c.completedPhases).filter fun p ↦ !p == phase := by
        simp [List.removeAll, List.filter_filter, beq_eq_decide, Bool.and_comm]
      have hnew : c.completedPhases ++ [phase] ++
            (phases.removeAll (c.completedPhases ++ [phase])).eraseDups =
          c.completedPhases ++ (phase :: phases.removeAll c.completedPhases).eraseDups := by
        rw [hremove, List.append_assoc, List.singleton_append, List.eraseDups_cons]
      exact congrArg (fun phases ↦ { c with completedPhases := phases }) hnew

theorem restore_eq_ofCheckpoint (c : Context) (cp : Checkpoint) :
    c.restore cp = ofCheckpoint cp := by
  rw [restore, ofCheckpoint, foldl_markCompleted, foldl_markCompleted]
  rfl

theorem completedPhases_restore (c : Context) (cp : Checkpoint) :
    (c.restore cp).completedPhases = cp.completedPhases.eraseDups := by
  rw [restore, foldl_markCompleted]
  simp

theorem normalForm_restore (c : Context) (cp : Checkpoint) :
    cp.NormalForm (c.restore cp).checkpoint where
  vars_eq := by
    rw [restore_eq_ofCheckpoint]
    rfl
  currentTask_eq := rfl
  completedPhases_eq := completedPhases_restore c cp
  sorted := Text.NameSet.sorted_ofList cp.changedFiles
  mem_changedFiles _ := Text.NameSet.mem_ofList

/-! ## Contexts that operations lead to -/

/-- The contexts that come about by operations on contexts. -/
inductive Reachable : Context → Prop where
  | empty : Reachable empty
  | set {c : Context} (name : String) (v : Value) : Reachable c → Reachable (c.set name v)
  | markCompleted {c : Context} (phase : String) : Reachable c → Reachable (c.markCompleted phase)
  | addFile {c : Context} (path : String) : Reachable c → Reachable (c.addFile path)
  | markPaused {c : Context} (task : String) : Reachable c → Reachable (c.markPaused task)
  | fork {c : Context} (task : Task) : Reachable c → Reachable (c.fork task)
  | merge {c child : Context} : Reachable c → Reachable child → Reachable (c.merge child)
  | restore {c : Context} (cp : Checkpoint) : Reachable c → Reachable (c.restore cp)

/-- No phase is recorded twice and the files are in order. -/
structure Orderly (c : Context) : Prop where
  nodup : c.completedPhases.Nodup
  sorted : c.changedFiles.Sorted

variable {c : Context}

theorem AtRest.orderly (hc : c.AtRest) : c.Orderly := ⟨hc.nodup, hc.sorted⟩

theorem orderly_restore (c : Context) (cp : Checkpoint) : (c.restore cp).Orderly := by
  rw [restore_eq_ofCheckpoint]
  exact (atRest_ofCheckpoint cp).orderly

theorem Reachable.orderly (h : c.Reachable) : c.Orderly := by
  induction h with
  | empty => exact atRest_empty.orderly
  | set name v _ ih => exact ⟨ih.nodup, ih.sorted⟩
  | @markCompleted c phase _ ih =>
    refine ⟨nodup_markCompleted ih.nodup phase, ?_⟩
    rw [Context.markCompleted]
    split
    · exact ih.sorted
    · exact ih.sorted
  | addFile path _ ih => exact ⟨ih.nodup, ih.sorted.insert⟩
  | markPaused task _ ih => exact ⟨ih.nodup, ih.sorted⟩
  | fork task _ ih => exact ⟨ih.nodup, ih.sorted⟩
  | merge _ _ ih _ => exact ⟨ih.nodup, ih.sorted.insertAll⟩
  | @restore c cp _ _ => exact orderly_restore c cp

/-! ## There and back -/

/-- What a checkpoint keeps of a context: the task at hand is remembered only. -/
def rested (c : Context) : Context :=
  { c with task := none, pausedTask := c.checkpoint.currentTask }

theorem Orderly.restore_checkpoint (hc : c.Orderly) (d : Context) :
    d.restore c.checkpoint = c.rested := by
  have hrest : c.rested.AtRest := ⟨rfl, hc.nodup, hc.sorted⟩
  rw [restore_eq_ofCheckpoint]
  exact ofCheckpoint_checkpoint hrest

theorem checkpoint_rested (c : Context) : c.rested.checkpoint = c.checkpoint := rfl

/-- **Normal forms.** What a checkpoint is put into makes no difference. It comes out again in its
normal form, and from there on as it is. Checkpoints of contexts that operations lead to, with a
task at hand or without one, come out as they are at once. -/
theorem checkpoint_restore (c : Context) (cp : Checkpoint) :
    (∀ d : Context, d.restore cp = c.restore cp) ∧
    cp.NormalForm (c.restore cp).checkpoint ∧
    (∀ d : Context, (d.restore (c.restore cp).checkpoint).checkpoint = (c.restore cp).checkpoint) ∧
    ∀ e : Context, e.Reachable → (c.restore e.checkpoint).checkpoint = e.checkpoint := by
  refine ⟨fun d ↦ ?_, normalForm_restore c cp, fun d ↦ ?_, fun e he ↦ ?_⟩
  · rw [restore_eq_ofCheckpoint, restore_eq_ofCheckpoint]
  · rw [(orderly_restore c cp).restore_checkpoint, checkpoint_rested]
  · rw [he.orderly.restore_checkpoint, checkpoint_rested]

/-! ## A checkpoint written by hand -/

/-- A checkpoint with a phase that is completed twice and files that are not in order. -/
def scribbled : Checkpoint where
  vars := [("notes", .string "short")]
  completedPhases := ["draft", "review", "draft"]
  changedFiles := ["june.md", "april.md", "june.md"]
  currentTask := some "letter-1"

/-- A context in the middle of an iteration, after a pause in another one. -/
def iterating : Context :=
  let resumed := (empty.restore scribbled).markCompleted "review"
  (resumed.fork ⟨"letter-2", 1, 2, .null⟩).addFile "may.md"

theorem reachable_iterating : iterating.Reachable :=
  .addFile "may.md" (.fork _ (.markCompleted "review" (.restore scribbled .empty)))

theorem checkpoint_restore_scribbled :
    iterating.Reachable ∧
    (iterating.restore scribbled).checkpoint = { scribbled with
      completedPhases := ["draft", "review"]
      changedFiles := ["april.md", "june.md"] } ∧
    iterating.checkpoint.currentTask = some "letter-2" ∧
    (iterating.restore iterating.checkpoint).checkpoint = iterating.checkpoint := by
  obtain ⟨-, -, -, hback⟩ := checkpoint_restore iterating scribbled
  exact ⟨reachable_iterating, by decide +kernel, rfl, hback iterating reachable_iterating⟩

end Context

end Workflow
