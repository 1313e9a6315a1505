import Mathlib.Data.List.Nodup
import Workflow.Checkpoint
import Workflow.Proofs.Run.Launch
import Workflow.Proofs.Step.Growth

/-!
# Contexts between phases

Between two phases no task is at hand, no phase is recorded twice, and the changed files are in
order. That is all that a checkpoint takes for granted: `ofCheckpoint_checkpoint` says that a
context at rest comes back from its checkpoint as it was. Every position that a run visits is at
rest, because the contexts that runs begin in are, and no phase changes that.
-/

namespace Workflow

namespace Context

/-- A context as it is between two phases. -/
structure AtRest (c : Context) : Prop where
  task_eq : c.task = none
  nodup : c.completedPhases.Nodup
  sorted : c.changedFiles.Sorted

theorem Framed.atRest {c d : Context} (h : Framed c d) (hc : c.AtRest) : d.AtRest where
  task_eq := h.task_eq.trans hc.task_eq
  nodup := h.completedPhases_eq ▸ hc.nodup
  sorted := h.sorted hc.sorted

/-! ## Completed phases -/

theorem isCompleted_eq_true {c : Context} {phase : String} :
    c.isCompleted phase = true ↔ phase ∈ c.completedPhases := by
  rw [isCompleted, List.contains_iff_mem]

theorem isCompleted_eq_false {c : Context} {phase : String} :
    c.isCompleted phase = false ↔ phase ∉ c.completedPhases := by
  rw [← isCompleted_eq_true, Bool.not_eq_true]

theorem completedPhases_markCompleted {c : Context} {phase : String}
    (h : c.isCompleted phase = false) :
    (c.markCompleted phase).completedPhases = c.completedPhases ++ [phase] := by
  rw [markCompleted, h]
  rfl

theorem nodup_markCompleted {c : Context} (h : c.completedPhases.Nodup) (phase : String) :
    (c.markCompleted phase).completedPhases.Nodup := by
  cases hphase : c.isCompleted phase with
  | true =>
    rw [markCompleted, hphase]
    exact h
  | false =>
    have hnew : (phase :: c.completedPhases).Nodup :=
      List.nodup_cons.2 ⟨isCompleted_eq_false.1 hphase, h⟩
    rw [completedPhases_markCompleted hphase]
    exact List.nodup_append_comm.1 hnew

theorem AtRest.markCompleted {c : Context} (hc : c.AtRest) (phase : String) :
    (c.markCompleted phase).AtRest where
  task_eq := by
    rw [Context.markCompleted]
    split
    · exact hc.task_eq
    · exact hc.task_eq
  nodup := nodup_markCompleted hc.nodup phase
  sorted := by
    rw [Context.markCompleted]
    split
    · exact hc.sorted
    · exact hc.sorted

theorem AtRest.foldl_markCompleted {c : Context} (hc : c.AtRest) (phases : List String) :
    (phases.foldl Context.markCompleted c).AtRest := by
  induction phases generalizing c with
  | nil => exact hc
  | cons phase phases ih => exact ih (hc.markCompleted phase)

theorem completedPhases_foldl_markCompleted {c : Context} {phases : List String}
    (h : (c.completedPhases ++ phases).Nodup) :
    (phases.foldl Context.markCompleted c).completedPhases = c.completedPhases ++ phases := by
  induction phases generalizing c with
  | nil => exact (List.append_nil _).symm
  | cons phase phases ih =>
    -- marking a phase as completed does nothing if it is there, so here it has to be a new one
    have hmem : phase ∉ c.completedPhases := fun hmem ↦
      (List.nodup_cons.1 (List.nodup_middle.1 h)).1 (List.mem_append_left _ hmem)
    have hnew : c.isCompleted phase = false := isCompleted_eq_false.2 hmem
    have hadd := completedPhases_markCompleted hnew
    rw [List.foldl_cons, ih, hadd, List.append_assoc]
    · rfl
    · rwa [hadd, List.append_assoc]

/-! ## Checkpoints -/

theorem atRest_empty : empty.AtRest := ⟨rfl, List.nodup_nil, List.Pairwise.nil⟩

/-- Whatever a checkpoint holds, the context that it describes is at rest. -/
theorem atRest_ofCheckpoint (cp : Checkpoint) : (ofCheckpoint cp).AtRest where
  task_eq := rfl
  nodup := (atRest_empty.foldl_markCompleted cp.completedPhases).nodup
  sorted := Text.NameSet.sorted_ofList _

/-- The checkpoint of a context at rest names the task that is remembered for a pause. -/
theorem AtRest.currentTask_checkpoint {c : Context} (hc : c.AtRest) :
    c.checkpoint.currentTask = c.pausedTask := by
  rw [checkpoint, hc.task_eq]
  rfl

/-- **Checkpoints.** A context at rest comes back from its checkpoint as it was. -/
theorem ofCheckpoint_checkpoint {c : Context} (hc : c.AtRest) :
    ofCheckpoint c.checkpoint = c := by
  -- variables and paused task are copied, the task is dropped, and the two lists are built anew
  obtain ⟨vars, completedPhases, changedFiles, task, pausedTask⟩ := c
  obtain ⟨rfl, hnodup, hsorted⟩ := hc
  have hphases : (completedPhases.foldl markCompleted empty).completedPhases = completedPhases :=
    completedPhases_foldl_markCompleted hnodup
  have hfiles : Text.NameSet.ofList changedFiles = changedFiles :=
    Text.NameSet.ofList_eq_self hsorted
  rw [checkpoint, ofCheckpoint, hphases, hfiles]
  rfl

end Context

end Workflow
