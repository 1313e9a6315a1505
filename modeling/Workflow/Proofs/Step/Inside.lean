import Workflow.Proofs.Account.Escape

/-!
# Steps inside steps

The steps inside a step are all that are called when it is: every call within its account is one of
a step inside it.
-/

namespace Workflow

open Process (Report)

/-- A step is another one, or stands somewhere in it. -/
inductive Step.Inside (t : Step) : Step → Prop where
  | refl : Inside t t
  | child {s u : Step} : u ∈ s.children → Inside t u → Inside t s

theorem Step.Inside.trans {s t u : Step} (h : u.Inside t) (h' : t.Inside s) : u.Inside s := by
  induction h' with
  | refl => exact h
  | child hmem _ ih => exact .child hmem ih

theorem Step.inside_of_mem {s t : Step} (h : t ∈ s.children) : t.Inside s := .child h .refl

/-! ## What is called -/

theorem Pass.step_mem {ss : List Step} {as : List Account} {r : Except StepError Unit}
    (h : Pass ss as r) : ∀ a ∈ as, a.step ∈ ss := by
  induction h with
  | done => simp
  | next _ _ ih =>
    refine List.forall_mem_cons.2 ⟨List.mem_cons_self, fun a ha ↦ ?_⟩
    exact List.mem_cons_of_mem _ (ih a ha)
  | failed _ => simp

theorem Passes.step_mem {ss : List Step} {as : List Account} {r : Except StepError Unit}
    (h : Passes ss as r) : ∀ a ∈ as, a.step ∈ ss := by
  induction h with
  | done => simp
  | next hpass _ ih =>
    intro a ha
    rcases List.mem_append.1 ha with ha | ha
    · exact hpass.step_mem a ha
    · exact ih a ha
  | failed hpass => exact hpass.step_mem

theorem Step.Admits.step_mem {s : Step} {as : List Account} {r : Except StepError Unit}
    (h : s.Admits (as, r)) : ∀ a ∈ as, a.step ∈ s.children := by
  cases h with
  | agent | code | noTasks => simp
  | parallel hperm => exact fun a ha ↦ hperm.subset (List.mem_map_of_mem ha)
  | loop hpasses | exhausted _ hpasses | perTask hpasses => exact hpasses.step_mem

namespace Account.Trail

variable {a b : Account} {rs : List Report}

theorem step_mem_children (h : a.Trail rs) (hb : b ∈ a.inside) : b.step ∈ a.step.children := by
  cases h with
  | skipped | unskipped | unopened => cases hb
  | closed hadmits _ _ _ | unclosed _ hadmits _ _ _ => exact hadmits.step_mem b hb

theorem step_inside (h : a.Trail rs) (hb : b.Within a) : b.step.Inside a.step := by
  induction hb generalizing rs with
  | refl => exact .refl
  | inside hc _ ih =>
    obtain ⟨qs, hq⟩ := h.of_mem_inside hc
    exact .child (h.step_mem_children hc) (ih hq)

end Account.Trail

end Workflow
