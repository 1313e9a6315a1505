import Workflow.Proofs.Account.Call
import Workflow.Proofs.Run.Rest

/-!
# What a walk completes

A walk completes phases in the order in which it meets them. It puts them behind those that were
completed before, and it takes none away: `Advance` says so of two positions, and `Reaches.advance`
of any two of which a walk comes from one to the other. Every position that a run visits has a
context at rest.
-/

namespace Workflow.Run

variable {ω : Type} {env : Environment} {failFast : Bool} {w : World ω}

/-- From one position to another, some of the phases between them were completed, in their order. -/
def Advance (p q : Position ω) : Prop :=
  ∃ between new, p.left = between ++ q.left ∧ new.Sublist (between.map Step.name) ∧
    q.context.completedPhases = p.context.completedPhases ++ new

theorem Advance.refl (p : Position ω) : Advance p p :=
  ⟨[], [], rfl, List.Sublist.refl _, (List.append_nil _).symm⟩

theorem Advance.trans {p q r : Position ω} (h : Advance p q) (h' : Advance q r) : Advance p r := by
  obtain ⟨between, new, hl, hnew, hc⟩ := h
  obtain ⟨between', new', hl', hnew', hc'⟩ := h'
  refine ⟨between ++ between', new ++ new', ?_, ?_, ?_⟩
  · rw [hl, hl', List.append_assoc]
  · rw [List.map_append]
    exact hnew.append hnew'
  · rw [hc', hc, List.append_assoc]

theorem advance_of_eq {p q : Position ω} {phase : Step} (hl : p.left = phase :: q.left)
    (hc : q.context.completedPhases = p.context.completedPhases) : Advance p q :=
  ⟨[phase], [], hl, List.nil_sublist _, hc.trans (List.append_nil _).symm⟩

theorem Calls.framed {p : Position ω} {phase : Step} {rest : List Step} {a : Account} {c : Context}
    {x : ω} (h : Calls env w p phase rest a c x) : p.context.Framed c :=
  Step.framed_of_run h.run_eq

theorem Calls.trail {p : Position ω} {phase : Step} {rest : List Step} {a : Account} {c : Context}
    {x : ω} (h : Calls env w p phase rest a c x) :
    a.step = phase ∧ a.Regular ∧ ∃ rs, a.Trail rs := by
  obtain ⟨hstep, rs, htrail⟩ := Step.trail_of_run h.run_eq
  exact ⟨hstep, (Step.grows_of_run h.run_eq).2, rs, htrail⟩

theorem Calls.step_inside {p : Position ω} {phase : Step} {rest : List Step} {a b : Account}
    {c : Context} {x : ω} (h : Calls env w p phase rest a c x) (hb : b.Within a) :
    b.step.Inside phase := by
  obtain ⟨rfl, -, rs, htrail⟩ := h.trail
  exact htrail.step_inside hb

/-- A phase that was called was not completed before, nor is it by its call. -/
theorem Calls.not_completed_after {p : Position ω} {phase : Step} {rest : List Step} {a : Account}
    {c : Context} {x : ω} (h : Calls env w p phase rest a c x) :
    c.isCompleted phase.name = false := by
  rw [Context.isCompleted, h.framed.completedPhases_eq]
  exact h.not_completed

theorem Onward.advance {p q : Position ω} (h : Onward env failFast w p q) : Advance p q := by
  cases h with
  | passed hl hc hr => exact advance_of_eq hl rfl
  | @completed phase rest a c x y h he ha =>
    refine ⟨[phase], [phase.name], h.left_eq, List.Sublist.refl _, ?_⟩
    rw [Context.completedPhases_markCompleted h.not_completed_after, h.framed.completedPhases_eq]
  | skipped h he => exact advance_of_eq h.left_eq h.framed.completedPhases_eq
  | failed h he hp hf hff => exact advance_of_eq h.left_eq h.framed.completedPhases_eq

theorem Onward.atRest {p q : Position ω} (h : Onward env failFast w p q)
    (hp : p.context.AtRest) : q.context.AtRest := by
  cases h with
  | passed hl hc hr => exact hp
  | completed h he ha => exact (h.framed.atRest hp).markCompleted _
  | skipped h he => exact h.framed.atRest hp
  | failed h he _ hf hff => exact h.framed.atRest hp

theorem Reaches.advance {p q : Position ω} (h : Reaches env failFast w p q) : Advance p q := by
  induction h with
  | refl => exact .refl p
  | tail _ hq ih => exact ih.trans hq.advance

theorem Reaches.atRest {p q : Position ω} (h : Reaches env failFast w p q)
    (hp : p.context.AtRest) : q.context.AtRest := by
  induction h with
  | refl => exact hp
  | tail _ hq ih => exact hq.atRest ih

/-- A walk that ends with a result has completed what was completed at its last position. -/
theorem Ends.framed {p : Position ω} {ended : Walk} {c : Context} {x : ω}
    (h : Ends env failFast w p (.ok ended) c x) : p.context.Framed c := by
  cases h with
  | finished hl => exact .refl _
  | paused h he => exact h.framed

namespace Launch

variable {l : Launch} {x : ω}

theorem atRest_outset (o : Outset) : o.context.AtRest := by
  cases o with
  | fresh _ => exact Context.atRest_empty
  | resumed cp _ => exact Context.atRest_ofCheckpoint cp

theorem Visits.atRest {q : Position ω} (h : l.Visits w x env q) : q.context.AtRest := by
  obtain ⟨p, hp, hq⟩ := h
  obtain ⟨first, spec, -, -, rfl⟩ := exists_of_beginning hp
  exact hq.atRest (atRest_outset l.outset)

/-- The phases that are left at a position of a run are the last ones of the workflow. -/
theorem Visits.left_suffix {q : Position ω} (h : l.Visits w x env q) :
    q.left <:+ l.workflow.phases := by
  obtain ⟨p, hp, hq⟩ := h
  obtain ⟨first, spec, -, -, rfl⟩ := exists_of_beginning hp
  obtain ⟨between, new, hl, -, -⟩ := hq.advance
  have hq' : q.left <:+ l.workflow.phases.drop first := ⟨between, hl.symm⟩
  exact hq'.trans (List.drop_suffix _ _)

theorem Visits.mem_phases {q : Position ω} (h : l.Visits w x env q) {phase : Step}
    {rest : List Step} {a : Account} {c : Context} {y : ω}
    (hcalls : Calls env w q phase rest a c y) : phase ∈ l.workflow.phases :=
  h.left_suffix.subset (hcalls.left_eq ▸ List.mem_cons_self)

/-- At every position of a run, the phases that are completed are those that were when it began, and
behind them others in the order of the workflow. -/
theorem Visits.completedPhases {q : Position ω} (h : l.Visits w x env q) :
    ∃ new, q.context.completedPhases = l.outset.context.completedPhases ++ new ∧
      new.Sublist (l.workflow.phases.map Step.name) := by
  obtain ⟨p, hp, hq⟩ := h
  obtain ⟨first, spec, -, -, rfl⟩ := exists_of_beginning hp
  obtain ⟨between, new, hl, hnew, hc⟩ := hq.advance
  refine ⟨new, hc, hnew.trans (List.Sublist.map _ ?_)⟩
  have hbetween : between <+: l.workflow.phases.drop first := ⟨q.left, hl.symm⟩
  exact hbetween.sublist.trans (List.drop_sublist _ _)

end Launch

end Workflow.Run
