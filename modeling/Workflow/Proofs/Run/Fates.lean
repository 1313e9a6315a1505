import Workflow.Proofs.Run.Progress

/-!
# What became of the phases

A walk calls some of its phases, and a `Fate` is a phase with what its call ended with. Since there
is one walk from a position, the fates on it are determined, and they stand in the order of the
phases. Everything that a walk keeps of its phases is read off them: `Reaches.fates` says so by
induction from the end backwards.

A completed phase is kept from then on, also when the host refuses to hear of it:
`Position.Completes.kept`.
-/

namespace Workflow.Run

variable {ω : Type} {env : Environment} {failFast : Bool} {w : World ω}

/-- A phase, and what its call ended with. -/
structure Fate where
  phase : Step
  ending : Except StepError StepStatus

/-- A phase, and the error that its call ended with. -/
structure Failure where
  phase : Step
  error : StepError

/-- What a walk keeps of a failure. -/
def Failure.kept (f : Failure) : String × String := (f.phase.name, f.error.message)

namespace Fate

def completed? : Fate → Option Step
  | ⟨phase, .ok .completed⟩ => some phase
  | _ => none

/-- The failure, if the phase failed with an error that is not fatal. -/
def failed? : Fate → Option Failure
  | ⟨phase, .error e⟩ => if e.isPause || e.isFatal then none else some ⟨phase, e⟩
  | _ => none

theorem completed?_eq_some {f : Fate} {phase : Step} :
    f.completed? = some phase ↔ f = ⟨phase, .ok .completed⟩ := by
  obtain ⟨phase', e | _ | _⟩ := f
  · exact ⟨nofun, nofun⟩
  · exact ⟨fun h ↦ by cases h; rfl, fun h ↦ by cases h; rfl⟩
  · exact ⟨nofun, nofun⟩

theorem failed?_eq_some {f : Fate} {g : Failure} :
    f.failed? = some g ↔
      f = ⟨g.phase, .error g.error⟩ ∧ g.error.isPause = false ∧ g.error.isFatal = false := by
  obtain ⟨phase, e | _ | _⟩ := f
  · obtain ⟨phase', e'⟩ := g
    simp only [failed?, Option.ite_none_left_eq_some, Bool.or_eq_true, not_or, Bool.not_eq_true]
    constructor
    · rintro ⟨⟨hp, hf⟩, h⟩
      cases h
      exact ⟨rfl, hp, hf⟩
    · rintro ⟨h, hp, hf⟩
      cases h
      exact ⟨⟨hp, hf⟩, rfl⟩
  · exact ⟨nofun, nofun⟩
  · exact ⟨nofun, nofun⟩

theorem sublist_filterMap {β : Type} {take : Fate → Option β} {phaseOf : β → Step}
    (htake : ∀ f b, take f = some b → phaseOf b = f.phase) (fs : List Fate) :
    ((fs.filterMap take).map phaseOf).Sublist (fs.map Fate.phase) := by
  induction fs with
  | nil => exact List.Sublist.refl _
  | cons f fs ih =>
    cases hf : take f with
    | none =>
      rw [List.filterMap_cons_none hf]
      exact ih.cons _
    | some b =>
      rw [List.filterMap_cons_some hf, List.map_cons, List.map_cons, htake f b hf]
      exact ih.cons_cons _

end Fate

/-! ## One phase -/

/-- The phase at a position is called, and the call ends in a given way. -/
def Position.Meets (env : Environment) (w : World ω) (p : Position ω) (f : Fate) : Prop :=
  ∃ rest a c x, Calls env w p f.phase rest a c x ∧ a.ending = f.ending

theorem Calls.meets {p : Position ω} {phase : Step} {rest : List Step} {a : Account}
    {c : Context} {x : ω} (h : Calls env w p phase rest a c x) :
    p.Meets env w ⟨phase, a.ending⟩ := ⟨rest, a, c, x, h, rfl⟩

theorem Calls.meets_iff {p : Position ω} {phase : Step} {rest : List Step} {a : Account}
    {c : Context} {x : ω} (h : Calls env w p phase rest a c x) {f : Fate} :
    p.Meets env w f ↔ f = ⟨phase, a.ending⟩ := by
  constructor
  · rintro ⟨rest', a', c', x', h', he⟩
    obtain ⟨hphase, rfl, rfl, rfl, rfl⟩ := h'.unique h
    obtain ⟨phase', ending⟩ := f
    cases hphase
    cases he
    rfl
  · rintro rfl
    exact h.meets

/-- From one position to the next, a walk keeps what became of the phase between them. -/
theorem Onward.fates {p q : Position ω} (h : Onward env failFast w p q) :
    ∃ (phase : Step) (fs : List Fate), p.left = phase :: q.left ∧
      (fs.map Fate.phase).Sublist [phase] ∧
      q.failed = p.failed ++ (fs.filterMap Fate.failed?).map Failure.kept ∧
      q.context.completedPhases =
        p.context.completedPhases ++ (fs.filterMap Fate.completed?).map Step.name ∧
      ∀ f, f ∈ fs ↔ p.Meets env w f := by
  cases h with
  | passed hl hc hr =>
    refine ⟨_, [], hl, List.nil_sublist _, (List.append_nil _).symm, (List.append_nil _).symm,
      fun f ↦ ⟨nofun, ?_⟩⟩
    rintro ⟨rest, a, c, x, hcalls, -⟩
    rw [hcalls.not_passed hl] at hc
    cases hc
  | @completed phase rest a c x y h he ha =>
    refine ⟨phase, [⟨phase, a.ending⟩], h.left_eq, List.Sublist.refl _, ?_, ?_, fun f ↦ ?_⟩
    · rw [he]
      exact (List.append_nil _).symm
    · rw [he, Context.completedPhases_markCompleted h.not_completed_after,
        h.framed.completedPhases_eq]
      rfl
    · rw [List.mem_singleton, h.meets_iff]
  | @skipped phase rest a c x h he =>
    refine ⟨phase, [⟨phase, a.ending⟩], h.left_eq, List.Sublist.refl _, ?_, ?_, fun f ↦ ?_⟩
    · rw [he]
      exact (List.append_nil _).symm
    · rw [he, h.framed.completedPhases_eq]
      exact (List.append_nil _).symm
    · rw [List.mem_singleton, h.meets_iff]
  | @failed phase rest a c x e h he hp hf hff =>
    refine ⟨phase, [⟨phase, a.ending⟩], h.left_eq, List.Sublist.refl _, ?_, ?_, fun f ↦ ?_⟩
    · rw [he]
      simp [Fate.failed?, hp, hf, Failure.kept]
    · rw [he, h.framed.completedPhases_eq]
      exact (List.append_nil _).symm
    · rw [List.mem_singleton, h.meets_iff]

/-- Where a walk ends with a result, nothing is kept of the phase at which it ends, if any. -/
theorem Ends.fates {p : Position ω} {ended : Walk} {c : Context} {x : ω}
    (h : Ends env failFast w p (.ok ended) c x) :
    ∃ fs : List Fate, (fs.map Fate.phase).Sublist p.left ∧ fs.filterMap Fate.failed? = [] ∧
      fs.filterMap Fate.completed? = [] ∧ ∀ f, f ∈ fs ↔ p.Meets env w f := by
  cases h with
  | finished hl =>
    refine ⟨[], List.nil_sublist _, rfl, rfl, fun f ↦ ⟨nofun, ?_⟩⟩
    rintro ⟨rest, a, c, x, hcalls, -⟩
    cases hl.symm.trans hcalls.left_eq
  | @paused phase rest a c x step blocker h he =>
    refine ⟨[⟨phase, a.ending⟩], ?_, ?_, ?_, fun f ↦ ?_⟩
    · rw [h.left_eq]
      exact List.singleton_sublist.2 List.mem_cons_self
    · rw [he]
      rfl
    · rw [he]
      rfl
    · rw [List.mem_singleton, h.meets_iff]

/-! ## A whole walk -/

/-- **Fates.** Up to its result, a walk keeps the phases that failed and those that completed on
it, in their order, and no others. -/
theorem Reaches.fates {p q : Position ω} (h : Reaches env failFast w p q) {ended : Walk}
    {c : Context} {x : ω} (hend : Ends env failFast w q (.ok ended) c x) :
    ∃ fs : List Fate, (fs.map Fate.phase).Sublist p.left ∧
      q.failed = p.failed ++ (fs.filterMap Fate.failed?).map Failure.kept ∧
      c.completedPhases =
        p.context.completedPhases ++ (fs.filterMap Fate.completed?).map Step.name ∧
      ∀ f, f ∈ fs ↔ ∃ m, Reaches env failFast w p m ∧ m.Meets env w f := by
  induction h using Relation.ReflTransGen.head_induction_on with
  | refl =>
    obtain ⟨fs, hsub, hfailed, hcompleted, hfs⟩ := hend.fates
    refine ⟨fs, hsub, ?_, ?_, fun f ↦ (hfs f).trans ⟨fun hf ↦ ⟨q, .refl, hf⟩, ?_⟩⟩
    · rw [hfailed]
      exact (List.append_nil _).symm
    · rw [hcompleted, hend.framed.completedPhases_eq]
      exact (List.append_nil _).symm
    · rintro ⟨m, hm, hf⟩
      -- a walk that ends at a position does not go on from there
      rcases hm.cases_head with rfl | ⟨q', hq', -⟩
      · exact hf
      · exact absurd hq' (hend.not_onward q')
  | @head p p' hp _ ih =>
    obtain ⟨phase, fs, hl, hsub, hfailed, hcompleted, hfs⟩ := hp.fates
    obtain ⟨fs', hsub', hfailed', hcompleted', hfs'⟩ := ih
    refine ⟨fs ++ fs', ?_, ?_, ?_, fun f ↦ ?_⟩
    · rw [List.map_append, hl]
      exact hsub.append hsub'
    · rw [hfailed', hfailed, List.filterMap_append, List.map_append, List.append_assoc]
    · rw [hcompleted', hcompleted, List.filterMap_append, List.map_append, List.append_assoc]
    · rw [List.mem_append, hfs, hfs']
      constructor
      · rintro (hf | ⟨m, hm, hf⟩)
        · exact ⟨p, .refl, hf⟩
        · exact ⟨m, .head hp hm, hf⟩
      · rintro ⟨m, hm, hf⟩
        rcases hp.reaches_iff.1 hm with rfl | hm
        · exact .inl hf
        · exact .inr ⟨m, hm, hf⟩

/-! ## Completed phases -/

def Position.Completes (env : Environment) (w : World ω) (p : Position ω) (phase : Step) : Prop :=
  p.Meets env w ⟨phase, .ok .completed⟩

/-- However a walk ends, what was completed stays completed. -/
theorem Ends.completedPhases_prefix {p : Position ω} {r : Except RunError Walk} {c : Context}
    {x : ω} (h : Ends env failFast w p r c x) :
    p.context.completedPhases <+: c.completedPhases := by
  cases h with
  | finished | refused => exact List.prefix_refl _
  | unheard h he ha =>
    rw [Context.completedPhases_markCompleted h.not_completed_after, h.framed.completedPhases_eq]
    exact List.prefix_append _ _
  | paused h he => exact h.framed.completedPhases_eq ▸ List.prefix_refl _
  | aborted h he hp hf => exact h.framed.completedPhases_eq ▸ List.prefix_refl _

theorem Reaches.completedPhases_prefix {p q : Position ω} (h : Reaches env failFast w p q) :
    p.context.completedPhases <+: q.context.completedPhases := by
  obtain ⟨-, new, -, -, hnew⟩ := h.advance
  exact ⟨new, hnew.symm⟩

/-- A phase that completes is completed wherever the walk comes from there, and in the context that
it leaves in the end. -/
theorem Position.Completes.kept {p : Position ω} {phase : Step} (h : p.Completes env w phase) :
    (∀ m, Relation.TransGen (Onward env failFast w) p m →
      phase.name ∈ m.context.completedPhases) ∧
    ∀ r c y, p.run env failFast w = (some (r, c), y) → phase.name ∈ c.completedPhases := by
  obtain ⟨rest, a, c, x, hcalls, he⟩ := h
  have hmarked : phase.name ∈ (c.markCompleted phase.name).completedPhases := by
    rw [Context.completedPhases_markCompleted hcalls.not_completed_after]
    exact List.mem_append_right _ (List.mem_singleton_self _)
  constructor
  · intro m hm
    obtain ⟨q, hq, hreach⟩ := Relation.TransGen.head'_iff.1 hm
    have hkept := Reaches.completedPhases_prefix hreach
    rcases hq.of_calls hcalls with ⟨-, y, -, rfl⟩ | ⟨he', -⟩ | ⟨e, he', -⟩
    · exact hkept.subset hmarked
    · cases he.symm.trans he'
    · cases he.symm.trans he'
  · intro r d y hrun
    rcases ha : w.announce phase.name (c.markCompleted phase.name) x with ⟨_ | reason, z⟩
    · have hq : Onward env failFast w p _ := .completed hcalls he ha
      obtain ⟨m, hreach, hend⟩ := exists_ends (hq.run_eq.symm.trans hrun)
      exact hend.completedPhases_prefix.subset (hreach.completedPhases_prefix.subset hmarked)
    · -- the walk ends here, but not before the phase is marked
      have hend : Ends env failFast w p _ _ _ := .unheard hcalls he ha
      cases hend.run_eq.symm.trans hrun
      exact hmarked

/-! ## A run -/

namespace Launch

variable {l : Launch} {x y : ω}

/-- In a run, the call of a phase ends in a given way. -/
def Meets (l : Launch) (w : World ω) (x : ω) (f : Fate) : Prop :=
  ∃ env q, l.Visits w x env q ∧ q.Meets env w f

/-- In a run, a phase is called and completes. -/
def Completes (l : Launch) (w : World ω) (x : ω) (phase : Step) : Prop :=
  ∃ env q, l.Visits w x env q ∧ q.Completes env w phase

theorem Visits.fates {q : Position ω} (h : l.Visits w x env q) {ended : Walk} {c : Context}
    (hend : Ends env l.workflow.failFast w q (.ok ended) c y) :
    ∃ fs : List Fate, (fs.map Fate.phase).Sublist l.workflow.phases ∧
      q.failed = (fs.filterMap Fate.failed?).map Failure.kept ∧
      c.completedPhases =
        l.outset.context.completedPhases ++ (fs.filterMap Fate.completed?).map Step.name ∧
      ∀ f, f ∈ fs ↔ l.Meets w x f := by
  obtain ⟨p, hp, hq⟩ := h
  obtain ⟨first, spec, -, -, hbegin⟩ := exists_of_beginning hp
  obtain ⟨fs, hsub, hfailed, hcompleted, hfs⟩ := hq.fates hend
  rw [hbegin] at hsub hfailed hcompleted
  refine ⟨fs, hsub.trans (List.drop_sublist _ _), hfailed, hcompleted, fun f ↦ (hfs f).trans ?_⟩
  constructor
  · rintro ⟨m, hm, hf⟩
    exact ⟨env, m, ⟨p, hp, hm⟩, hf⟩
  · rintro ⟨env', m, ⟨p', hp', hm⟩, hf⟩
    -- a run has one beginning
    obtain ⟨rfl, rfl⟩ := Prod.mk.inj (Except.ok.inj (hp.symm.trans hp'))
    exact ⟨m, hm, hf⟩

end Launch

end Workflow.Run
