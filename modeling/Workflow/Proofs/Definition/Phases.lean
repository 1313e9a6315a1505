import Mathlib.Data.List.Nodup
import Workflow.Definition.Validate
import Workflow.Proofs.Except

/-!
# Phases of definitions that were read

No two phases of a definition that was read from a document have one name, so a name leads to the
phase that it was taken from.
-/

namespace Workflow.Definition

open Json (Value Members)

theorem nodup_of_validatePhases {i : Nat} {seen : List String} {vs : List Value} {ss : List Step}
    (h : validatePhases i seen vs = .ok ss) :
    (ss.map Step.name).Nodup ∧ ∀ s ∈ ss, s.name ∉ seen := by
  induction vs generalizing i seen ss with
  | nil =>
    cases h
    exact ⟨List.nodup_nil, by simp⟩
  | cons v vs ih =>
    rw [validatePhases] at h
    cases hv : Step.validate v with
    | error f =>
      rw [hv] at h
      cases h
    | ok s =>
      rw [hv] at h
      dsimp only at h
      split at h
      · cases h
      · next hseen =>
        obtain ⟨ss', hss', hs⟩ := exists_of_bind_eq_ok h
        cases hs
        obtain ⟨hnodup, hnew⟩ := ih hss'
        constructor
        -- a phase that comes later was checked against all names before it
        · refine List.nodup_cons.2 ⟨fun hmem ↦ ?_, hnodup⟩
          obtain ⟨t, ht, hname⟩ := List.mem_map.1 hmem
          exact hnew t ht (hname ▸ List.mem_cons_self)
        · refine List.forall_mem_cons.2 ⟨by simpa using hseen, fun t ht hmem ↦ ?_⟩
          exact hnew t ht (List.mem_cons_of_mem _ hmem)

theorem exists_phases_of_validate {v : Value} {d : Definition} (h : validate v = .ok d) :
    ∃ ms vs, v = .object ms ∧ Members.get? "phases" ms = some (.array vs) ∧
      validatePhases 0 [] vs = .ok d.phases := by
  unfold validate at h
  split at h
  · next ms =>
    obtain ⟨name, -, h⟩ := exists_of_bind_eq_ok h
    obtain ⟨version, -, h⟩ := exists_of_bind_eq_ok h
    obtain ⟨defaults, -, h⟩ := exists_of_bind_eq_ok h
    obtain ⟨safety, -, h⟩ := exists_of_bind_eq_ok h
    obtain ⟨phases, hphases, h⟩ := exists_of_bind_eq_ok h
    cases h
    unfold phasesField at hphases
    split at hphases
    · cases hphases
    · next vs _ hget => exact ⟨ms, vs, rfl, hget, hphases⟩
    · cases hphases
  · cases h

theorem nodup_of_validate {v : Value} {d : Definition} (h : validate v = .ok d) :
    (d.phases.map Step.name).Nodup := by
  obtain ⟨ms, vs, -, -, hphases⟩ := exists_phases_of_validate h
  exact (nodup_of_validatePhases hphases).1

theorem phaseIndex?_eq {d : Definition} (hd : (d.phases.map Step.name).Nodup)
    {before after : List Step} {phase : Step} (h : d.phases = before ++ phase :: after) :
    d.phaseIndex? phase.name = some before.length := by
  have hbefore : before.findIdx? (fun p ↦ p.name == phase.name) = none := by
    refine List.findIdx?_eq_none_iff.2 fun p hp ↦ ?_
    rw [h, List.map_append, List.map_cons, List.nodup_middle, List.nodup_cons] at hd
    have hne : p.name ≠ phase.name := fun heq ↦
      hd.1 (List.mem_append_left _ (heq ▸ List.mem_map_of_mem hp))
    simpa using hne
  rw [phaseIndex?, h, List.findIdx?_append, hbefore, List.findIdx?_cons]
  simp

end Workflow.Definition
