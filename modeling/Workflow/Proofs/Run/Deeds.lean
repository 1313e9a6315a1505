import Workflow.Proofs.Process.Patient
import Workflow.Proofs.Run.Rest
import Workflow.Proofs.Step.Owner

/-!
# The deeds of a run

Everything that a run does is done in the call of a phase that it visits, apart from the reports of
phases that were completed before: `Launch.exists_owner`. A run that is cut off is the
beginning of one that is not, so its deeds are those of a call that comes to its end as well, in the
world where nothing is cut off.
-/

namespace Workflow.Run

open Process (Deed deeds)

variable {ω : Type} {env : Environment} {failFast : Bool} {w : World ω}

/-- What is done in the walk from a position. -/
def Position.acts (env : Environment) (failFast : Bool) (w : World ω) (p : Position ω) :
    List (Process.Act Context) :=
  (walk env failFast p.failed p.left).acts w p.context p.outside

theorem Calls.passage {p : Position ω} {phase : Step} {rest : List Step} {a : Account}
    {c : Context} {x : ω} (h : Calls env w p phase rest a c x) :
    a.Passage env false ((phase.call env).acts w p.context p.outside) c ∧ a.step = phase ∧
      a.context = p.context := by
  have hleads := (Step.telling_call env phase (Set.subset_univ _) p.context).leads h.run_eq
  have halone : Process.Leads Context.anyGrowth (Context.Rely false) (phase.call env) p.context
      ((phase.call env).acts w p.context p.outside) a c := hleads.mono fun _ _ h ↦ h
  obtain ⟨hstep, hctx, -⟩ := leads_of_call halone
  exact ⟨Account.passage_of_leads halone, hstep, hctx⟩

/-! ## One phase -/

theorem Calls.acts_eq {p : Position ω} {phase : Step} {rest : List Step} {a : Account}
    {c : Context} {x : ω} (h : Calls env w p phase rest a c x) (failFast : Bool) :
    p.acts env failFast w = .read p.context ::
      ((phase.call env).acts w p.context p.outside ++
        (proceeding failFast p.failed phase.name (fun failed ↦ walk env failFast failed rest)
          a.ending).acts w c x) := by
  rw [Position.acts, h.left_eq, walk, Process.acts, if_neg (by simp [h.not_completed]),
    Step.process, Process.bind_assoc, Process.acts_bind h.run_eq]
  rfl

/-- After a call a walk does nothing else, or it goes on to a position where one phase less is
left. -/
theorem Calls.deeds_after {p : Position ω} {phase : Step} {rest : List Step} {a : Account}
    {c : Context} {x : ω} (h : Calls env w p phase rest a c x) (failFast : Bool) :
    deeds ((proceeding failFast p.failed phase.name (fun failed ↦ walk env failFast failed rest)
        a.ending).acts w c x) = [] ∨
      ∃ q, Onward env failFast w p q ∧ q.left = rest ∧
        deeds ((proceeding failFast p.failed phase.name
          (fun failed ↦ walk env failFast failed rest) a.ending).acts w c x) =
            deeds (q.acts env failFast w) := by
  cases he : a.ending with
  | ok status =>
    cases status with
    | completed =>
      rw [proceeding, announcing, Process.acts, Process.acts, Process.acts]
      rcases ha : w.announce phase.name (c.markCompleted phase.name) x with ⟨_ | reason, y⟩
      · exact .inr ⟨_, .completed h he ha, rfl, rfl⟩
      · exact .inl rfl
    | skipped => exact .inr ⟨_, .skipped h he, rfl, rfl⟩
  | error e =>
    rw [proceeding]
    split
    · exact .inl rfl
    · next hp =>
      split
      · exact .inl rfl
      · next hf =>
        obtain ⟨hff, hfatal⟩ := not_or.1 (Bool.or_eq_true_iff.not.1 hf)
        exact .inr ⟨_, .failed h he (by simpa using hp) (by simpa using hfatal)
          (by simpa using hff), rfl, rfl⟩

/-! ## All phases -/

/-- A deed of a phase that was passed over because it is completed already. -/
def PassesOver (x : Deed) : Prop := ∃ phase answer, x = .report (passed phase) answer

/-- A deed among those of a walk is one of the call of a phase at a position that the walk
reaches. -/
def Position.HasCall (env : Environment) (failFast : Bool) (w : World ω) (p : Position ω)
    (ds : List Deed) (x : Deed) : Prop :=
  ∃ q phase rest a c y, Reaches env failFast w p q ∧ Calls env w q phase rest a c y ∧
    x ∈ deeds ((phase.call env).acts w q.context q.outside) ∧
    (deeds ((phase.call env).acts w q.context q.outside)).Sublist ds

theorem Position.HasCall.of_onward {p q : Position ω} {ds ds' : List Deed} {x : Deed}
    (hq : Onward env failFast w p q) (hsub : ds.Sublist ds') (h : q.HasCall env failFast w ds x) :
    p.HasCall env failFast w ds' x := by
  obtain ⟨m, phase, rest, a, c, y, hreach, hcalls, hx, hds⟩ := h
  exact ⟨m, phase, rest, a, c, y, .head hq hreach, hcalls, hx, hds.trans hsub⟩

theorem Position.hasCall_of_mem {p : Position ω} {x : Deed}
    (hx : x ∈ deeds (p.acts env failFast w.patient)) :
    PassesOver x ∨ p.HasCall env failFast w.patient (deeds (p.acts env failFast w.patient)) x := by
  -- on the phases that are left
  induction hl : p.left generalizing p with
  | nil =>
    rw [Position.acts, hl] at hx
    cases hx
  | cons phase rest ih =>
    cases hc : p.context.isCompleted phase.name with
    | true =>
      rcases hr : w.patient.report (passed phase.name) p.outside with ⟨_ | reason, y⟩
      · have hacts : deeds (p.acts env failFast w.patient) = .report (passed phase.name) none ::
            deeds ((walk env failFast p.failed rest).acts w.patient p.context y) := by
          rw [Position.acts, hl, walk, Process.acts, if_pos hc, passing, Process.acts, hr]
          rfl
        rw [hacts, List.mem_cons] at hx
        rcases hx with rfl | hx
        · exact .inl ⟨phase.name, none, rfl⟩
        · have hrest := ih (p := ⟨p.failed, rest, p.context, y⟩) hx rfl
          refine hrest.imp_right fun h ↦ h.of_onward (.passed hl hc hr) ?_
          rw [hacts]
          exact List.sublist_cons_self ..
      · have hacts : deeds (p.acts env failFast w.patient) =
            [.report (passed phase.name) (some reason)] := by
          rw [Position.acts, hl, walk, Process.acts, if_pos hc, passing, Process.acts, hr]
          rfl
        rw [hacts, List.mem_singleton] at hx
        exact .inl ⟨phase.name, some reason, hx⟩
    | false =>
      obtain ⟨a, c, y, hrun⟩ :=
        Process.exists_run_patient w (phase.call env) p.context p.outside
      have hcalls : Calls env w.patient p phase rest a c y := ⟨hl, hc, hrun⟩
      have hacts := congrArg deeds (hcalls.acts_eq failFast)
      rw [Process.deeds_read, Process.deeds_append] at hacts
      have hx' := hx
      rw [hacts, List.mem_append] at hx'
      rcases hx' with hx' | hx'
      · refine .inr ⟨p, phase, rest, a, c, y, .refl, hcalls, hx', ?_⟩
        rw [hacts]
        exact List.sublist_append_left ..
      · rcases hcalls.deeds_after failFast with hnone | ⟨q, hq, hqleft, heq⟩
        · rw [hnone] at hx'
          cases hx'
        · rw [heq] at hx'
          refine (ih hx' hqleft).imp_right fun h ↦ h.of_onward hq ?_
          rw [hacts, heq]
          exact List.sublist_append_right ..

/-! ## Runs -/

namespace Launch

variable {l : Launch} {x₀ : ω} {x : Deed}

/-- A call that lies in the call of a phase of a run. -/
structure Makes (l : Launch) (w : World ω) (x₀ : ω) (env : Environment) (a b : Account)
    (shared : Bool) : Prop where
  called : ∃ q phase rest c y, l.Visits w x₀ env q ∧ Calls env w q phase rest a c y
  lies : b.Lies shared a false

theorem beginning_patient (l : Launch) (w : World ω) (x₀ : ω) :
    l.beginning w.patient x₀ = l.beginning w x₀ := by
  rw [beginning, beginning, World.patient_within]

/-- **The deeds of a run.** What a run has to do with the outside is what calls in the calls of its
phases do themselves, but for the reports of phases that are passed over. -/
theorem exists_owner (hx : x ∈ deeds (l.acts w x₀)) :
    PassesOver x ∨ ∃ (env : Environment) (a b : Account) (shared : Bool)
      (bs : List (Process.Act Context)) (e : Context), l.Makes w.patient x₀ env a b shared ∧
        b.Passage env shared bs e ∧ (deeds bs).Sublist (deeds (l.acts w.patient x₀)) ∧
        x ∈ deeds bs ∧ b.Owns env shared bs e x := by
  rw [acts] at hx
  cases hb : l.beginning w x₀ with
  | error e =>
    rw [hb] at hx
    cases hx
  | ok begun =>
    obtain ⟨env, p⟩ := begun
    rw [hb] at hx
    have hpatient : l.acts w.patient x₀ = p.acts env l.workflow.failFast w.patient := by
      rw [acts, beginning_patient, hb]
      rfl
    have hbefore := (Process.acts_prefix_patient w (walk env l.workflow.failFast p.failed p.left)
      p.context p.outside).filterMap Process.Act.deed?
    refine (Position.hasCall_of_mem (hbefore.subset hx)).imp_right ?_
    rintro ⟨q, phase, rest, a, c, y, hreach, hcalls, hx, hsub⟩
    obtain ⟨b, shared, bs, e, hlies, hb', hsub', hx', howns⟩ := hcalls.passage.1.hasOwner hx
    have hvisits : l.Visits w.patient x₀ env q := ⟨p, by rw [beginning_patient, hb], hreach⟩
    refine ⟨env, a, b, shared, bs, e, ⟨⟨q, phase, rest, c, y, hvisits, hcalls⟩, hlies⟩, hb', ?_,
      hx', howns⟩
    rw [hpatient]
    exact hsub'.trans hsub

end Launch

end Workflow.Run
