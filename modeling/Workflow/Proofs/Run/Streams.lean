import Workflow.DryRun
import Workflow.Proofs.Account.Call
import Workflow.Proofs.Run.Launch

/-!
# What a run reports

A run reports what its phases report, one phase after the other in the order of the workflow. The
statements are about worlds that keep a record; by `Process.run_recording` the record changes
nothing else.

A sink that refuses an event ends the run, and a limit on the whole run cuts it off wherever it is.
Both are left out in the main result, so every call that was begun in such a run has ended.
-/

namespace Workflow

open Process (Report reports)

variable {ω : Type} {w : World ω}

/-! ## One step -/

theorem Step.trail_of_run_recording {env : Environment} {s : Step} {c c' : Context}
    {x x' : ω × List Report} {a : Account}
    (h : (s.call env).run w.recording c x = (some (a, c'), x')) :
    ∃ rs, x'.2 = x.2 ++ rs ∧ a.step = s ∧ a.Trail rs := by
  obtain ⟨x, log⟩ := x
  obtain ⟨x', log'⟩ := x'
  rw [Process.run_recording] at h
  obtain ⟨hr, hx⟩ := Prod.mk.inj h
  obtain ⟨hx, hlog⟩ := Prod.mk.inj hx
  have hrun : (s.call env).run w c x = (some (a, c'), x') := Prod.ext hr hx
  obtain ⟨hs, ht⟩ := trail_of_path (Process.path_acts hrun)
  exact ⟨_, hlog.symm, hs, ht⟩

namespace Run

/-! ## Phases one after the other -/

/-- What is reported on a phase: that it was completed before, or the trail of its call. -/
inductive Stream (phase : Step) : List Report → Prop where
  | passed (m : Json.Members Json.Value) : Stream phase [(⟨phase.name, .skipped, m⟩, none)]
  | called {a : Account} {rs : List Report} : a.step = phase → a.Trail rs → Stream phase rs

/-- A call ends the whole walk: it pauses, or its error is one that the walk does not survive, or
the host refuses to hear that the phase is completed. -/
inductive Halts (failFast : Bool) (phase : Step) :
    Except StepError StepStatus → Except RunError Walk → Prop where
  | paused (step blocker : String) :
      Halts failFast phase (.error (.paused step blocker)) (.ok (.paused phase.name blocker))
  | aborted {e : StepError} : e.isPause = false → (failFast = true ∨ e.isFatal = true) →
      Halts failFast phase (.error e) (.error (.ofStep phase.name e))
  | unheard (reason : String) :
      Halts failFast phase (.ok .completed) (.error (.announcement phase.name reason))

/-- The streams of phases follow one another in the order of the phases, up to the last phase or to
one whose call ends the walk. -/
inductive Streams (failFast : Bool) :
    List Step → Except RunError Walk → List Report → Prop where
  | done (failed : List (String × String)) : Streams failFast [] (.ok (.finished failed)) []
  | next {phase : Step} {rest : List Step} {r : Except RunError Walk} {rs qs : List Report} :
      Stream phase rs → Streams failFast rest r qs → Streams failFast (phase :: rest) r (rs ++ qs)
  | last {phase : Step} {rest : List Step} {a : Account} {r : Except RunError Walk}
      {rs : List Report} : a.step = phase → a.Trail rs → Halts failFast phase a.ending r →
      Streams failFast (phase :: rest) r rs

variable {env : Environment} {failFast : Bool}

theorem Calls.stream {p : Position (ω × List Report)} {phase : Step} {rest : List Step}
    {a : Account} {c : Context} {x : ω × List Report}
    (h : Calls env w.recording p phase rest a c x) :
    ∃ rs, x.2 = p.outside.2 ++ rs ∧ a.step = phase ∧ a.Trail rs :=
  Step.trail_of_run_recording h.run_eq

theorem Onward.stream {p q : Position (ω × List Report)}
    (h : Onward env failFast w.recording p q) :
    ∃ phase rs, p.left = phase :: q.left ∧ q.outside.2 = p.outside.2 ++ rs ∧ Stream phase rs := by
  cases h with
  | passed hl hc hr => exact ⟨_, _, hl, World.recording_report hr, .passed _⟩
  | completed h he ha =>
    obtain ⟨rs, hx, hs, ht⟩ := h.stream
    exact ⟨_, rs, h.left_eq, (World.recording_announce ha).trans hx, .called hs ht⟩
  | skipped h he =>
    obtain ⟨rs, hx, hs, ht⟩ := h.stream
    exact ⟨_, rs, h.left_eq, hx, .called hs ht⟩
  | failed h he hp hf hff =>
    obtain ⟨rs, hx, hs, ht⟩ := h.stream
    exact ⟨_, rs, h.left_eq, hx, .called hs ht⟩

/-- Where the sink accepts everything, a walk ends after the last phase or with the call of one that
ends it. -/
theorem Ends.streams (hw : w.Accepts) {p : Position (ω × List Report)} {r : Except RunError Walk}
    {c : Context} {x : ω × List Report} (h : Ends env failFast w.recording p r c x) :
    ∃ rs, x.2 = p.outside.2 ++ rs ∧ Streams failFast p.left r rs := by
  cases h with
  | finished hl => exact ⟨[], (List.append_nil _).symm, hl ▸ .done _⟩
  | refused hl hc hr =>
    -- the sink accepts everything, so it cannot have refused the report of a phase passed over
    have hrefused : (w.report _ p.outside.1).1 = some _ := congrArg Prod.fst hr
    rw [hw] at hrefused
    cases hrefused
  | unheard h he ha =>
    obtain ⟨rs, hx, hs, ht⟩ := h.stream
    exact ⟨rs, (World.recording_announce ha).trans hx,
      h.left_eq ▸ .last hs ht (he ▸ .unheard _)⟩
  | paused h he =>
    obtain ⟨rs, hx, hs, ht⟩ := h.stream
    exact ⟨rs, hx, h.left_eq ▸ .last hs ht (he ▸ .paused _ _)⟩
  | aborted h he hp hf =>
    obtain ⟨rs, hx, hs, ht⟩ := h.stream
    exact ⟨rs, hx, h.left_eq ▸ .last hs ht (he ▸ .aborted hp hf)⟩

theorem Reaches.streams {p q : Position (ω × List Report)}
    (h : Reaches env failFast w.recording p q) {r : Except RunError Walk} {log qs : List Report}
    (hlog : log = q.outside.2 ++ qs) (hqs : Streams failFast q.left r qs) :
    ∃ rs, log = p.outside.2 ++ rs ∧ Streams failFast p.left r rs := by
  -- from the end backwards, as the streams of all that is left include those of what comes later
  induction h using Relation.ReflTransGen.head_induction_on with
  | refl => exact ⟨qs, hlog, hqs⟩
  | head hp _ ih =>
    obtain ⟨rs, hrs, hstreams⟩ := ih
    obtain ⟨phase, ps, hl, hps, hstream⟩ := hp.stream
    refine ⟨ps ++ rs, ?_, hl ▸ .next hstream hstreams⟩
    rw [hrs, hps, List.append_assoc]

/-- The walk of a run that is not cut off reports the streams of its phases. -/
theorem Position.streams_of_run (hw : w.Accepts) {p : Position (ω × List Report)}
    {r : Except RunError Walk} {c : Context} {x : ω × List Report}
    (h : p.run env failFast w.recording = (some (r, c), x)) :
    ∃ rs, x.2 = p.outside.2 ++ rs ∧ Streams failFast p.left r rs := by
  obtain ⟨q, hq, hend⟩ := exists_ends h
  obtain ⟨qs, hx, hqs⟩ := hend.streams hw
  exact hq.streams hx hqs

/-- A run that begins, and is not cut off, reports the streams of the phases from the one on at
which it begins. -/
theorem Launch.streams_of_run (hw : w.Accepts) {l : Launch} {x x' : ω}
    {r : Except RunError RunResult} {rs : List Report}
    (h : l.run w.recording (x, []) = (r, x', rs))
    (hcut : ∀ name limit, r ≠ .error (.timeout name limit)) :
    (∃ e, l.beginning w.recording (x, []) = .error e ∧ r = .error e ∧ rs = []) ∨
    ∃ first ended c, firstPhase l.workflow l.outset.fromPhase = .ok first ∧
      Streams l.workflow.failFast (l.workflow.phases.drop first) ended rs ∧
      r = ended.map (result l.runId l.workflow c) := by
  cases hb : l.beginning w.recording (x, []) with
  | error e =>
    rw [run_of_error hb] at h
    cases h
    exact .inl ⟨e, rfl, rfl, rfl⟩
  | ok b =>
    obtain ⟨env, p⟩ := b
    obtain ⟨first, spec, hfirst, -, hp⟩ := exists_of_beginning hb
    rw [run_of_ok hb] at h
    rcases hrun : p.run env l.workflow.failFast w.recording with ⟨_ | ⟨ended, c⟩, y⟩
    · rw [hrun] at h
      cases h
      exact absurd rfl (hcut _ _)
    · obtain ⟨qs, hy, hstreams⟩ := Position.streams_of_run hw hrun
      have hlog : (conclude l.runId l.workflow (some (ended, c), y)).2.2 = rs := by
        rw [← hrun, h]
      rw [snd_conclude, hy, hp, World.recording_within] at hlog
      rw [hp] at hstreams
      obtain rfl : qs = rs := hlog
      rw [hrun] at h
      refine .inr ⟨first, ended, c, hfirst, hstreams, ?_⟩
      cases ended with
      | error e => exact (congrArg Prod.fst h).symm
      | ok ended => exact (congrArg Prod.fst h).symm

theorem Launch.accepted_of_run (hw : w.Accepts) (l : Launch) (x : ω) :
    ∀ r ∈ (l.run w.recording (x, [])).2.2, r.2 = none := by
  cases hb : l.beginning w.recording (x, []) with
  | error e =>
    rw [run_of_error hb]
    simp
  | ok b =>
    obtain ⟨env, p⟩ := b
    obtain ⟨first, spec, -, -, rfl⟩ := exists_of_beginning hb
    rw [run_of_ok hb, snd_conclude, Position.run, World.recording_within]
    exact Process.accepted_of_run_recording hw _ _ _

end Run

/-! ## Accepting sinks -/

/-- **Trails.** Where the sink accepts every event, whatever the agents and the handlers do: a call
of a step that ends has reported the trail of an account of it, and a run that is not cut off has
reported the streams of its phases, one after the other. They are those of all phases from the one
on at which it began, or up to one with which it ended; and nothing is reported of a run that does
not begin. -/
theorem trails_of_accepting_sink (hw : w.Accepts) :
    (∀ (env : Environment) (s : Step) (c c' : Context) (x x' : ω)
        (r : Except StepError StepStatus) (rs : List Report),
      (s.process env).run w.recording c (x, []) = (some (r, c'), x', rs) →
        ∃ a : Account, a.step = s ∧ a.ending = r ∧ a.Trail rs ∧ ∀ e ∈ rs, e.2 = none) ∧
    ∀ (l : Run.Launch) (x x' : ω) (r : Except RunError RunResult) (rs : List Report),
      l.run w.recording (x, []) = (r, x', rs) → (∀ name limit, r ≠ .error (.timeout name limit)) →
        (∀ e ∈ rs, e.2 = none) ∧
        ((∃ e, l.beginning w.recording (x, []) = .error e ∧ r = .error e ∧ rs = []) ∨
          ∃ first ended c, Run.firstPhase l.workflow l.outset.fromPhase = .ok first ∧
            Run.Streams l.workflow.failFast (l.workflow.phases.drop first) ended rs ∧
            r = ended.map (Run.result l.runId l.workflow c)) := by
  constructor
  · intro env s c c' x x' r rs h
    have haccepted := Process.accepted_of_run_recording hw (s.process env) c x
    rw [h] at haccepted
    rw [Step.process, Process.run_bind] at h
    rcases hcall : (s.call env).run w.recording c (x, []) with ⟨_ | ⟨a, c₁⟩, y⟩
    · rw [hcall] at h
      cases h
    · rw [hcall] at h
      cases h
      obtain ⟨rs', hrs, hs, ht⟩ := Step.trail_of_run_recording hcall
      obtain rfl : rs = rs' := hrs
      exact ⟨a, hs, rfl, ht, haccepted⟩
  · intro l x x' r rs h hcut
    have haccepted := Run.Launch.accepted_of_run hw l x
    rw [h] at haccepted
    exact ⟨haccepted, Run.Launch.streams_of_run hw h hcut⟩

def twoAtOnce : Step :=
  .parallel ⟨"both", none⟩ [.code ⟨"left", "note", none, none⟩, .code ⟨"right", "note", none, none⟩]

/-- A run with two handlers side by side, and one after them. -/
def twoAtOnceLaunch : Run.Launch where
  host := { files := {}, tiers := { project := "project" }, handlers := ["note"] }
  runId := ⟨0⟩
  workflow := ⟨"two at once", "1", {}, none, [twoAtOnce, .code ⟨"after", "note", none, none⟩]⟩
  outset := .fresh none

theorem trails_of_twoAtOnce :
    DryRun.world.Accepts ∧
    (∃ (env : Environment) (c : Context) (x : DryRun.Log) (rs : List Report) (a : Account),
      (twoAtOnce.process env).run DryRun.world.recording .empty ({}, []) =
          (some (.ok .completed, c), x, rs) ∧
        a.step = twoAtOnce ∧ a.ending = .ok .completed ∧ a.Trail rs) ∧
    ∃ (r : RunResult) (x : DryRun.Log) (rs : List Report) (ended : Except RunError Walk),
      twoAtOnceLaunch.run DryRun.world.recording ({}, []) = (.ok r, x, rs) ∧
        Run.Streams true twoAtOnceLaunch.workflow.phases ended rs := by
  have hw : DryRun.world.Accepts := fun _ _ ↦ rfl
  let env := Run.environment twoAtOnceLaunch.host twoAtOnceLaunch.workflow ⟨0⟩ none
  refine ⟨hw, ?_, ?_⟩
  · have hends : ((twoAtOnce.process env).run DryRun.world.recording .empty ({}, [])).1.map (·.1) =
        some (.ok .completed) := by decide +kernel
    rcases hout : (twoAtOnce.process env).run DryRun.world.recording .empty ({}, []) with
      ⟨_ | ⟨r, c⟩, x, rs⟩
    · rw [hout] at hends
      cases hends
    · rw [hout] at hends
      cases hends
      obtain ⟨a, hs, he, ht, -⟩ := (trails_of_accepting_sink hw).1 _ _ _ _ _ _ _ _ hout
      exact ⟨env, c, x, rs, a, hout, hs, he, ht⟩
  · have hends : (twoAtOnceLaunch.run DryRun.world.recording
        ({}, [])).1.toOption.isSome = true := by
      decide +kernel
    rcases hout : twoAtOnceLaunch.run DryRun.world.recording ({}, []) with ⟨e | r, x, rs⟩
    · rw [hout] at hends
      cases hends
    · rcases (trails_of_accepting_sink hw).2 _ _ _ _ _ hout nofun with
        ⟨-, ⟨e, -, he, -⟩ | ⟨first, ended, c, hfirst, hstreams, -⟩⟩
      · cases he
      · cases hfirst
        exact ⟨r, x, rs, ended, rfl, hstreams⟩

end Workflow
