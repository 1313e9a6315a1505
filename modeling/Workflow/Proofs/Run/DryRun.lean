import Workflow.Proofs.Run.Deeds
import Workflow.Proofs.Run.Progress
import Workflow.Proofs.Step.DryRun

/-!
# Dry runs

A dry run from an empty context leaves everything unset: at all its points the context is hollow, so
there are no other variables than those of groups, and no other values in them than objects of
objects. That is what a template or a condition sees of a dry run, wherever it looks.

It is proved of every world in which agents have nothing to say but system messages; such a world
may refuse reports, cancel calls, let them time out, and cut the run off.
-/

namespace Workflow

open Json (Value)

/-- The names of the variables for what the groups of a workflow gather. -/
def Definition.groupOutputs (d : Definition) : Set String :=
  {key | ∃ phase ∈ d.phases, key ∈ phase.groupOutputs}

namespace Run

variable {ω : Type} {env : Environment} {failFast : Bool} {w : World ω} {keys : Set String}

/-! ## Walks -/

theorem keepsHollow_walk (henv : env.handlers = []) {phases : List Step}
    (hphases : ∀ phase ∈ phases, phase.groupOutputs ⊆ keys) (failed : List (String × String)) :
    (walk env failFast failed phases).KeepsHollow keys fun _ ↦ True := by
  induction phases generalizing failed with
  | nil => trivial
  | cons phase phases ih =>
    obtain ⟨hphase, hphases⟩ := List.forall_mem_cons.1 hphases
    have hnext := fun failed ↦ ih hphases failed
    intro c _
    dsimp only
    split
    · intro answer
      cases answer with
      | none => exact hnext failed
      | some reason => trivial
    · have hprocess : (phase.process env).KeepsHollow keys fun _ ↦ True :=
        (Step.keepsHollow_call henv phase hphase).bind fun _ _ ↦ trivial
      refine hprocess.bind fun ending _ ↦ ?_
      rcases ending with e | _ | _
      · rw [proceeding]
        split
        · trivial
        · split
          · trivial
          · exact hnext _
      · refine ⟨fun c hc ↦ hc.markCompleted phase.name, fun c _ answer ↦ ?_⟩
        cases answer with
        | none => exact hnext failed
        | some reason => trivial
      · exact hnext failed

/-! ## Positions -/

theorem Calls.hollow (hw : w.AnswersBy Settlement.Dry) (henv : env.handlers = []) {p : Position ω}
    {phase : Step} {rest : List Step} {a : Account} {c : Context} {x : ω}
    (h : Calls env w p phase rest a c x) (hphase : phase.groupOutputs ⊆ keys)
    (hp : p.context.Hollow keys) : c.Hollow keys ∧ a.Barren keys :=
  (Step.keepsHollow_call henv phase hphase).run hw hp h.run_eq

theorem Onward.hollow (hw : w.AnswersBy Settlement.Dry) (henv : env.handlers = [])
    {p q : Position ω} (h : Onward env failFast w p q)
    (hleft : ∀ phase ∈ p.left, phase.groupOutputs ⊆ keys) (hp : p.context.Hollow keys) :
    q.context.Hollow keys := by
  have hcalled {phase rest a c x} (hcalls : Calls env w p phase rest a c x) : c.Hollow keys :=
    (hcalls.hollow hw henv (hleft phase (hcalls.left_eq ▸ List.mem_cons_self)) hp).1
  cases h with
  | passed hl hc hr => exact hp
  | completed hcalls he ha => exact (hcalled hcalls).markCompleted _
  | skipped hcalls he => exact hcalled hcalls
  | failed hcalls he hpause hf hff => exact hcalled hcalls

/-! ## Runs -/

theorem vars_result (runId : Uuid) (d : Definition) (c : Context) (ended : Walk) :
    (result runId d c ended).outputs = c.vars ∧
      (result runId d c ended).changedFiles = c.changedFiles := by
  rcases ended with (_ | ⟨_, _⟩) | _
  all_goals exact ⟨rfl, rfl⟩

namespace Launch

/-- The contexts that a run goes through, up to its end or to where it is cut off. -/
def contexts (l : Launch) (w : World ω) (x : ω) : List Context :=
  match l.beginning w x with
  | .error _ => []
  | .ok (env, p) => (walk env l.workflow.failFast p.failed p.left).states w p.context p.outside

variable {l : Launch} {x : ω}

theorem groupOutputs_subset {phase : Step} (h : phase ∈ l.workflow.phases) :
    phase.groupOutputs ⊆ l.workflow.groupOutputs :=
  fun _ hkey ↦ ⟨phase, h, hkey⟩

theorem Visits.handlers_eq {q : Position ω} (h : l.Visits w x env q) :
    env.handlers = l.host.handlers := by
  obtain ⟨p, hp, -⟩ := h
  obtain ⟨first, spec, -, rfl, -⟩ := exists_of_beginning hp
  rfl

theorem Visits.hollow (hw : w.AnswersBy Settlement.Dry) (hhandlers : l.host.handlers = [])
    (hfresh : l.outset.context = .empty) {q : Position ω} (h : l.Visits w x env q) :
    q.context.Hollow l.workflow.groupOutputs := by
  obtain ⟨p, hp, hq⟩ := h
  induction hq with
  | refl =>
    obtain ⟨first, spec, -, -, rfl⟩ := exists_of_beginning hp
    exact hfresh ▸ Context.hollow_empty _
  | @tail m q hm hq ih =>
    have hvisits : l.Visits w x env m := ⟨p, hp, hm⟩
    refine hq.hollow hw (hvisits.handlers_eq.trans hhandlers) (fun phase hphase ↦ ?_) ih
    exact groupOutputs_subset (hvisits.left_suffix.subset hphase)

theorem Visits.hollow_of_ends (hw : w.AnswersBy Settlement.Dry)
    (hhandlers : l.host.handlers = []) (hfresh : l.outset.context = .empty) {q : Position ω}
    (hq : l.Visits w x env q) {ended : Walk} {c : Context} {y : ω}
    (h : Ends env failFast w q (.ok ended) c y) : c.Hollow l.workflow.groupOutputs := by
  have hcontext := hq.hollow hw hhandlers hfresh
  cases h with
  | finished hl => exact hcontext
  | paused hcalls he =>
    have henv := hq.handlers_eq.trans hhandlers
    exact (hcalls.hollow hw henv (groupOutputs_subset (hq.mem_phases hcalls)) hcontext).1

/-- **Dry runs leave everything unset.** Take a run from an empty context, of any workflow and with
any options, without handlers and in a world in which agents have nothing to say. At all its points,
and in every context in which a step is called, the only variables are those of groups, with objects
of objects as their values, and no file is changed; and so it is in the result. The call of a code
step or of an iteration over tasks always fails, and nothing is called in it. -/
theorem hollow_of_dry (hhandlers : l.host.handlers = []) (hfresh : l.outset.context = .empty)
    (hw : w.AnswersBy Settlement.Dry) (x : ω) :
    (∀ c ∈ l.contexts w x, c.Hollow l.workflow.groupOutputs) ∧
    (∀ {env a b shared}, l.Makes w.patient x env a b shared →
      b.context.Hollow l.workflow.groupOutputs ∧
      (b.step.kind = .code ∨ b.step.kind = .perTask → (∃ e, b.ending = .error e) ∧ b.inside = [])) ∧
    ∀ r y, l.run w x = (.ok r, y) →
      (∀ m ∈ r.outputs, m.1 ∈ l.workflow.groupOutputs ∧ m.2.Hollow) ∧ r.changedFiles = [] := by
  refine ⟨fun c hc ↦ ?_, fun hmakes ↦ ?_, fun r y hrun ↦ ?_⟩
  · rw [contexts] at hc
    split at hc
    · cases hc
    · next env p hp =>
      obtain ⟨first, spec, -, rfl, rfl⟩ := exists_of_beginning hp
      have hphases : ∀ phase ∈ l.workflow.phases.drop first,
          phase.groupOutputs ⊆ l.workflow.groupOutputs := fun phase hphase ↦
        groupOutputs_subset (List.drop_subset _ _ hphase)
      have hbegun : l.outset.context.Hollow l.workflow.groupOutputs :=
        hfresh ▸ Context.hollow_empty _
      exact (keepsHollow_walk hhandlers hphases _).of_mem_states hw hbegun hc
  · obtain ⟨q, phase, rest, c, y, hq, hcalls⟩ := hmakes.called
    have hw' := hw.patient nofun
    have henv := hq.handlers_eq.trans hhandlers
    have hidle := (hcalls.hollow hw' henv (groupOutputs_subset (hq.mem_phases hcalls))
      (hq.hollow hw' hhandlers hfresh)).2 _ hmakes.lies.within
    exact ⟨hidle.context, hidle.fails⟩
  · obtain ⟨env, q, ended, c, hq, hend, rfl⟩ := exists_visits_ends hrun
    have hc := hq.hollow_of_ends hw hhandlers hfresh hend
    obtain ⟨hvars, hfiles⟩ := vars_result l.runId l.workflow c ended
    rw [hvars, hfiles]
    exact ⟨hc.vars, hc.changedFiles_eq⟩

end Launch

/-! ## A group in a group -/

/-- A workflow with a group in a group, an iteration over what the inner group gathers, and a code
step. -/
def surveyingDocument : Value :=
  .object [("name", .string "surveying"),
    ("phases", .array [
      .object [("name", .string "gather"), ("output", .string "all"),
        ("steps", .array [
          .object [("name", .string "inner"), ("output", .string "parts"),
            ("steps", .array [
              .object [("agent", .string "dev"), ("name", .string "left")],
              .object [("agent", .string "dev"), ("name", .string "right")]]),
            ("type", .string "parallel")],
          .object [("agent", .string "dev"), ("name", .string "other")]]),
        ("type", .string "parallel")],
      .object [("name", .string "each"), ("source", .string "all.parts"),
        ("steps", .array [.object [("agent", .string "dev"), ("name", .string "work")]]),
        ("type", .string "per-task")],
      .object [("handler", .string "counter"), ("name", .string "count"), ("output", .string "n"),
        ("type", .string "code")]]),
    ("safety", .object [("failOnStepError", .bool false)]),
    ("version", .string "1")]

def surveying : Launch where
  host :=
    { files :=
        { entries := [(["project"], .folder), (["project", "agents"], .folder),
            (["project", "agents", "dev.md"], .file "---\nname: dev\n---\n")] }
      tiers := { project := "project" } }
  runId := ⟨0⟩
  workflow := ⟨"surveying", "1", {}, some { failOnStepError := false }, [
    .parallel ⟨"gather", some "all"⟩ [
      .parallel ⟨"inner", some "parts"⟩ [
        .agent { name := "left", agent := some "dev" },
        .agent { name := "right", agent := some "dev" }],
      .agent { name := "other", agent := some "dev" }],
    .perTask ⟨"each", "all.parts"⟩ [.agent { name := "work", agent := some "dev" }],
    .code ⟨"count", "counter", none, some "n"⟩]⟩
  outset := .fresh none

/-- The outer group gathers the empty object that the inner one has gathered, and the phases after
it fail. -/
theorem hollow_surveying :
    Definition.validate surveyingDocument = .ok surveying.workflow ∧
    surveying.host.handlers = [] ∧ surveying.outset.context = .empty ∧
    DryRun.world.AnswersBy Settlement.Dry ∧
    (∀ c ∈ surveying.contexts DryRun.world {}, c.Hollow surveying.workflow.groupOutputs) ∧
    ∃ r y, surveying.run DryRun.world {} = (.ok r, y) ∧ r.failedPhases = ["each", "count"] ∧
      r.outputs = [("all", .object [("parts", .object [])]), ("parts", .object [])] ∧
      (∀ m ∈ r.outputs, m.1 ∈ surveying.workflow.groupOutputs ∧ m.2.Hollow) ∧
      r.changedFiles = [] := by
  have hends : (surveying.run DryRun.world {}).1.toOption.map
      (fun r ↦ (r.failedPhases, r.outputs)) = some (["each", "count"],
        [("all", .object [("parts", .object [])]), ("parts", .object [])]) := by
    decide +kernel
  obtain ⟨r, y, hrun, hview⟩ := Launch.exists_result hends
  obtain ⟨hfailed, houtputs⟩ := Prod.mk.inj hview
  obtain ⟨hcontexts, -, hresult⟩ :=
    Launch.hollow_of_dry (l := surveying) rfl rfl DryRun.answersBy_dry {}
  obtain ⟨hvars, hfiles⟩ := hresult r y hrun
  exact ⟨by decide +kernel, rfl, rfl, DryRun.answersBy_dry, hcontexts, r, y, hrun, hfailed,
    houtputs, hvars, hfiles⟩

end Run

end Workflow
