import Workflow.Proofs.Definition.Valid
import Workflow.Proofs.Run.Progress

/-!
# What reaches a run

A definition that was read holds nothing malformed, at whatever depth: `wellFormed_of_validate`. A
run of it calls no other steps than those, so a condition that cannot be read is never evaluated.
That such a condition would count as one that does not hold is of no consequence.
-/

namespace Workflow

open Json (Value)

/-- The condition that a step evaluates, if it has one: an agent step before it is called, and a
loop after its passes. -/
def Step.condition? : Step → Option String
  | agent s => s.condition
  | loop l _ => some l.condition
  | code _ | parallel _ _ | perTask _ _ => none

/-- Nothing is missing in a step itself, and its condition, if it has one, can be read, so what it
evaluates to is what it says. -/
structure Step.WellFormed (s : Step) : Prop where
  name : Text.isBlankText s.name = false
  handler : ∀ c, s = .code c → Text.isBlankText c.handler = false
  source : ∀ p ss, s = .perTask p ss → Text.isBlankText p.source = false
  maxRetries : ∀ l ss, s = .loop l ss → 1 ≤ l.maxRetries
  condition : ∀ source, s.condition? = some source → ∃ c, Condition.parse source = .ok c ∧
    ∀ vars, Condition.evaluate source vars = c.holdsIn vars

theorem exists_parse_of_checkCondition {source : String}
    (h : Validate.checkCondition source = .ok ()) :
    ∃ c, Condition.parse source = .ok c ∧
      ∀ vars, Condition.evaluate source vars = c.holdsIn vars := by
  unfold Validate.checkCondition at h
  cases hp : Condition.parse source with
  | error reason =>
    rw [hp] at h
    cases h
  | ok c => exact ⟨c, rfl, fun vars ↦ by rw [Condition.evaluate, hp]⟩

namespace Step.Valid

variable {f : Value → Value} {s t : Step}

theorem of_inside (h : s.Valid f) (ht : t.Inside s) : t.Valid f := by
  induction ht with
  | refl => exact h
  | child hmem _ ih =>
    refine ih ?_
    cases h with
    | agent | code => cases hmem
    | parallel _ hss | loop _ hss | perTask _ hss => exact hss _ hmem

theorem wellFormed (h : s.Valid f) : s.WellFormed := by
  cases h with
  | agent h =>
    refine ⟨h.name, nofun, nofun, nofun, fun source hsource ↦ ?_⟩
    exact exists_parse_of_checkCondition (h.condition source hsource)
  | code h => exact ⟨h.name, fun c hc ↦ by cases hc; exact h.handler, nofun, nofun, nofun⟩
  | parallel h _ => exact ⟨h.name, nofun, nofun, nofun, nofun⟩
  | loop h _ =>
    refine ⟨h.name, nofun, nofun, fun l ss hl ↦ ?_, fun source hsource ↦ ?_⟩
    · cases hl
      exact h.maxRetries.one_le
    · cases hsource
      exact exists_parse_of_checkCondition h.readable
  | perTask h _ => exact ⟨h.name, nofun, fun p ss hp ↦ by cases hp; exact h.source, nofun, nofun⟩

end Step.Valid

theorem limits_ne_zero_of_checkSafety {s : Safety} (h : Definition.checkSafety s = .ok ()) :
    s.maxLoopRetries ≠ some 0 ∧ s.maxStepTimeoutMs ≠ some 0 ∧
      s.maxWorkflowDurationMs ≠ some 0 := by
  unfold Definition.checkSafety at h
  split at h
  · cases h
  · split at h
    · cases h
    · split at h
      · cases h
      · exact ⟨‹_›, ‹_›, ‹_›⟩

namespace Run

/-- **Well-formedness.** Let a definition be read from a document. It has a name, a version and at
least one phase, its phases have different names, and no limit of it is zero. Every step in it, at
every depth, is well-formed, so each condition can be read. In every run of it, fresh or resumed,
the phases that are left at a position are its own, and whatever is called within a call is a step
in it; so no condition is ever evaluated that cannot be read. -/
theorem wellFormed_of_validate {v : Value} {d : Definition} (h : Definition.validate v = .ok d) :
    Text.isBlankText d.name = false ∧ Text.isBlankText d.version = false ∧ d.phases ≠ [] ∧
    (d.phases.map Step.name).Nodup ∧
    (∀ s, d.safety = some s → s.maxLoopRetries ≠ some 0 ∧ s.maxStepTimeoutMs ≠ some 0 ∧
      s.maxWorkflowDurationMs ≠ some 0) ∧
    (∀ phase ∈ d.phases, ∀ s : Step, s.Inside phase → s.WellFormed) ∧
    ∀ {ω : Type} (w : World ω) (l : Launch) (x : ω) (env : Environment) (q : Position ω),
      l.workflow = d → l.Visits w x env q →
        (∀ phase ∈ q.left, ∀ s : Step, s.Inside phase → s.WellFormed) ∧
        ∀ phase rest a c y, Calls env w q phase rest a c y →
          ∀ b : Account, b.Within a → b.step.Inside phase ∧ b.step.WellFormed := by
  have hvalid : d.Valid id := Definition.valid_of_validate Value.rearranges_id rfl h
  have hsteps : ∀ phase ∈ d.phases, ∀ s : Step, s.Inside phase → s.WellFormed :=
    fun phase hphase s hs ↦ ((hvalid.steps phase hphase).of_inside hs).wellFormed
  refine ⟨hvalid.name, hvalid.version, hvalid.nonempty, hvalid.distinct,
    fun s hs ↦ limits_ne_zero_of_checkSafety (hvalid.limits s hs), hsteps, ?_⟩
  rintro ω w l x env q rfl hq
  have hleft : ∀ phase ∈ q.left, ∀ s : Step, s.Inside phase → s.WellFormed :=
    fun phase hphase ↦ hsteps phase (hq.left_suffix.subset hphase)
  refine ⟨hleft, fun phase rest a c y hcalls b hb ↦ ?_⟩
  have hinside := hcalls.step_inside hb
  exact ⟨hinside, hsteps _ (hq.mem_phases hcalls) _ hinside⟩

/-! ## A condition deep inside -/

/-- A workflow with a loop in an iteration, and in the loop an agent step with a condition. -/
def nestedDocument : Value :=
  .object [("name", .string "nested"),
    ("phases", .array [
      .object [("name", .string "each"), ("source", .string "tasks"),
        ("steps", .array [
          .object [("condition", .string "open"), ("maxRetries", .ofNat 2),
            ("name", .string "polish"),
            ("steps", .array [
              .object [("agent", .string "reviewer"), ("condition", .string "ready == true"),
                ("name", .string "review")]]),
            ("type", .string "loop")]]),
        ("type", .string "per-task")]]),
    ("version", .string "1")]

def nestedReview : AgentStep where
  name := "review"
  agent := some "reviewer"
  condition := some "ready == true"

def nestedLoop : Step := .loop ⟨"polish", "open", 2, .escalate⟩ [.agent nestedReview]

def nested : Definition where
  name := "nested"
  version := "1"
  defaults := {}
  safety := none
  phases := [.perTask ⟨"each", "tasks"⟩ [nestedLoop]]

theorem wellFormed_nested :
    Definition.validate nestedDocument = .ok nested ∧
    (∃ c, Condition.parse "ready == true" = .ok c ∧
      ∀ vars, Condition.evaluate "ready == true" vars = c.holdsIn vars) ∧
    ∃ c, Condition.parse "open" = .ok c ∧
      ∀ vars, Condition.evaluate "open" vars = c.holdsIn vars := by
  have hd : Definition.validate nestedDocument = .ok nested := by decide +kernel
  obtain ⟨-, -, -, -, -, hsteps, -⟩ := wellFormed_of_validate hd
  have hloop : nestedLoop.Inside (.perTask ⟨"each", "tasks"⟩ [nestedLoop]) :=
    Step.inside_of_mem List.mem_cons_self
  have hreview : (Step.agent nestedReview).Inside nestedLoop :=
    Step.inside_of_mem List.mem_cons_self
  have hinside := hsteps _ List.mem_cons_self
  exact ⟨hd, (hinside _ (hreview.trans hloop)).condition _ rfl,
    (hinside _ hloop).condition _ rfl⟩

end Run

end Workflow
