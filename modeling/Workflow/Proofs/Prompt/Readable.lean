import Workflow.Proofs.Run.WellFormed
import Workflow.Prompt.Scope

/-!
# Variables that templates can read

A fact about the run hides every variable whose name starts with the name of the fact. So a variable
can be read in all scopes if and only if its name does not start with a reserved name, and
`readable_iff` says so in both directions: each reserved name stands for a fact in some scope.

Validation asks this of the variables that steps declare. An agent step that declares none writes to
a variable of its own name, of which nothing is asked: `readable_outputKey_of_validate` tells the
steps whose results can be read back from those whose results are lost to templates.
-/

namespace Workflow

open Json (Value Members)

namespace Prompt

/-- The scopes that the templates of a step are rendered over in a context: the facts of some run,
and in the body of a prompt also the input of the step. -/
inductive Scope.Over (c : Context) : Scope → Prop where
  | of (run : RunFacts) : Over c (Scope.of run c)
  | withInput (run : RunFacts) (input : Value) : Over c ((Scope.of run c).withInput input)

/-- A variable is found in every scope of every context that holds it. -/
def Readable (key : String) : Prop :=
  ∀ (c : Context) (s : Scope) (v : Value), s.Over c → c.vars.get? key = some v →
    s.lookup key = some v

variable {c : Context} {s : Scope} {key : String}

/-! ## Names of facts -/

theorem fst_mem_reservedNames {run : RunFacts} {m : String × Value} (hm : m ∈ facts run c) :
    m.1 ∈ reservedNames := by
  simp only [facts, List.mem_append, Option.mem_toList, Option.map_eq_some_iff,
    List.mem_singleton] at hm
  rcases hm with (((⟨_, _, rfl⟩ | ⟨_, _, rfl⟩) | rfl) | ⟨_, _, rfl⟩) | htask
  · simp [reservedNames]
  · simp [reservedNames]
  · simp [reservedNames]
  · simp [reservedNames]
  · cases ht : c.task with
    | none =>
      rw [ht] at htask
      cases htask
    | some t =>
      rw [ht] at htask
      simp only [List.mem_cons, List.not_mem_nil, or_false] at htask
      rcases htask with rfl | rfl | rfl | rfl <;> simp [reservedNames]

theorem Scope.Over.mem_reservedNames (h : s.Over c) {name : String} {fact : Value}
    (hfact : s.facts.get? name = some fact) : name ∈ reservedNames := by
  cases h with
  | of run => exact fst_mem_reservedNames (Members.mem_of_get? hfact)
  | withInput run input =>
    have hget := Members.get?_insert name "input" input (Prompt.facts run c)
    by_cases hname : "input" = name
    · rw [← hname]
      decide
    · rw [if_neg hname] at hget
      exact fst_mem_reservedNames (Members.mem_of_get? (hget.symm.trans hfact))

theorem Scope.Over.context_eq (h : s.Over c) : s.context = c := by
  cases h with
  | of run => rfl
  | withInput run input => rfl

/-! ## What can be read -/

theorem Scope.Over.lookup_of_free (h : s.Over c) (hfree : isReserved key = false) :
    s.lookup key = c.get? key := by
  have hnone : s.facts.get? (head key) = none := by
    cases hfact : s.facts.get? (head key) with
    | none => rfl
    | some fact =>
      have hmem := h.mem_reservedNames hfact
      rw [isReserved, List.contains_iff_mem.2 hmem] at hfree
      cases hfree
  rw [Scope.lookup, hnone, h.context_eq]

/-- A context with a task at hand and one variable. -/
def holding (key : String) (v : Value) : Context where
  vars := [(key, v)]
  task := some ⟨"", 0, 0, .null⟩

/-- A scope of that context in which every reserved name stands for a fact. -/
def allFacts (key : String) (v : Value) : Scope :=
  (Scope.of ⟨some ⟨"", "", ""⟩, some "", "", some ""⟩ (holding key v)).withInput .null

theorem exists_fact {name : String} (h : name ∈ reservedNames) (key : String) :
    ∃ fact, ∀ v, (allFacts key v).facts.get? name = some fact := by
  simp only [reservedNames, List.mem_cons, List.not_mem_nil, or_false] at h
  rcases h with rfl | rfl | rfl | rfl | rfl | rfl | rfl | rfl | rfl <;> exact ⟨_, fun _ ↦ rfl⟩

/-- **Hidden variables.** The variables that can be read are those whose names do not start with the
name of a fact. -/
theorem readable_iff : Readable key ↔ isReserved key = false := by
  constructor
  · intro hread
    refine Bool.eq_false_iff.2 fun hreserved ↦ ?_
    obtain ⟨fact, hfact⟩ := exists_fact (List.contains_iff_mem.1 hreserved) key
    -- what a fact hides is not looked at, so two values under the name make no difference
    have hlookup : ∀ v, fact.descend (Text.segments key).tail = some v := by
      intro v
      have hv : (holding key v).vars.get? key = some v := by
        rw [holding, Members.get?_cons, if_pos rfl]
      rw [← Scope.lookup_hidden (hfact v)]
      exact hread (holding key v) (allFacts key v) v (.withInput _ _) hv
    have hsame := (hlookup .null).symm.trans (hlookup (.bool true))
    cases hsame
  · intro hfree c s v hs hv
    rw [hs.lookup_of_free hfree, Context.get?, hv]

end Prompt

/-! ## What steps write -/

open Validate

theorem isReserved_of_checkKey {key : String} (h : checkKey key = .ok ()) :
    Prompt.isReserved key = false := by
  rw [checkKey] at h
  by_cases hreserved : Prompt.isReserved key = true
  · rw [if_pos hreserved] at h
    cases h
  · exact Bool.eq_false_iff.2 hreserved

/-- An agent step that declares no variable and whose own name, up to its first dot, is that of a
fact. -/
def Step.NamedAsFact (s : Step) : Prop :=
  ∃ a, s = .agent a ∧ a.output = none ∧ Prompt.isReserved a.name = true

theorem Step.Valid.readable_iff {f : Value → Value} {s : Step} (h : s.Valid f) {key : String}
    (hkey : s.outputKey = some key) : Prompt.Readable key ↔ ¬s.NamedAsFact := by
  rw [Prompt.readable_iff]
  cases h with
  | @agent a ha =>
    have heq : a.output.getD a.name = key := Option.some.inj hkey
    cases hdeclared : a.output with
    | none =>
      rw [hdeclared, Option.getD_none] at heq
      rw [← heq, ← Bool.not_eq_true, not_iff_not]
      constructor
      · intro hreserved
        exact ⟨a, rfl, hdeclared, hreserved⟩
      · rintro ⟨b, hb, -, hreserved⟩
        cases hb
        exact hreserved
    | some declared =>
      rw [hdeclared, Option.getD_some] at heq
      have hfree := isReserved_of_checkKey (ha.output declared hdeclared)
      refine iff_of_true (heq ▸ hfree) ?_
      rintro ⟨b, hb, hnone, -⟩
      cases hb
      rw [hdeclared] at hnone
      cases hnone
  | code hc =>
    refine iff_of_true (isReserved_of_checkKey (hc.output.readable key hkey)) ?_
    rintro ⟨b, hb, -⟩
    cases hb
  | parallel hg _ =>
    refine iff_of_true (isReserved_of_checkKey (hg.output.readable key hkey)) ?_
    rintro ⟨b, hb, -⟩
    cases hb
  | loop _ _ => cases hkey
  | perTask _ _ => cases hkey

/-- **Reading back.** Let a step, or a whole definition, be read from a document, and take any step
in it, at whatever depth, that writes a variable, declared or not. Templates find what is stored
there, whatever the run, the context and the task at hand, unless the step is an agent step that
declares no variable and is named like a fact. In that case some fact hides it. -/
theorem readable_outputKey_of_validate (v : Value) :
    (∀ s : Step, Step.validate v = .ok s → ∀ t : Step, t.Inside s →
      ∀ key, t.outputKey = some key → (Prompt.Readable key ↔ ¬t.NamedAsFact)) ∧
    ∀ d : Definition, Definition.validate v = .ok d → ∀ phase ∈ d.phases,
      ∀ t : Step, t.Inside phase →
        ∀ key, t.outputKey = some key → (Prompt.Readable key ↔ ¬t.NamedAsFact) := by
  constructor
  · intro s hs t ht key hkey
    have hvalid : s.Valid id := Step.valid_of_validate Json.Value.rearranges_id v rfl hs
    exact (hvalid.of_inside ht).readable_iff hkey
  · intro d hd phase hphase t ht key hkey
    have hvalid : d.Valid id := Definition.valid_of_validate Json.Value.rearranges_id rfl hd
    exact ((hvalid.steps phase hphase).of_inside ht).readable_iff hkey

/-! ## A step that is named like the session -/

/-- A workflow of one agent step, whose name is that of the session. -/
def sessionDocument : Value :=
  .object [("name", .string "keep"),
    ("phases", .array [.object [("agent", .string "keeper"), ("name", .string "sessionId")]]),
    ("version", .string "1")]

def sessionStep : Step := .agent { name := "sessionId", agent := some "keeper" }

def sessionContext : Context := { vars := [("sessionId", .ofNat 7)] }

/-- The workflow is accepted, and templates show the name of the session in place of the result of
the step. -/
theorem session_hides_result :
    Definition.validate sessionDocument =
      .ok { name := "keep", version := "1", defaults := {}, safety := none,
            phases := [sessionStep] } ∧
    sessionStep.outputKey = some "sessionId" ∧
    sessionContext.vars.get? "sessionId" = some (.ofNat 7) ∧
    (Prompt.Scope.of { sessionId := "s1" } sessionContext).lookup "sessionId" =
      some (.string "s1") :=
  ⟨by decide +kernel, rfl, rfl, by decide +kernel⟩

/-! ## Names that only look reserved -/

/-- A workflow with a group in an iteration. The names of its variables have reserved names in them,
but none starts with one. -/
def lookalikeDocument : Value :=
  .object [("name", .string "lookalike"),
    ("phases", .array [
      .object [("name", .string "each"), ("source", .string "tasks"),
        ("steps", .array [
          .object [("name", .string "both"), ("output", .string "specs.input"),
            ("steps", .array [
              .object [("agent", .string "a"), ("name", .string "review.task")],
              .object [("agent", .string "a"), ("name", .string "input"),
                ("output", .string "tasks")]]),
            ("type", .string "parallel")]]),
        ("type", .string "per-task")]]),
    ("version", .string "1")]

def lookalikeReview : Step := .agent { name := "review.task", agent := some "a" }

def lookalikeInput : Step := .agent { name := "input", agent := some "a", output := some "tasks" }

def lookalikeGroup : Step :=
  .parallel ⟨"both", some "specs.input"⟩ [lookalikeReview, lookalikeInput]

def lookalike : Definition where
  name := "lookalike"
  version := "1"
  defaults := {}
  safety := none
  phases := [.perTask ⟨"each", "tasks"⟩ [lookalikeGroup]]

theorem readable_lookalike :
    Definition.validate lookalikeDocument = .ok lookalike ∧
    Prompt.Readable "review.task" ∧ Prompt.Readable "tasks" ∧ Prompt.Readable "specs.input" := by
  have hd : Definition.validate lookalikeDocument = .ok lookalike := by decide +kernel
  have hgroup : lookalikeGroup.Inside (.perTask ⟨"each", "tasks"⟩ [lookalikeGroup]) :=
    Step.inside_of_mem List.mem_cons_self
  have hreview : lookalikeReview.Inside lookalikeGroup := Step.inside_of_mem List.mem_cons_self
  have hinput : lookalikeInput.Inside lookalikeGroup :=
    Step.inside_of_mem (List.mem_cons_of_mem _ List.mem_cons_self)
  have hread := (readable_outputKey_of_validate lookalikeDocument).2 lookalike hd _
    List.mem_cons_self
  refine ⟨hd, (hread _ (hreview.trans hgroup) _ rfl).2 ?_,
    (hread _ (hinput.trans hgroup) _ rfl).2 ?_, (hread _ hgroup _ rfl).2 ?_⟩
  · rintro ⟨a, ha, -, hreserved⟩
    cases ha
    revert hreserved
    decide
  · rintro ⟨a, ha, hnone, -⟩
    cases ha
    cases hnone
  · rintro ⟨a, ha, -⟩
    cases ha

end Workflow
