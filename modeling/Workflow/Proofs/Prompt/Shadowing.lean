import Mathlib.Data.List.TakeWhile
import Workflow.Proofs.Json.Members
import Workflow.Prompt.Compose

/-!
# Facts come first

A template looks a path up among the facts if the part before its first dot names one, whatever the
variables are, and only otherwise in the context. So variables below the name of a fact make no
difference to any request, also those whose names are dotted themselves: `compose_eq_of_agree`.
-/

namespace Workflow

open Json (Value Members)

/-! ## Heads of paths -/

theorem Text.exists_splitOn_eq (sep : Char) (s : List Char) :
    ∃ rest, splitOn sep s = s.takeWhile (· != sep) :: rest := by
  induction s with
  | nil => exact ⟨[], rfl⟩
  | cons c s ih =>
    rw [splitOn]
    by_cases hc : c = sep
    · exact ⟨splitOn sep s, by simp [hc]⟩
    · obtain ⟨rest, hrest⟩ := ih
      exact ⟨rest, by simp [hc, hrest]⟩

namespace Prompt

theorem exists_segments_eq (path : String) : ∃ rest, Text.segments path = head path :: rest := by
  obtain ⟨rest, hrest⟩ := Text.exists_splitOn_eq '.' path.toList
  exact ⟨rest.map String.ofList, by rw [Text.segments, hrest, List.map_cons, head]⟩

theorem head_head (path : String) : head (head path) = head path := by
  rw [head, head, String.toList_ofList, List.takeWhile_idem]

end Prompt

/-- What a path leads to depends on two variables: that named by the whole path, and that named by
its head. -/
theorem Context.get?_congr {c d : Context} {path : String}
    (hwhole : d.vars.get? path = c.vars.get? path)
    (hhead : d.vars.get? (Prompt.head path) = c.vars.get? (Prompt.head path)) :
    d.get? path = c.get? path := by
  obtain ⟨rest, hsegments⟩ := Prompt.exists_segments_eq path
  rw [get?, get?, hwhole, hsegments]
  dsimp only
  rw [hhead]

namespace Prompt

variable {run : RunFacts} {c d : Context}

/-! ## The facts that are there -/

/-- The names of the facts that templates see in a context: that of the session always, those of the
other facts about a run as far as the run has them, and those of the task if one is at hand. -/
inductive Present (run : RunFacts) (c : Context) : String → Prop where
  | sessionId : Present run c "sessionId"
  | spec (h : run.spec.isSome) : Present run c "spec"
  | worktree (h : run.worktree.isSome) : Present run c "worktree"
  | branch (h : run.branch.isSome) : Present run c "branch"
  | task {name : String} (h : c.task.isSome)
      (hname : name ∈ ["task", "taskId", "taskIndex", "taskCount"]) : Present run c name

theorem mem_names_optional {α : Type} {o : Option α} {f : α → Value} {n name : String} :
    name ∈ (o.map fun a ↦ (n, f a)).toList.map (·.1) ↔ o.isSome ∧ name = n := by
  cases o with
  | none => simp
  | some a => simp

theorem isSome_get?_facts_iff {name : String} :
    ((facts run c).get? name).isSome ↔ Present run c name := by
  rw [Members.isSome_get?_iff, facts]
  simp only [List.map_append, List.mem_append, mem_names_optional, List.map_cons, List.map_nil,
    List.mem_singleton]
  constructor
  · rintro ((((⟨h, rfl⟩ | ⟨h, rfl⟩) | rfl) | ⟨h, rfl⟩) | h)
    · exact .spec h
    · exact .worktree h
    · exact .sessionId
    · exact .branch h
    · cases htask : c.task with
      | none =>
        rw [htask] at h
        cases h
      | some t =>
        rw [htask] at h
        exact .task (by rw [htask]; rfl) h
  · rintro (_ | h | h | h | ⟨h, hname⟩)
    · exact .inl (.inl (.inr rfl))
    · exact .inl (.inl (.inl (.inl ⟨h, rfl⟩)))
    · exact .inl (.inl (.inl (.inr ⟨h, rfl⟩)))
    · exact .inl (.inr ⟨h, rfl⟩)
    · obtain ⟨t, htask⟩ := Option.isSome_iff_exists.1 h
      rw [htask]
      exact .inr hname

/-! ## Scopes that find the same -/

namespace Scope

variable {s s' : Scope}

/-- Two scopes with the same facts find the same if their variables agree wherever no fact comes
first. -/
theorem lookup_congr (hfacts : s'.facts = s.facts)
    (hvars : ∀ key, s.facts.get? (head key) = none →
      s'.context.vars.get? key = s.context.vars.get? key) : s'.lookup = s.lookup := by
  funext path
  rw [lookup, lookup, hfacts]
  cases hfact : s.facts.get? (head path) with
  | some fact => rfl
  | none =>
    refine Context.get?_congr (hvars path hfact) (hvars (head path) ?_)
    rw [head_head, hfact]

theorem render_eq_of_lookup (h : s'.lookup = s.lookup) (template : String) :
    s'.render template = s.render template := by
  rw [render, render, h]

mutual

theorem renderValue_eq_of_lookup (h : s'.lookup = s.lookup) :
    (v : Value) → s'.renderValue v = s.renderValue v
  | .string t => by rw [renderValue, renderValue, render_eq_of_lookup h]
  | .array xs => by rw [renderValue, renderValue, renderItems_eq_of_lookup h xs]
  | .object ms => by rw [renderValue, renderValue, renderMembers_eq_of_lookup h ms]
  | .null | .bool _ | .number _ => rfl

theorem renderItems_eq_of_lookup (h : s'.lookup = s.lookup) :
    (xs : List Value) → s'.renderItems xs = s.renderItems xs
  | [] => rfl
  | x :: xs => by
    rw [renderItems, renderItems, renderValue_eq_of_lookup h x, renderItems_eq_of_lookup h xs]

theorem renderMembers_eq_of_lookup (h : s'.lookup = s.lookup) :
    (ms : List (String × Value)) → s'.renderMembers ms = s.renderMembers ms
  | [] => rfl
  | (k, x) :: ms => by
    rw [renderMembers, renderMembers, renderValue_eq_of_lookup h x,
      renderMembers_eq_of_lookup h ms]

end

end Scope

/-! ## Requests -/

theorem renderInput_eq_of_lookup {s s' : Scope} (h : s'.lookup = s.lookup) (input : AgentInput) :
    renderInput s' input = renderInput s input := by
  cases input with
  | text t => rw [renderInput, renderInput, Scope.render_eq_of_lookup h]
  | structured ms => rw [renderInput, renderInput, Scope.renderValue_eq_of_lookup h]

theorem userPrompt_eq_of_lookup {s s' : Scope} (h : s'.lookup = s.lookup)
    (hinput : ∀ v, (s'.withInput v).lookup = (s.withInput v).lookup) (prompt : Option PromptText)
    (input : Option Value) : userPrompt s' prompt input = userPrompt s prompt input := by
  cases prompt with
  | none => cases input <;> rfl
  | some p =>
    cases input with
    | none => rw [userPrompt, userPrompt, Scope.render_eq_of_lookup h]
    | some v => rw [userPrompt, userPrompt, Scope.render_eq_of_lookup (hinput v)]

/-- **Facts come first.** Take two contexts with the same task at hand whose variables differ only
in names that begin, up to the first dot, with the name of a fact that is there; nothing is asked of
the rest of the contexts. Then every agent step makes the same request in both. -/
theorem compose_eq_of_agree (htask : d.task = c.task)
    (hvars : ∀ key, ¬Present run c (head key) → d.vars.get? key = c.vars.get? key)
    (step : AgentStep) (agent : Agent) (prompt : Option PromptText) (defaults : Defaults) :
    compose step agent prompt defaults run d = compose step agent prompt defaults run c := by
  have hfacts : (Scope.of run d).facts = (Scope.of run c).facts := by
    rw [Scope.of, Scope.of, facts, facts, htask]
  have hcontext : ∀ key, (Scope.of run c).facts.get? (head key) = none →
      d.vars.get? key = c.vars.get? key := by
    intro key hnone
    refine hvars key fun hpresent ↦ ?_
    have hsome := isSome_get?_facts_iff.2 hpresent
    rw [Scope.of] at hnone
    rw [hnone] at hsome
    cases hsome
  have hlookup := Scope.lookup_congr hfacts hcontext
  have hinput : ∀ v,
      ((Scope.of run d).withInput v).lookup = ((Scope.of run c).withInput v).lookup := by
    intro v
    refine Scope.lookup_congr (by rw [Scope.withInput, Scope.withInput, hfacts]) fun key hnone ↦ ?_
    -- the input only adds a fact
    rw [Scope.withInput, Members.get?_insert] at hnone
    split at hnone
    · cases hnone
    · exact hcontext key hnone
  have hrendered : step.input.map (renderInput (Scope.of run d)) =
      step.input.map (renderInput (Scope.of run c)) :=
    congrArg step.input.map (funext (renderInput_eq_of_lookup hlookup))
  rw [compose, compose, hrendered, userPrompt_eq_of_lookup hlookup hinput]

/-! ## Variables in the way of a task -/

def letterRun : RunFacts where
  spec := some ⟨"specs/june.md", "june", "Write to June."⟩
  sessionId := "s1"

def plainContext : Context where
  vars := [("notes", .string "old")]
  task := some ⟨"t1", 0, 2, .object [("title", .string "Greet")]⟩

/-- The same context after steps have stored values under the names of facts, and below them. -/
def crowdedContext : Context :=
  { plainContext with
    vars := [("notes", .string "old"), ("sessionId", .ofNat 7), ("spec.name", .string "july"),
      ("task", .object [("title", .string "Part")]), ("task.title", .string "Wave")]
    completedPhases := ["plan"] }

def greeting : AgentStep :=
  { name := "greet", input := some (.structured [("spec", .string "\x7b\x7b spec.name \x7d\x7d")]) }

/-- A prompt that shows facts and a variable. -/
def greetingPrompt : PromptText where
  name := "greet"
  body := "\x7b\x7b task.title \x7d\x7d (\x7b\x7bsessionId\x7d\x7d): \x7b\x7b notes \x7d\x7d, " ++
    "\x7b\x7b input.spec \x7d\x7d"

theorem compose_crowded :
    (∀ key, ¬Present letterRun plainContext (head key) →
      crowdedContext.vars.get? key = plainContext.vars.get? key) ∧
    ∀ agent, compose greeting agent (some greetingPrompt) {} letterRun crowdedContext =
        compose greeting agent (some greetingPrompt) {} letterRun plainContext ∧
      (compose greeting agent (some greetingPrompt) {} letterRun crowdedContext).prompt =
        "Greet (s1): old, june" := by
  have hpresent : ∀ name ∈ ["sessionId", "spec.name", "task", "task.title"],
      Present letterRun plainContext (head name) := by
    have hspec : head "spec.name" = "spec" := by decide
    have htitle : head "task.title" = "task" := by decide
    intro name hname
    simp only [List.mem_cons, List.not_mem_nil, or_false] at hname
    rcases hname with rfl | rfl | rfl | rfl
    · exact .sessionId
    · rw [hspec]
      exact .spec rfl
    · exact .task rfl (by decide)
    · rw [htitle]
      exact .task rfl (by decide)
  have hvars : ∀ key, ¬Present letterRun plainContext (head key) →
      crowdedContext.vars.get? key = plainContext.vars.get? key := by
    intro key hkey
    have hne : ∀ name ∈ ["sessionId", "spec.name", "task", "task.title"], name ≠ key := by
      rintro name hname rfl
      exact hkey (hpresent name hname)
    simp only [List.forall_mem_cons] at hne
    simp [crowdedContext, plainContext, Members.get?_cons, hne]
  have htask : crowdedContext.task = plainContext.task := rfl
  have hprompt : userPrompt (Scope.of letterRun crowdedContext) (some greetingPrompt)
      (greeting.input.map (renderInput (Scope.of letterRun crowdedContext))) =
        "Greet (s1): old, june" := by
    decide +kernel
  exact ⟨hvars, fun agent ↦ ⟨compose_eq_of_agree htask hvars greeting agent _ _, hprompt⟩⟩

end Prompt

end Workflow
