import Workflow.Proofs.Definition.Fields
import Workflow.Proofs.Definition.Phases
import Workflow.Proofs.Json.Normalize
import Workflow.Proofs.Json.NumberText

/-!
# Definitions that were read are valid

What comes out of a document has passed the checks of all its parts, and `Step.Valid` and
`Definition.Valid` say what that is without the document. A step keeps one thing of the document as
it stood there, the structured input of an agent; so validity is stated for a rearrangement of
values that is to leave such inputs alone.
-/

namespace Workflow

open Json (Value Members)
open Validate

/-! ## Steps -/

/-- An agent step that passes its checks, with an input that a rearrangement leaves alone. -/
structure AgentStep.Valid (f : Value → Value) (s : AgentStep) : Prop where
  name : Text.isBlankText s.name = false
  directed : s.agent.isSome = true ∨ s.prompt.isSome = true
  condition : ∀ c, s.condition = some c → checkCondition c = .ok ()
  output : ∀ key, s.output = some key → checkKey key = .ok ()
  input : ∀ i, s.input = some i → f i.toValue = i.toValue

structure CodeStep.Valid (s : CodeStep) : Prop where
  name : Text.isBlankText s.name = false
  handler : Text.isBlankText s.handler = false
  input : Nonblank s.input
  output : OutputAllowed s.output

structure Group.Valid (g : Group) : Prop where
  name : Text.isBlankText g.name = false
  output : OutputAllowed g.output

structure Loop.Valid (l : Loop) : Prop where
  name : Text.isBlankText l.name = false
  condition : Text.isBlankText l.condition = false
  readable : checkCondition l.condition = .ok ()
  maxRetries : RetriesAllowed l.maxRetries

structure PerTask.Valid (p : PerTask) : Prop where
  name : Text.isBlankText p.name = false
  source : Text.isBlankText p.source = false

/-- A step that passes its checks, with all steps inside it. -/
inductive Step.Valid (f : Value → Value) : Step → Prop where
  | agent {s : AgentStep} : s.Valid f → Valid f (.agent s)
  | code {s : CodeStep} : s.Valid → Valid f (.code s)
  | parallel {g : Group} {ss : List Step} :
      g.Valid → (∀ s ∈ ss, Valid f s) → Valid f (.parallel g ss)
  | loop {l : Loop} {ss : List Step} :
      l.Valid → (∀ s ∈ ss, Valid f s) → Valid f (.loop l ss)
  | perTask {p : PerTask} {ss : List Step} :
      p.Valid → (∀ s ∈ ss, Valid f s) → Valid f (.perTask p ss)

variable {f : Value → Value}

theorem eq_toValue_of_decodeInput {v : Value} {i : AgentInput} (h : decodeInput v = .ok i) :
    v = i.toValue := by
  cases v with
  | string | object =>
    cases h
    rfl
  | _ => cases h

theorem AgentStep.valid_of_given (hf : Value.Rearranges f) {ms : Members Value}
    (hms : f (.object ms) = .object ms) {name : String} (hname : requiredText ms "name" = .ok name)
    {s : AgentStep} (h : agentStep ms = .ok (.agent s)) : s.Valid f := by
  obtain ⟨hdirected, a, ha, hcondition, houtput, heq⟩ := agentStep_eq_ok.1 h
  obtain rfl : s = a := Step.agent.inj heq
  have hgiven : s.Given ms := (decode_eq_ok_iff.1 ha).2
  obtain ⟨hget, hblank⟩ := requiredText_eq_ok.1 hname
  refine ⟨?_, ?_, hcondition, houtput, fun i hi ↦ ?_⟩
  · have hread := hgiven.name
    rw [Json.Record.get_eq_read hget] at hread
    cases hread
    exact hblank
  · rcases (Bool.or_eq_true _ _).mp hdirected with hagent | hprompt
    · obtain ⟨v, hv, hnull⟩ := isGiven_eq_true.1 hagent
      exact .inl (Json.Record.isSome_of_get_optional hgiven.agent hv hnull)
    · obtain ⟨v, hv, hnull⟩ := isGiven_eq_true.1 hprompt
      exact .inr (Json.Record.isSome_of_get_optional hgiven.prompt hv hnull)
  · have hinput := hgiven.input
    rw [hi] at hinput
    obtain ⟨v, hv, hread⟩ := Json.Record.exists_of_get_optional hinput
    rw [← eq_toValue_of_decodeInput hread]
    exact hf.inside hms _ (Members.mem_of_get? hv)

namespace Step

mutual

theorem valid_of_validate (hf : Value.Rearranges f) :
    (v : Value) → ∀ {s : Step}, f v = v → validate v = .ok s → s.Valid f
  | .object ms, s, hv, h => by
    have hinside := hf.inside hv
    rw [validate] at h
    obtain ⟨name, hname, h⟩ := exists_of_bind_eq_ok h
    have hblank := (requiredText_eq_ok.1 hname).2
    obtain ⟨kind, -, h⟩ := exists_of_bind_eq_ok h
    cases kind with
    | agent =>
      obtain ⟨-, a, -, -, -, rfl⟩ := agentStep_eq_ok.1 h
      exact .agent (AgentStep.valid_of_given hf hv hname h)
    | code =>
      obtain ⟨handler, hhandler, h⟩ := exists_of_bind_eq_ok h
      obtain ⟨input, hinput, h⟩ := exists_of_bind_eq_ok h
      obtain ⟨output, houtput, h⟩ := exists_of_bind_eq_ok h
      cases h
      exact .code ⟨hblank, (requiredText_eq_ok.1 hhandler).2, nonblank_of_optionalText hinput,
        outputAllowed_of_outputField houtput⟩
    | parallel =>
      obtain ⟨steps, hsteps, h⟩ := exists_of_bind_eq_ok h
      obtain ⟨output, houtput, h⟩ := exists_of_bind_eq_ok h
      cases h
      exact .parallel ⟨hblank, outputAllowed_of_outputField houtput⟩
        (valid_of_validateChildren hf ms hinside hsteps)
    | loop =>
      obtain ⟨condition, hcondition, h⟩ := exists_of_bind_eq_ok h
      obtain ⟨⟨⟩, hcheck, h⟩ := exists_of_bind_eq_ok h
      obtain ⟨maxRetries, hretries, h⟩ := exists_of_bind_eq_ok h
      obtain ⟨onExhausted, -, h⟩ := exists_of_bind_eq_ok h
      obtain ⟨steps, hsteps, h⟩ := exists_of_bind_eq_ok h
      cases h
      exact .loop ⟨hblank, (requiredText_eq_ok.1 hcondition).2, hcheck,
        retriesAllowed_of_retriesField hretries⟩ (valid_of_validateChildren hf ms hinside hsteps)
    | perTask =>
      obtain ⟨source, hsource, h⟩ := exists_of_bind_eq_ok h
      obtain ⟨steps, hsteps, h⟩ := exists_of_bind_eq_ok h
      cases h
      exact .perTask ⟨hblank, (requiredText_eq_ok.1 hsource).2⟩
        (valid_of_validateChildren hf ms hinside hsteps)
  | .null, _, _, h | .bool _, _, _, h | .number _, _, _, h | .string _, _, _, h
  | .array _, _, _, h => by
    rw [validate] at h
    · cases h
    · exact nofun

theorem valid_of_validateChildren (hf : Value.Rearranges f) :
    (ms : List (String × Value)) → ∀ {ss : List Step}, (∀ m ∈ ms, f m.2 = m.2) →
      validateChildren ms = .ok ss → ∀ s ∈ ss, s.Valid f
  | [], _, _, h => by
    rw [validateChildren] at h
    cases h
  | (name, v) :: ms, ss, hms, h => by
    obtain ⟨hv, hms⟩ := List.forall_mem_cons.1 hms
    rw [validateChildren.eq_def] at h
    dsimp only at h
    split at h
    · cases v with
      | array items => exact valid_of_validateItems hf items (hf.items hv) h
      | _ => cases h
    · exact valid_of_validateChildren hf ms hms h

theorem valid_of_validateItems (hf : Value.Rearranges f) :
    (vs : List Value) → ∀ {list : String} {i : Nat} {ss : List Step}, (∀ x ∈ vs, f x = x) →
      validateItems list i vs = .ok ss → ∀ s ∈ ss, s.Valid f
  | [], _, _, _, _, h => by
    rw [validateItems] at h
    cases h
    simp
  | v :: vs, _, _, ss, hvs, h => by
    obtain ⟨hv, hvs⟩ := List.forall_mem_cons.1 hvs
    rw [validateItems] at h
    split at h
    · cases h
    · next s hs =>
      obtain ⟨ss', hss', h⟩ := exists_of_bind_eq_ok h
      cases h
      exact List.forall_mem_cons.2
        ⟨valid_of_validate hf v hv hs, valid_of_validateItems hf vs hvs hss'⟩

end

end Step

/-! ## Limits -/

namespace Safety

/-- Limits whose numbers fit the words that they are read into. -/
structure Fits (s : Safety) : Prop where
  maxLoopRetries : ∀ n, s.maxLoopRetries = some n → Bits.fitsUnsigned 32 n = true
  maxStepTimeoutMs : ∀ n, s.maxStepTimeoutMs = some n → Bits.fitsUnsigned 64 n = true
  maxWorkflowDurationMs : ∀ n, s.maxWorkflowDurationMs = some n → Bits.fitsUnsigned 64 n = true

theorem fits_of_natural {bits n : Nat} {type : String} {v : Value}
    (h : Json.Decoder.natural bits type v = .ok n) : Bits.fitsUnsigned bits n = true := by
  unfold Json.Decoder.natural at h
  split at h
  · split at h
    · next i hi =>
      cases h
      have hnonneg : (0 : Int) ≤ i := by
        rw [Bits.fitsUnsigned, Bool.and_eq_true] at hi
        exact of_decide_eq_true hi.1
      rwa [Int.toNat_of_nonneg hnonneg]
    · cases h
  · cases h

theorem fits_of_get {ms : Members Value} {name type : String} {bits : Nat} {o : Option Nat}
    (h : Json.Record.get ms (.optional name (.natural bits type)) = .ok o) :
    ∀ n, o = some n → Bits.fitsUnsigned bits n = true := by
  rintro n rfl
  obtain ⟨v, -, hv⟩ := Json.Record.exists_of_get_optional h
  exact fits_of_natural hv

theorem Given.fits {ms : Members Value} {s : Safety} (h : s.Given ms) : s.Fits :=
  ⟨fits_of_get h.maxLoopRetries, fits_of_get h.maxStepTimeoutMs,
    fits_of_get h.maxWorkflowDurationMs⟩

end Safety

/-! ## Definitions -/

namespace Definition

/-- A definition that passes its checks, with all steps inside it. -/
structure Valid (f : Value → Value) (d : Definition) : Prop where
  name : Text.isBlankText d.name = false
  version : Text.isBlankText d.version = false
  fits : ∀ s, d.safety = some s → s.Fits
  limits : ∀ s, d.safety = some s → checkSafety s = .ok ()
  nonempty : d.phases ≠ []
  distinct : (d.phases.map Step.name).Nodup
  steps : ∀ s ∈ d.phases, s.Valid f

theorem isBlankText_of_versionField {ms : Members Value} {version : String}
    (h : versionField ms = .ok version) : Text.isBlankText version = false := by
  unfold versionField at h
  split at h
  · split at h
    · cases h
    · next hblank =>
      cases h
      exact Bool.eq_false_iff.2 hblank
  · cases h
    exact Json.Number.isBlankText_text _
  · cases h
  · cases h

theorem of_safetyField {ms : Members Value} {o : Option Safety} (h : safetyField ms = .ok o) :
    ∀ s, o = some s → s.Fits ∧ checkSafety s = .ok () := by
  rintro s rfl
  unfold safetyField at h
  split at h
  · cases h
  · cases h
  · obtain ⟨s', hs, h⟩ := exists_of_bind_eq_ok h
    obtain ⟨⟨⟩, hcheck, h⟩ := exists_of_bind_eq_ok h
    cases h
    obtain ⟨ms, -, hgiven⟩ := Safety.decode_iff.1 (eq_ok_of_mapError hs)
    exact ⟨hgiven.fits, hcheck⟩

theorem valid_of_validatePhases (hf : Value.Rearranges f) {vs : List Value}
    (hvs : ∀ x ∈ vs, f x = x) {i : Nat} {seen : List String} {ss : List Step}
    (h : validatePhases i seen vs = .ok ss) : ∀ s ∈ ss, s.Valid f := by
  induction vs generalizing i seen ss with
  | nil =>
    cases h
    simp
  | cons v vs ih =>
    obtain ⟨hv, hvs⟩ := List.forall_mem_cons.1 hvs
    rw [validatePhases] at h
    split at h
    · cases h
    · next s hs =>
      split at h
      · cases h
      · obtain ⟨ss', hss', h⟩ := exists_of_bind_eq_ok h
        cases h
        exact List.forall_mem_cons.2 ⟨Step.valid_of_validate hf v hv hs, ih hvs hss'⟩

theorem ne_nil_of_validatePhases {vs : List Value} (hvs : vs ≠ []) {i : Nat} {seen : List String}
    {ss : List Step} (h : validatePhases i seen vs = .ok ss) : ss ≠ [] := by
  cases vs with
  | nil => exact absurd rfl hvs
  | cons v vs =>
    rw [validatePhases] at h
    split at h
    · cases h
    · split at h
      · cases h
      · obtain ⟨ss', -, h⟩ := exists_of_bind_eq_ok h
        cases h
        exact List.cons_ne_nil _ _

/-- **Validity.** A definition that was read from a document passes its checks. -/
theorem valid_of_validate (hf : Value.Rearranges f) {v : Value} (hv : f v = v) {d : Definition}
    (h : validate v = .ok d) : d.Valid f := by
  have hdistinct := nodup_of_validate h
  unfold validate at h
  split at h
  · next ms =>
    obtain ⟨name, hname, h⟩ := exists_of_bind_eq_ok h
    obtain ⟨version, hversion, h⟩ := exists_of_bind_eq_ok h
    obtain ⟨defaults, -, h⟩ := exists_of_bind_eq_ok h
    obtain ⟨safety, hsafety, h⟩ := exists_of_bind_eq_ok h
    obtain ⟨phases, hphases, h⟩ := exists_of_bind_eq_ok h
    cases h
    have hlimits := of_safetyField hsafety
    have hphases' : phases ≠ [] ∧ ∀ s ∈ phases, s.Valid f := by
      unfold phasesField at hphases
      split at hphases
      · cases hphases
      · next vs hvs hget =>
        have hitems := hf.items (hf.inside hv _ (Members.mem_of_get? hget))
        exact ⟨ne_nil_of_validatePhases hvs hphases, valid_of_validatePhases hf hitems hphases⟩
      · cases hphases
    exact {
      name := (requiredText_eq_ok.1 (eq_ok_of_mapError hname)).2
      version := isBlankText_of_versionField hversion
      fits := fun s hs ↦ (hlimits s hs).1
      limits := fun s hs ↦ (hlimits s hs).2
      nonempty := hphases'.1
      distinct := hdistinct
      steps := hphases'.2 }
  · cases h

end Definition

end Workflow
