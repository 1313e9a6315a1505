import Workflow.Definition.Validate
import Workflow.Proofs.Json.Record

/-!
# What the fields of a document give

Each reader of a field is described by what it finds under the name of the field, and by nothing
else of the document. The same is said of agent steps, defaults and limits, which are read as
records: `AgentStep.Given`, `Defaults.Given` and `Safety.Given` list the look-ups that their fields
come from, and `readings` lists them for `Record.exists_fields_iff`.
-/

namespace Workflow

open Json (Value Members RecordField FieldRule Decoder)

namespace Validate

variable {ms : Members Value}

/-! ## Texts -/

theorem requiredText_eq_ok {field s : String} :
    requiredText ms field = .ok s ↔
      ms.get? field = some (.string s) ∧ Text.isBlankText s = false := by
  unfold requiredText
  cases hv : ms.get? field with
  | none => simp
  | some v =>
    cases v with
    | string t =>
      dsimp only
      split
      · next hb =>
        refine iff_of_false nofun fun h ↦ ?_
        obtain ⟨heq, hs⟩ := h
        cases heq
        rw [hb] at hs
        cases hs
      · next hb =>
        rw [Bool.not_eq_true] at hb
        constructor
        · intro h
          cases h
          exact ⟨rfl, hb⟩
        · rintro ⟨heq, -⟩
          cases heq
          rfl
    | _ => simp

def Nonblank (o : Option String) : Prop := ∀ s, o = some s → Text.isBlankText s = false

theorem nonblank_of_optionalText {field : String} {o : Option String}
    (h : optionalText ms field = .ok o) : Nonblank o := by
  unfold optionalText at h
  split at h
  · cases h
    exact nofun
  · cases h
    exact nofun
  · cases hs : requiredText ms field with
    | error e =>
      rw [hs] at h
      cases h
    | ok s =>
      rw [hs] at h
      cases h
      intro s' heq
      cases heq
      exact (requiredText_eq_ok.1 hs).2

theorem optionalText_eq_ok {field : String} {o : Option String}
    (hget : ms.get? field = o.map .string) (ho : Nonblank o) :
    optionalText ms field = .ok o := by
  unfold optionalText
  cases o with
  | none =>
    rw [hget]
    rfl
  | some s =>
    have hs : requiredText ms field = .ok s := requiredText_eq_ok.2 ⟨hget, ho s rfl⟩
    rw [hget]
    dsimp only [Option.map_some]
    rw [hs]
    rfl

/-- A variable that a step may write to, if it names one. -/
structure OutputAllowed (o : Option String) : Prop where
  nonblank : Nonblank o
  readable : ∀ key, o = some key → checkKey key = .ok ()

theorem outputAllowed_of_outputField {o : Option String} (h : outputField ms = .ok o) :
    OutputAllowed o := by
  unfold outputField at h
  obtain ⟨o', ho, h⟩ := exists_of_bind_eq_ok h
  cases o' with
  | none =>
    cases h
    exact ⟨nofun, nofun⟩
  | some key =>
    dsimp only at h
    obtain ⟨⟨⟩, hkey, h⟩ := exists_of_bind_eq_ok h
    cases h
    refine ⟨nonblank_of_optionalText ho, fun key' heq ↦ ?_⟩
    cases heq
    exact hkey

theorem outputField_eq_ok {o : Option String} (hget : ms.get? "output" = o.map .string)
    (ho : OutputAllowed o) : outputField ms = .ok o := by
  refine bind_eq_ok (optionalText_eq_ok hget ho.nonblank) ?_
  cases o with
  | none => rfl
  | some key => exact bind_eq_ok (ho.readable key rfl) rfl

/-! ## Choices and numbers -/

theorem kindField_eq_agent (h : ms.get? "type" = none) : kindField ms = .ok .agent := by
  rw [kindField, h]

theorem kindField_eq_ok {k : StepKind} (hk : k ≠ .agent)
    (h : ms.get? "type" = some (.string k.text)) : kindField ms = .ok k := by
  rw [kindField, h]
  cases k with
  | agent => exact absurd rfl hk
  | code | parallel | loop | perTask => rfl

theorem exhaustionField_eq_ok {e : Exhaustion} (h : ms.get? "onExhausted" = some (.string e.text)) :
    exhaustionField ms = .ok e := by
  rw [exhaustionField, h]
  cases e with
  | escalate | warn | fail => rfl

/-- A number of passes that a loop may be given. -/
structure RetriesAllowed (n : Nat) : Prop where
  one_le : 1 ≤ n
  fits : Bits.fitsUnsigned 32 n = true

theorem retriesAllowed_of_retriesField {n : Nat} (h : retriesField ms = .ok n) :
    RetriesAllowed n := by
  unfold retriesField at h
  split at h
  · cases h
  · split at h
    · split at h
      · next i _ hi =>
        cases h
        have hnat : ((i.toNat : Nat) : Int) = i := Int.toNat_of_nonneg (by omega)
        exact ⟨by omega, hnat.symm ▸ hi.2⟩
      · cases h
    · cases h

theorem retriesField_eq_ok {n : Nat} (hget : ms.get? "maxRetries" = some (.ofNat n))
    (hn : RetriesAllowed n) : retriesField ms = .ok n := by
  have hone : (1 : Int) ≤ n := Int.ofNat_le.2 hn.one_le
  rw [retriesField, hget, Value.ofNat]
  dsimp only
  rw [if_pos ⟨hone, hn.fits⟩, Int.toNat_natCast]

/-! ## Steps inside -/

theorem validateChildren_eq_ok {ss : List Step} :
    Step.validateChildren ms = .ok ss ↔
      ∃ vs, ms.get? "steps" = some (.array vs) ∧ Step.validateItems "steps" 0 vs = .ok ss := by
  induction ms with
  | nil =>
    rw [Step.validateChildren]
    simp
  | cons m ms ih =>
    obtain ⟨name, v⟩ := m
    rw [Step.validateChildren.eq_def, Members.get?_cons]
    dsimp only
    split
    · cases v with
      | array vs => simp
      | _ => simp
    · exact ih

/-! ## Agent steps -/

theorem isGiven_eq_true {field : String} :
    isGiven ms field = true ↔ ∃ v, ms.get? field = some v ∧ v ≠ .null := by
  unfold isGiven
  split
  · next h => simp [h]
  · next h => simp [h]
  · next v hnull h => exact iff_of_true rfl ⟨v, h, hnull⟩

def checkOptional (check : String → Except Fault Unit) : Option String → Except Fault Unit
  | some s => check s
  | none => .ok ()

theorem checkOptional_eq_ok {check : String → Except Fault Unit} {o : Option String} :
    checkOptional check o = .ok () ↔ ∀ s, o = some s → check s = .ok () := by
  cases o with
  | none => simp [checkOptional]
  | some s => simp [checkOptional]

/-- The fields of an agent step are read if an agent or a prompt is named, and checked after
that. -/
theorem agentStep_eq (ms : Members Value) :
    agentStep ms =
      if isGiven ms "agent" || isGiven ms "prompt" then
        match decodeAgentStep (.object ms) with
        | .error e => .error (.here (.undecodable e))
        | .ok a => do
          checkOptional checkCondition a.condition
          checkOptional checkKey a.output
          return .agent a
      else .error (.here .neitherAgentNorPrompt) := by
  unfold agentStep
  dsimp only
  rw [← Bool.not_or]
  cases isGiven ms "agent" || isGiven ms "prompt" with
  | false => rfl
  | true =>
    cases decodeAgentStep (.object ms) with
    | error e => rfl
    | ok a =>
      obtain ⟨name, agent, prompt, model, _ | key, input, enabled, _ | c⟩ := a
      all_goals rfl

theorem agentStep_eq_ok {s : Step} :
    agentStep ms = .ok s ↔
      (isGiven ms "agent" || isGiven ms "prompt") = true ∧
      ∃ a, decodeAgentStep (.object ms) = .ok a ∧
        (∀ c, a.condition = some c → checkCondition c = .ok ()) ∧
        (∀ key, a.output = some key → checkKey key = .ok ()) ∧ s = .agent a := by
  rw [agentStep_eq]
  constructor
  · intro h
    split at h
    · next hgiven =>
      cases ha : decodeAgentStep (.object ms) with
      | error e =>
        rw [ha] at h
        cases h
      | ok a =>
        rw [ha] at h
        obtain ⟨⟨⟩, hcondition, h⟩ := exists_of_bind_eq_ok h
        obtain ⟨⟨⟩, houtput, h⟩ := exists_of_bind_eq_ok h
        cases h
        exact ⟨hgiven, a, rfl, checkOptional_eq_ok.1 hcondition, checkOptional_eq_ok.1 houtput, rfl⟩
    · cases h
  · rintro ⟨hgiven, a, ha, hcondition, houtput, rfl⟩
    rw [if_pos hgiven, ha]
    exact bind_eq_ok (checkOptional_eq_ok.2 hcondition)
      (bind_eq_ok (checkOptional_eq_ok.2 houtput) rfl)

end Validate

/-! ## Records -/

open Validate
open Json.Record (Reading fields get rulesOf)

namespace AgentStep

@[mk_iff]
structure Given (ms : Members Value) (s : AgentStep) : Prop where
  name : get ms ⟨"name", .text, none, []⟩ = .ok s.name
  agent : get ms (.optional "agent" .text) = .ok s.agent
  prompt : get ms (.optional "prompt" .text) = .ok s.prompt
  model : get ms (.optional "model" .text) = .ok s.model
  output : get ms (.optional "output" .text) = .ok s.output
  input : get ms (.optional "input" decodeInput) = .ok s.input
  enabled : get ms (.withDefault "enabled" .flag true) = .ok s.enabled
  condition : get ms (.optional "condition" .text) = .ok s.condition

def readings (s : AgentStep) : List Reading :=
  [⟨⟨"name", .text, none, []⟩, s.name⟩, ⟨.optional "agent" .text, s.agent⟩,
    ⟨.optional "prompt" .text, s.prompt⟩, ⟨.optional "model" .text, s.model⟩,
    ⟨.optional "output" .text, s.output⟩, ⟨.optional "input" decodeInput, s.input⟩,
    ⟨.withDefault "enabled" .flag true, s.enabled⟩, ⟨.optional "condition" .text, s.condition⟩]

theorem given_iff_readings {ms : Members Value} {s : AgentStep} :
    s.Given ms ↔ ∀ g ∈ s.readings, g.In ms := by
  simp [given_iff, readings, Reading.In]

theorem plain_readings (s : AgentStep) : Json.Record.Plain (rulesOf s.readings) := by
  simp [Json.Record.Plain, rulesOf, readings, RecordField.rule, RecordField.optional,
    RecordField.withDefault]

theorem decode_iff {v : Value} {s : AgentStep} :
    decodeAgentStep v = .ok s ↔
      ∃ out, fields "struct AgentPromptStep" (rulesOf s.readings) v = .ok out ∧ s.Given out := by
  refine bind_eq_ok_iff.trans (exists_congr fun out ↦ and_congr Iff.rfl ?_)
  simp only [bind_eq_ok_iff]
  constructor
  · rintro ⟨_, hname, _, hagent, _, hprompt, _, hmodel, _, houtput, _, hinput, _, henabled, _,
      hcondition, h⟩
    cases h
    exact ⟨hname, hagent, hprompt, hmodel, houtput, hinput, henabled, hcondition⟩
  · rintro ⟨hname, hagent, hprompt, hmodel, houtput, hinput, henabled, hcondition⟩
    exact ⟨_, hname, _, hagent, _, hprompt, _, hmodel, _, houtput, _, hinput, _, henabled, _,
      hcondition, rfl⟩

theorem decode_eq_ok_iff {ms : Members Value} {s : AgentStep} :
    decodeAgentStep (.object ms) = .ok s ↔
      (Json.Record.known (rulesOf s.readings) ms).Distinct ∧ s.Given ms := by
  simp only [decode_iff, given_iff_readings]
  exact Json.Record.exists_fields_iff s.plain_readings _ ms

end AgentStep

namespace Defaults

@[mk_iff]
structure Given (ms : Members Value) (d : Defaults) : Prop where
  agent : get ms (.optional "agent" .text) = .ok d.agent
  model : get ms (.optional "model" .text) = .ok d.model
  permissionMode : get ms (.optional "permissionMode" .text) = .ok d.permissionMode
  settingSources : get ms (.withDefault "settingSources" (.list .text) []) = .ok d.settingSources

def readings (d : Defaults) : List Reading :=
  [⟨.optional "agent" .text, d.agent⟩, ⟨.optional "model" .text, d.model⟩,
    ⟨.optional "permissionMode" .text, d.permissionMode⟩,
    ⟨.withDefault "settingSources" (.list .text) [], d.settingSources⟩]

theorem given_iff_readings {ms : Members Value} {d : Defaults} :
    d.Given ms ↔ ∀ g ∈ d.readings, g.In ms := by
  simp [given_iff, readings, Reading.In]

theorem plain_readings (d : Defaults) : Json.Record.Plain (rulesOf d.readings) := by
  simp [Json.Record.Plain, rulesOf, readings, RecordField.rule, RecordField.optional,
    RecordField.withDefault]

theorem decode_iff {v : Value} {d : Defaults} :
    decode v = .ok d ↔
      ∃ out, fields "struct WorkflowDefaults" (rulesOf d.readings) v = .ok out ∧ d.Given out := by
  refine bind_eq_ok_iff.trans (exists_congr fun out ↦ and_congr Iff.rfl ?_)
  simp only [bind_eq_ok_iff]
  constructor
  · rintro ⟨_, hagent, _, hmodel, _, hmode, _, hsources, h⟩
    cases h
    exact ⟨hagent, hmodel, hmode, hsources⟩
  · rintro ⟨hagent, hmodel, hmode, hsources⟩
    exact ⟨_, hagent, _, hmodel, _, hmode, _, hsources, rfl⟩

theorem decode_eq_ok_iff {ms : Members Value} {d : Defaults} :
    decode (.object ms) = .ok d ↔
      (Json.Record.known (rulesOf d.readings) ms).Distinct ∧ d.Given ms := by
  simp only [decode_iff, given_iff_readings]
  exact Json.Record.exists_fields_iff d.plain_readings _ ms

end Defaults

namespace Safety

@[mk_iff]
structure Given (ms : Members Value) (s : Safety) : Prop where
  maxLoopRetries : get ms (.optional "maxLoopRetries" (.natural 32 "u32")) = .ok s.maxLoopRetries
  maxStepTimeoutMs :
    get ms (.optional "maxStepTimeoutMs" (.natural 64 "u64")) = .ok s.maxStepTimeoutMs
  maxWorkflowDurationMs :
    get ms (.optional "maxWorkflowDurationMs" (.natural 64 "u64")) = .ok s.maxWorkflowDurationMs
  failOnStepError : get ms (.withDefault "failOnStepError" .flag true) = .ok s.failOnStepError

def readings (s : Safety) : List Reading :=
  [⟨.optional "maxLoopRetries" (.natural 32 "u32"), s.maxLoopRetries⟩,
    ⟨.optional "maxStepTimeoutMs" (.natural 64 "u64"), s.maxStepTimeoutMs⟩,
    ⟨.optional "maxWorkflowDurationMs" (.natural 64 "u64"), s.maxWorkflowDurationMs⟩,
    ⟨.withDefault "failOnStepError" .flag true, s.failOnStepError⟩]

theorem given_iff_readings {ms : Members Value} {s : Safety} :
    s.Given ms ↔ ∀ g ∈ s.readings, g.In ms := by
  simp [given_iff, readings, Reading.In]

theorem plain_readings (s : Safety) : Json.Record.Plain (rulesOf s.readings) := by
  simp [Json.Record.Plain, rulesOf, readings, RecordField.rule, RecordField.optional,
    RecordField.withDefault]

theorem decode_iff {v : Value} {s : Safety} :
    decode v = .ok s ↔
      ∃ out, fields "struct SafetyConfig" (rulesOf s.readings) v = .ok out ∧ s.Given out := by
  refine bind_eq_ok_iff.trans (exists_congr fun out ↦ and_congr Iff.rfl ?_)
  simp only [bind_eq_ok_iff]
  constructor
  · rintro ⟨_, hretries, _, hstep, _, hduration, _, hfail, h⟩
    cases h
    exact ⟨hretries, hstep, hduration, hfail⟩
  · rintro ⟨hretries, hstep, hduration, hfail⟩
    exact ⟨_, hretries, _, hstep, _, hduration, _, hfail, rfl⟩

theorem decode_eq_ok_iff {ms : Members Value} {s : Safety} :
    decode (.object ms) = .ok s ↔
      (Json.Record.known (rulesOf s.readings) ms).Distinct ∧ s.Given ms := by
  simp only [decode_iff, given_iff_readings]
  exact Json.Record.exists_fields_iff s.plain_readings _ ms

end Safety

end Workflow
