import Workflow.Proofs.Definition.Valid

/-!
# Definitions are read back from their documents

The document of a definition that was read is read as the same definition, and so is that of a step.
A document is written in the order of the declarations and handed on in the order of the names, so
the proof is about any rearrangement of it. The readers look members up by name, so all they need of
a document is which members it has: its slots.
-/

namespace Workflow

open Json (Value Members RecordField Decoder optionalMember)
open Validate

variable {f : Value → Value}

/-! ## Slots -/

/-- The members of the document of a step, with those that are left out, around the documents of
the steps inside it. -/
def Step.slots (inside : List Value) : Step → Members (Option Value)
  | .agent s =>
    [("name", some (.string s.name)), ("agent", s.agent.map .string),
      ("prompt", s.prompt.map .string), ("model", s.model.map .string),
      ("output", s.output.map .string), ("input", s.input.map AgentInput.toValue),
      ("enabled", some (.bool s.enabled)), ("condition", s.condition.map .string)]
  | .code s =>
    [("type", some (.string StepKind.code.text)), ("name", some (.string s.name)),
      ("handler", some (.string s.handler)), ("input", s.input.map .string),
      ("output", s.output.map .string)]
  | .parallel g _ =>
    [("type", some (.string StepKind.parallel.text)), ("name", some (.string g.name)),
      ("steps", some (.array inside)), ("output", g.output.map .string)]
  | .loop l _ =>
    [("type", some (.string StepKind.loop.text)), ("name", some (.string l.name)),
      ("condition", some (.string l.condition)), ("maxRetries", some (.ofNat l.maxRetries)),
      ("onExhausted", some (.string l.onExhausted.text)), ("steps", some (.array inside))]
  | .perTask p _ =>
    [("type", some (.string StepKind.perTask.text)), ("name", some (.string p.name)),
      ("source", some (.string p.source)), ("steps", some (.array inside))]

theorem Step.distinct_slots (inside : List Value) (s : Step) : (s.slots inside).Distinct := by
  cases s with
  | agent | code | parallel | loop | perTask => simp [slots, Members.Distinct]

theorem Step.toValue_eq (s : Step) :
    s.toValue = .object (Members.present (s.slots (Step.toValues s.children))) := by
  cases s with
  | agent s =>
    simp [toValue, slots, Members.present, AgentStep.members, optionalMember, Function.comp_def]
  | code s =>
    simp [toValue, slots, Members.present, CodeStep.members, optionalMember, tag,
      Function.comp_def]
  | parallel g ss =>
    simp [toValue, slots, Members.present, optionalMember, tag, children, Function.comp_def]
  | loop | perTask => rfl

theorem Step.exists_written (hf : Value.Rearranges f) (s : Step) :
    ∃ ms : Members Value, f s.toValue = .object ms ∧
      Value.Written f (s.slots (Step.toValues s.children)) ms := by
  rw [Step.toValue_eq]
  exact hf.exists_written (s.distinct_slots _)

/-! ## Steps -/

theorem AgentStep.given_of_written (hf : Value.Rearranges f) {s : AgentStep} (h : s.Valid f)
    {ms : Members Value} (hw : Value.Written f ((Step.agent s).slots []) ms) : s.Given ms := by
  have hinput : ms.get? "input" = s.input.map AgentInput.toValue := hw.optional rfl h.input
  exact {
    name := Json.Record.get_eq_read (hw.text hf rfl)
    agent := Json.Record.get_optionalText (hw.optionalText hf rfl)
    prompt := Json.Record.get_optionalText (hw.optionalText hf rfl)
    model := Json.Record.get_optionalText (hw.optionalText hf rfl)
    output := Json.Record.get_optionalText (hw.optionalText hf rfl)
    input := Json.Record.get_optional hinput fun i _ ↦ by cases i <;> rfl
    enabled := Json.Record.get_eq_read (hw.some rfl (hf.bool _))
    condition := Json.Record.get_optionalText (hw.optionalText hf rfl) }

theorem AgentStep.isGiven_of_written (hf : Value.Rearranges f) {s : AgentStep} (h : s.Valid f)
    {ms : Members Value} (hw : Value.Written f ((Step.agent s).slots []) ms) :
    (isGiven ms "agent" || isGiven ms "prompt") = true := by
  have hagent : ms.get? "agent" = s.agent.map .string := hw.optionalText hf rfl
  have hprompt : ms.get? "prompt" = s.prompt.map .string := hw.optionalText hf rfl
  rw [Bool.or_eq_true, isGiven_eq_true, isGiven_eq_true, hagent, hprompt]
  rcases h.directed with ha | hp
  · obtain ⟨a, ha⟩ := Option.isSome_iff_exists.1 ha
    exact .inl ⟨.string a, by rw [ha]; rfl, by simp⟩
  · obtain ⟨p, hp⟩ := Option.isSome_iff_exists.1 hp
    exact .inr ⟨.string p, by rw [hp]; rfl, by simp⟩

namespace Step

theorem validateItems_eq_ok {ss : List Step} (h : ∀ s ∈ ss, validate (f s.toValue) = .ok s)
    (list : String) (i : Nat) : validateItems list i ((toValues ss).map f) = .ok ss := by
  induction ss generalizing i with
  | nil => rw [toValues, List.map_nil, validateItems]
  | cons s ss ih =>
    obtain ⟨hs, hss⟩ := List.forall_mem_cons.1 h
    rw [toValues, List.map_cons, validateItems, hs]
    exact bind_eq_ok (ih hss (i + 1)) rfl

theorem validateChildren_of_written (hf : Value.Rearranges f) {slots : Members (Option Value)}
    {ms : Members Value} (hw : Value.Written f slots ms) {ss : List Step}
    (hs : slots.get? "steps" = some (some (.array (toValues ss))))
    (h : ∀ s ∈ ss, validate (f s.toValue) = .ok s) : validateChildren ms = .ok ss :=
  validateChildren_eq_ok.2 ⟨_, hw.some hs (hf.array _), validateItems_eq_ok h "steps" 0⟩

/-- **Steps.** The document of a step that passes its checks is read as that step, in whatever order
its members stand. -/
theorem validate_toValue (hf : Value.Rearranges f) {s : Step} (h : s.Valid f) :
    validate (f s.toValue) = .ok s := by
  induction h with
  | @agent s h =>
    obtain ⟨ms, hms, hw⟩ := exists_written hf (.agent s)
    rw [hms, validate]
    refine bind_eq_ok (requiredText_eq_ok.2 ⟨hw.text hf rfl, h.name⟩) ?_
    refine bind_eq_ok (kindField_eq_agent (hw.none rfl)) ?_
    exact agentStep_eq_ok.2 ⟨AgentStep.isGiven_of_written hf h hw, s,
      AgentStep.decode_eq_ok_iff.2 ⟨Json.Record.distinct_known hw.distinct _,
        AgentStep.given_of_written hf h hw⟩, h.condition, h.output, rfl⟩
  | @code s h =>
    obtain ⟨ms, hms, hw⟩ := exists_written hf (.code s)
    rw [hms, validate]
    refine bind_eq_ok (requiredText_eq_ok.2 ⟨hw.text hf rfl, h.name⟩) ?_
    refine bind_eq_ok (kindField_eq_ok (k := .code) nofun (hw.text hf rfl)) ?_
    refine bind_eq_ok (requiredText_eq_ok.2 ⟨hw.text hf rfl, h.handler⟩) ?_
    refine bind_eq_ok (optionalText_eq_ok (hw.optionalText hf rfl) h.input) ?_
    exact bind_eq_ok (outputField_eq_ok (hw.optionalText hf rfl) h.output) rfl
  | @parallel g ss h _ ih =>
    obtain ⟨ms, hms, hw⟩ := exists_written hf (.parallel g ss)
    rw [hms, validate]
    refine bind_eq_ok (requiredText_eq_ok.2 ⟨hw.text hf rfl, h.name⟩) ?_
    refine bind_eq_ok (kindField_eq_ok (k := .parallel) nofun (hw.text hf rfl)) ?_
    refine bind_eq_ok (validateChildren_of_written hf hw rfl ih) ?_
    exact bind_eq_ok (outputField_eq_ok (hw.optionalText hf rfl) h.output) rfl
  | @loop l ss h _ ih =>
    obtain ⟨ms, hms, hw⟩ := exists_written hf (.loop l ss)
    rw [hms, validate]
    refine bind_eq_ok (requiredText_eq_ok.2 ⟨hw.text hf rfl, h.name⟩) ?_
    refine bind_eq_ok (kindField_eq_ok (k := .loop) nofun (hw.text hf rfl)) ?_
    refine bind_eq_ok (requiredText_eq_ok.2 ⟨hw.text hf rfl, h.condition⟩) ?_
    refine bind_eq_ok h.readable ?_
    refine bind_eq_ok (retriesField_eq_ok (hw.some rfl (hf.ofNat _)) h.maxRetries) ?_
    refine bind_eq_ok (exhaustionField_eq_ok (hw.text hf rfl)) ?_
    exact bind_eq_ok (validateChildren_of_written hf hw rfl ih) rfl
  | @perTask p ss h _ ih =>
    obtain ⟨ms, hms, hw⟩ := exists_written hf (.perTask p ss)
    rw [hms, validate]
    refine bind_eq_ok (requiredText_eq_ok.2 ⟨hw.text hf rfl, h.name⟩) ?_
    refine bind_eq_ok (kindField_eq_ok (k := .perTask) nofun (hw.text hf rfl)) ?_
    refine bind_eq_ok (requiredText_eq_ok.2 ⟨hw.text hf rfl, h.source⟩) ?_
    exact bind_eq_ok (validateChildren_of_written hf hw rfl ih) rfl

end Step

/-! ## Defaults and limits -/

namespace Defaults

def slots (d : Defaults) : Members (Option Value) :=
  [("agent", d.agent.map .string), ("model", d.model.map .string),
    ("permissionMode", d.permissionMode.map .string),
    ("settingSources",
      (if d.settingSources.isEmpty then none else some d.settingSources).map fun ss ↦
        .array (ss.map .string))]

theorem toValue_eq (d : Defaults) : d.toValue = .object (Members.present d.slots) := by
  unfold toValue slots
  cases d.settingSources with
  | nil => simp [Members.present, optionalMember, Function.comp_def]
  | cons s ss => simp [Members.present, optionalMember, Function.comp_def]

theorem list_text (ss : List String) :
    Decoder.list .text (.array (ss.map .string)) = .ok ss := by
  rw [Decoder.list]
  induction ss with
  | nil => rfl
  | cons s ss ih =>
    rw [List.map_cons, List.mapM_cons]
    exact bind_eq_ok rfl (bind_eq_ok ih rfl)

theorem given_of_written (hf : Value.Rearranges f) {d : Defaults} {ms : Members Value}
    (hw : Value.Written f d.slots ms) : d.Given ms := by
  have hsources : Json.Record.get ms (.withDefault "settingSources" (.list .text) []) =
      .ok d.settingSources := by
    have hget : ms.get? "settingSources" =
        (if d.settingSources.isEmpty then none else some d.settingSources).map fun ss ↦
          .array (ss.map .string) :=
      hw.optional rfl fun ss _ ↦ hf.texts ss
    cases hs : d.settingSources with
    | nil =>
      rw [hs] at hget
      exact Json.Record.get_eq_absent hget rfl
    | cons s ss =>
      rw [hs] at hget
      have hread : (RecordField.withDefault "settingSources" (.list .text) []).read
          (.array ((s :: ss).map .string)) = .ok (s :: ss) := list_text _
      exact (Json.Record.get_eq_read hget).trans hread
  exact {
    agent := Json.Record.get_optionalText (hw.optionalText hf rfl)
    model := Json.Record.get_optionalText (hw.optionalText hf rfl)
    permissionMode := Json.Record.get_optionalText (hw.optionalText hf rfl)
    settingSources := hsources }

theorem decode_toValue (hf : Value.Rearranges f) (d : Defaults) :
    ∃ ms, f d.toValue = .object ms ∧ decode (.object ms) = .ok d := by
  have hdistinct : d.slots.Distinct := by simp [slots, Members.Distinct]
  obtain ⟨ms, hms, hw⟩ := hf.exists_written hdistinct
  rw [toValue_eq]
  exact ⟨ms, hms,
    decode_eq_ok_iff.2 ⟨Json.Record.distinct_known hw.distinct _, given_of_written hf hw⟩⟩

end Defaults

namespace Safety

def slots (s : Safety) : Members (Option Value) :=
  [("maxLoopRetries", s.maxLoopRetries.map .ofNat),
    ("maxStepTimeoutMs", s.maxStepTimeoutMs.map .ofNat),
    ("maxWorkflowDurationMs", s.maxWorkflowDurationMs.map .ofNat),
    ("failOnStepError", some (.bool s.failOnStepError))]

theorem toValue_eq (s : Safety) : s.toValue = .object (Members.present s.slots) := by
  unfold toValue slots
  simp only [Members.present, List.flatMap_cons, List.flatMap_nil, Option.map_map, Option.map_some,
    Option.toList_some, List.append_nil, List.append_assoc]
  rfl

theorem natural_ofNat {bits n : Nat} (h : Bits.fitsUnsigned bits n = true) (type : String) :
    Decoder.natural bits type (.ofNat n) = .ok n := by
  rw [Value.ofNat, Decoder.natural, if_pos h, Int.toNat_natCast]

theorem given_of_written (hf : Value.Rearranges f) {s : Safety} (h : s.Fits) {ms : Members Value}
    (hw : Value.Written f s.slots ms) : s.Given ms := by
  have hnatural : ∀ {name type : String} {bits : Nat} {o : Option Nat},
      (∀ n, o = some n → Bits.fitsUnsigned bits n = true) → ms.get? name = o.map .ofNat →
        Json.Record.get ms (.optional name (.natural bits type)) = .ok o := by
    intro name type bits o hfits hmember
    refine Json.Record.get_optional hmember fun n hn ↦ ?_
    have hnull : Value.ofNat n ≠ .null := nofun
    rw [Decoder.optional_eq_map hnull, natural_ofNat (hfits n hn)]
    rfl
  exact {
    maxLoopRetries := hnatural h.maxLoopRetries (hw.optional rfl fun n _ ↦ hf.ofNat n)
    maxStepTimeoutMs := hnatural h.maxStepTimeoutMs (hw.optional rfl fun n _ ↦ hf.ofNat n)
    maxWorkflowDurationMs :=
      hnatural h.maxWorkflowDurationMs (hw.optional rfl fun n _ ↦ hf.ofNat n)
    failOnStepError := Json.Record.get_eq_read (hw.some rfl (hf.bool _)) }

theorem decode_toValue (hf : Value.Rearranges f) {s : Safety} (h : s.Fits) :
    ∃ ms, f s.toValue = .object ms ∧ decode (.object ms) = .ok s := by
  have hdistinct : s.slots.Distinct := by simp [slots, Members.Distinct]
  obtain ⟨ms, hms, hw⟩ := hf.exists_written hdistinct
  rw [toValue_eq]
  exact ⟨ms, hms,
    decode_eq_ok_iff.2 ⟨Json.Record.distinct_known hw.distinct _, given_of_written hf h hw⟩⟩

end Safety

/-! ## Definitions -/

namespace Definition

def slots (d : Definition) : Members (Option Value) :=
  [("name", some (.string d.name)), ("version", some (.string d.version)),
    ("defaults", some d.defaults.toValue), ("safety", d.safety.map Safety.toValue),
    ("phases", some (.array (Step.toValues d.phases)))]

theorem toValue_eq (d : Definition) : d.toValue = .object (Members.present d.slots) := by
  unfold toValue slots
  simp [Members.present, Function.comp_def]

theorem versionField_eq_ok {ms : Members Value} {version : String}
    (hget : ms.get? "version" = some (.string version))
    (h : Text.isBlankText version = false) : versionField ms = .ok version := by
  rw [versionField, hget]
  dsimp only
  rw [if_neg (by simp [h])]

theorem validatePhases_eq_ok {ss : List Step} (h : ∀ s ∈ ss, Step.validate (f s.toValue) = .ok s)
    (hdistinct : (ss.map Step.name).Nodup) {seen : List String} (hseen : ∀ s ∈ ss, s.name ∉ seen)
    (i : Nat) : validatePhases i seen ((Step.toValues ss).map f) = .ok ss := by
  induction ss generalizing seen i with
  | nil => rfl
  | cons s ss ih =>
    obtain ⟨hs, hss⟩ := List.forall_mem_cons.1 h
    obtain ⟨hname, hdistinct⟩ := List.nodup_cons.1 hdistinct
    obtain ⟨hnew, hseen⟩ := List.forall_mem_cons.1 hseen
    have hseen' : ∀ t ∈ ss, t.name ∉ s.name :: seen := by
      intro t ht hmem
      rcases List.mem_cons.1 hmem with heq | hmem
      · exact hname (heq ▸ List.mem_map_of_mem ht)
      · exact hseen t ht hmem
    rw [Step.toValues, List.map_cons, validatePhases, hs]
    dsimp only
    rw [if_neg (by simpa using hnew)]
    exact bind_eq_ok (ih hss hdistinct hseen' (i + 1)) rfl

theorem safetyField_of_written (hf : Value.Rearranges f) {d : Definition} (h : d.Valid f)
    {ms : Members Value} (hw : Value.Written f d.slots ms) : safetyField ms = .ok d.safety := by
  have hget : ms.get? "safety" = (d.safety.map Safety.toValue).map f := hw.get?_eq "safety"
  cases hs : d.safety with
  | none =>
    rw [hs] at hget
    rw [safetyField, hget]
    rfl
  | some s =>
    obtain ⟨ns, hns, hdecode⟩ := Safety.decode_toValue hf (h.fits s hs)
    rw [hs, Option.map_some, Option.map_some, hns] at hget
    rw [safetyField, hget]
    dsimp only
    rw [hdecode]
    exact bind_eq_ok rfl (bind_eq_ok (h.limits s hs) rfl)

theorem phasesField_of_written (hf : Value.Rearranges f) {d : Definition} (h : d.Valid f)
    {ms : Members Value} (hw : Value.Written f d.slots ms) : phasesField ms = .ok d.phases := by
  have hsteps : ∀ s ∈ d.phases, Step.validate (f s.toValue) = .ok s := fun s hs ↦
    Step.validate_toValue hf (h.steps s hs)
  have hread : validatePhases 0 [] ((Step.toValues d.phases).map f) = .ok d.phases :=
    validatePhases_eq_ok hsteps h.distinct (by simp) 0
  have hget : ms.get? "phases" = some (.array ((Step.toValues d.phases).map f)) :=
    hw.some rfl (hf.array _)
  rw [phasesField, hget]
  cases hp : d.phases with
  | nil => exact absurd hp h.nonempty
  | cons s ss =>
    rw [hp] at hread
    exact hread

/-- **Definitions.** The document of a definition that passes its checks is read as that
definition, in whatever order its members stand. -/
theorem validate_toValue (hf : Value.Rearranges f) {d : Definition} (h : d.Valid f) :
    validate (f d.toValue) = .ok d := by
  have hdistinct : d.slots.Distinct := by simp [slots, Members.Distinct]
  obtain ⟨ms, hms, hw⟩ := hf.exists_written hdistinct
  have hname : requiredText ms "name" = .ok d.name :=
    requiredText_eq_ok.2 ⟨hw.text hf rfl, h.name⟩
  have hdefaults : defaultsField ms = .ok d.defaults := by
    obtain ⟨ns, hns, hdecode⟩ := Defaults.decode_toValue hf d.defaults
    rw [defaultsField, hw.some rfl hns]
    dsimp only
    rw [hdecode]
    rfl
  have hsafety : safetyField ms = .ok d.safety := safetyField_of_written hf h hw
  have hphases : phasesField ms = .ok d.phases := phasesField_of_written hf h hw
  rw [toValue_eq, hms, validate]
  refine bind_eq_ok (by rw [hname]; rfl) ?_
  refine bind_eq_ok (versionField_eq_ok (hw.text hf rfl) h.version) ?_
  exact bind_eq_ok hdefaults (bind_eq_ok hsafety (bind_eq_ok hphases rfl))

end Definition

/-! ## What was read -/

/-- **Round trips.** Whatever document a definition was read from, its own document is read as the
same definition, and so is that of every step, in the order in which it is written as well as in the
order of the names, which is that of all values that were read from a text. -/
theorem validate_toValue_of_validate :
    (∀ (v : Value) (d : Definition), Definition.validate v = .ok d →
      Definition.validate d.toValue = .ok d) ∧
    (∀ (v : Value) (d : Definition), Definition.validate v.normalize = .ok d →
      Definition.validate d.toValue.normalize = .ok d) ∧
    (∀ (v : Value) (s : Step), Step.validate v = .ok s → Step.validate s.toValue = .ok s) ∧
    ∀ (v : Value) (s : Step), Step.validate v.normalize = .ok s →
      Step.validate s.toValue.normalize = .ok s := by
  refine ⟨fun v d h ↦ ?_, fun v d h ↦ ?_, fun v s h ↦ ?_, fun v s h ↦ ?_⟩
  · exact Definition.validate_toValue Value.rearranges_id
      (Definition.valid_of_validate Value.rearranges_id rfl h)
  · exact Definition.validate_toValue Value.rearranges_normalize
      (Definition.valid_of_validate Value.rearranges_normalize (Value.normalize_normalize v) h)
  · exact Step.validate_toValue Value.rearranges_id
      (Step.valid_of_validate Value.rearranges_id v rfl h)
  · exact Step.validate_toValue Value.rearranges_normalize
      (Step.valid_of_validate Value.rearranges_normalize _ (Value.normalize_normalize v) h)

/-- The document of a loop over steps of every kind, with most of what may be left out left out. -/
def mixedLoopDocument : Value :=
  .object [("condition", .string "true"), ("maxRetries", .ofNat 2), ("name", .string "again"),
    ("steps", .array [
      .object [("name", .string "both"), ("output", .string "joined"),
        ("steps", .array [
          .object [("name", .string "each"), ("source", .string "plan.tasks"),
            ("steps", .array [
              .object [("input", .object [("goal", .string "ship"), ("tags", .array [.null])]),
                ("name", .string "write"), ("prompt", .string "write")]]),
            ("type", .string "per-task")],
          .object [("handler", .string "lint"), ("name", .string "check"),
            ("type", .string "code")]]),
        ("type", .string "parallel")]]),
    ("type", .string "loop")]

def mixedLoop : Step :=
  .loop ⟨"again", "true", 2, .escalate⟩ [
    .parallel ⟨"both", some "joined"⟩ [
      .perTask ⟨"each", "plan.tasks"⟩ [
        .agent { name := "write", prompt := some "write", input := some (.structured
          [("goal", .string "ship"), ("tags", .array [.null])]) }],
      .code ⟨"check", "lint", none, none⟩]]

/-- A document with a number for a version, and lists for defaults and limits. -/
def mixedDocument : Value :=
  .object [("defaults", .array [.string "dev", .null, .null, .array [.string "user"]]),
    ("name", .string "mixed"),
    ("phases", .array [
      .object [("agent", .string "dev"), ("input", .string "draft"), ("name", .string "plan")],
      mixedLoopDocument]),
    ("safety", .array [.null, .ofNat 1000]),
    ("version", .ofNat 2)]

def mixed : Definition where
  name := "mixed"
  version := "2"
  defaults := { agent := some "dev", settingSources := ["user"] }
  safety := some { maxStepTimeoutMs := some 1000 }
  phases := [.agent { name := "plan", agent := some "dev", input := some (.text "draft") },
    mixedLoop]

theorem validate_toValue_mixed :
    (Definition.validate mixedDocument = .ok mixed ∧
      Definition.validate mixed.toValue = .ok mixed) ∧
    (Definition.validate mixedDocument.normalize = .ok mixed ∧
      Definition.validate mixed.toValue.normalize = .ok mixed) ∧
    (Step.validate mixedLoopDocument = .ok mixedLoop ∧
      Step.validate mixedLoop.toValue = .ok mixedLoop) ∧
    Step.validate mixedLoopDocument.normalize = .ok mixedLoop ∧
      Step.validate mixedLoop.toValue.normalize = .ok mixedLoop := by
  obtain ⟨hwritten, hsorted, hstep, hstep'⟩ := validate_toValue_of_validate
  have hd : Definition.validate mixedDocument = .ok mixed := by decide +kernel
  have hd' : Definition.validate mixedDocument.normalize = .ok mixed := by decide +kernel
  have hs : Step.validate mixedLoopDocument = .ok mixedLoop := by decide +kernel
  have hs' : Step.validate mixedLoopDocument.normalize = .ok mixedLoop := by decide +kernel
  exact ⟨⟨hd, hwritten _ _ hd⟩, ⟨hd', hsorted _ _ hd'⟩, ⟨hs, hstep _ _ hs⟩, hs', hstep' _ _ hs'⟩

end Workflow
