import Workflow.Proofs.Definition.Fields
import Workflow.Proofs.Definition.Phases

/-!
# The step that a fault is about

A refusal of a document is a fault of one of its steps, and is the refusal of that step alone: what
a validator does with a step depends on nothing around it. `Step.exists_blamed` follows a fault down
to the step that has it in its own fields, and `Definition.exists_blamed` does so from a phase on,
where all phases before have been read. `Step.exists_node` says the same of steps that were read.
-/

namespace Workflow

open Json (Value Members)
open Validate

/-! ## Places in documents -/

def Place.valueIn? (p : Place) : Value → Option Value
  | .object ms =>
    match p.item, Members.get? p.field ms with
    | none, found => found
    | some i, some (.array vs) => vs[i]?
    | some _, _ => none
  | _ => none

/-- The value at a place of a document. -/
def nodeAt? : List Place → Value → Option Value
  | [], v => some v
  | p :: ps, v => (p.valueIn? v).bind (nodeAt? ps)

/-- The place of a step among the steps of another one. -/
def stepAt (j : Nat) : Place := ⟨"steps", some j⟩

def phaseAt (i : Nat) : Place := ⟨"phases", some i⟩

/-- The step inside a step that is reached by the numbers of children. -/
def Step.inside? : List Nat → Step → Option Step
  | [], s => some s
  | j :: js, s => s.children[j]?.bind (inside? js)

theorem valueIn?_of_get? {list : String} {ms : Members Value} {vs : List Value}
    (h : ms.get? list = some (.array vs)) (i : Nat) :
    Place.valueIn? ⟨list, some i⟩ (.object ms) = vs[i]? := by
  rw [Place.valueIn?, h]

theorem nodeAt?_cons {p : Place} {ps : List Place} {v w : Value} (h : p.valueIn? v = some w) :
    nodeAt? (p :: ps) v = nodeAt? ps w := by
  rw [nodeAt?, h, Option.bind_some]

/-! ## Errors -/

/-- Every error of a computation has a property. -/
def Errors {α : Type} (P : Fault → Prop) (x : Except Fault α) : Prop := ∀ f, x = .error f → P f

namespace Errors

variable {α β : Type} {P Q : Fault → Prop} {x : Except Fault α}

theorem ok (a : α) : Errors P (.ok a : Except Fault α) := fun _ h ↦ nomatch h

theorem error {f : Fault} (h : P f) : Errors P (.error f : Except Fault α) := by
  rintro g ⟨⟩
  exact h

theorem or_left (hx : Errors P x) : Errors (fun f ↦ P f ∨ Q f) x := fun f hf ↦ .inl (hx f hf)

theorem bind {g : α → Except Fault β} (hx : Errors P x) (hg : ∀ a, Errors P (g a)) :
    Errors P (x >>= g) := by
  cases x with
  | error f =>
    rintro e ⟨⟩
    exact hx f rfl
  | ok a => exact hg a

theorem map {g : α → β} (hx : Errors P x) : Errors P (x.map g) := by
  cases x with
  | error f =>
    rintro e ⟨⟩
    exact hx f rfl
  | ok a => exact .ok (g a)

theorem mapError {ε : Type} {x : Except ε α} {g : ε → Fault} (h : ∀ e, x = .error e → P (g e)) :
    Errors P (x.mapError g) := by
  cases x with
  | error e => exact .error (h e rfl)
  | ok a => exact .ok a

end Errors

/-! ## Faults of fields -/

/-- A name without brackets, in which the numbers of items stand. -/
def Unbracketed (field : String) : Prop := '[' ∉ field.toList ∧ ']' ∉ field.toList

instance (field : String) : Decidable (Unbracketed field) := inferInstanceAs (Decidable (_ ∧ _))

/-- A part of a place that is a field and not an item of a list. -/
structure Place.IsField (p : Place) : Prop where
  item : p.item = none
  unbracketed : Unbracketed p.field

/-- A fault of a value or of a field in it, not of an item of a list. -/
def Fault.IsOwn (f : Fault) : Prop := ∀ p ∈ f.place, p.IsField

namespace Fault

variable {field : String} {cause : Cause} {f : Fault}

theorem isOwn_here : (here cause).IsOwn := List.forall_mem_nil _

theorem isOwn_under (hfield : Unbracketed field) (h : f.IsOwn) :
    (f.under ⟨field, none⟩).IsOwn :=
  List.forall_mem_cons.2 ⟨⟨rfl, hfield⟩, h⟩

theorem isOwn_atField (hfield : Unbracketed field) :
    (atField field cause).IsOwn :=
  isOwn_under hfield isOwn_here

end Fault

namespace Validate

open Fault

variable {ms : Members Value} {field : String}

theorem isOwn_requiredText (hfield : Unbracketed field) :
    Errors IsOwn (requiredText ms field) := by
  unfold requiredText
  split
  · split
    · exact .error (isOwn_atField hfield)
    · exact .ok _
  · exact .error (isOwn_atField hfield)
  · exact .error (isOwn_atField hfield)

theorem isOwn_optionalText (hfield : Unbracketed field) :
    Errors IsOwn (optionalText ms field) := by
  unfold optionalText
  split
  · exact .ok _
  · exact .ok _
  · exact .map (isOwn_requiredText hfield)

theorem isOwn_checkKey {key : String} : Errors IsOwn (checkKey key) := by
  unfold checkKey
  split
  · exact .error (isOwn_atField (by decide))
  · exact .ok _

theorem isOwn_outputField : Errors IsOwn (outputField ms) := by
  refine .bind (isOwn_optionalText (by decide)) fun output ↦ ?_
  cases output with
  | none => exact .ok _
  | some key => exact .bind isOwn_checkKey fun _ ↦ .ok _

theorem isOwn_checkCondition {source : String} : Errors IsOwn (checkCondition source) := by
  unfold checkCondition
  split
  · exact .ok _
  · exact .error (isOwn_atField (by decide))

theorem isOwn_retriesField : Errors IsOwn (retriesField ms) := by
  unfold retriesField
  split
  · exact .error (isOwn_atField (by decide))
  · split
    · split
      · exact .ok _
      · exact .error (isOwn_atField (by decide))
    · exact .error (isOwn_atField (by decide))

theorem isOwn_exhaustionField : Errors IsOwn (exhaustionField ms) := by
  unfold exhaustionField
  split
  · exact .ok _
  · exact .ok _
  · split
    · exact .ok _
    · exact .error (isOwn_atField (by decide))

theorem isOwn_kindField : Errors IsOwn (kindField ms) := by
  unfold kindField
  split
  · exact .ok _
  · exact .ok _
  · split
    · exact .ok _
    · exact .error (isOwn_atField (by decide))
  · exact .error (isOwn_atField (by decide))

theorem isOwn_checkOptional {check : String → Except Fault Unit}
    (h : ∀ s, Errors IsOwn (check s)) (o : Option String) :
    Errors IsOwn (checkOptional check o) := by
  cases o with
  | none => exact .ok _
  | some s => exact h s

theorem isOwn_agentStep : Errors IsOwn (agentStep ms) := by
  rw [agentStep_eq]
  split
  · split
    · exact .error isOwn_here
    · refine .bind (isOwn_checkOptional (fun _ ↦ isOwn_checkCondition) _) fun _ ↦ ?_
      exact .bind (isOwn_checkOptional (fun _ ↦ isOwn_checkKey) _) fun _ ↦ .ok _
  · exact .error isOwn_here

end Validate

/-! ## Faults of steps -/

namespace Step

open Fault

variable {ms : Members Value} {v : Value} {vs : List Value} {f : Fault} {list : String} {i : Nat}

/-- Whatever a step of any kind checks, it checks in its own fields or in its children. -/
theorem isOwn_or_validateChildren :
    Errors (fun f ↦ f.IsOwn ∨ validateChildren ms = .error f) (validate (.object ms)) := by
  have children : Errors (fun f ↦ f.IsOwn ∨ validateChildren ms = .error f)
      (validateChildren ms) := fun _ ↦ .inr
  rw [validate]
  refine .bind (.or_left (isOwn_requiredText (by decide))) fun name ↦ ?_
  refine .bind (.or_left isOwn_kindField) fun kind ↦ ?_
  cases kind with
  | agent => exact .or_left isOwn_agentStep
  | code =>
    refine .bind (.or_left (isOwn_requiredText (by decide))) fun handler ↦ ?_
    refine .bind (.or_left (isOwn_optionalText (by decide))) fun input ↦ ?_
    exact .bind (.or_left isOwn_outputField) fun output ↦ .ok _
  | parallel =>
    exact .bind children fun steps ↦ .bind (.or_left isOwn_outputField) fun output ↦ .ok _
  | loop =>
    refine .bind (.or_left (isOwn_requiredText (by decide))) fun condition ↦ ?_
    refine .bind (.or_left isOwn_checkCondition) fun _ ↦ ?_
    refine .bind (.or_left isOwn_retriesField) fun maxRetries ↦ ?_
    refine .bind (.or_left isOwn_exhaustionField) fun onExhausted ↦ ?_
    exact .bind children fun steps ↦ .ok _
  | perTask =>
    refine .bind (.or_left (isOwn_requiredText (by decide))) fun source ↦ ?_
    exact .bind children fun steps ↦ .ok _

theorem validateChildren_eq_error (h : validateChildren ms = .error f) :
    f.IsOwn ∨ ∃ vs, ms.get? "steps" = some (.array vs) ∧ validateItems "steps" 0 vs = .error f := by
  induction ms with
  | nil =>
    rw [validateChildren] at h
    cases h
    exact .inl (isOwn_atField (by decide))
  | cons m ms ih =>
    obtain ⟨name, v⟩ := m
    rw [validateChildren.eq_def] at h
    rw [Members.get?_cons]
    dsimp only at h
    split at h
    · next hname =>
      rw [if_pos hname]
      cases v with
      | array vs => exact .inr ⟨vs, rfl, h⟩
      | _ =>
        cases h
        exact .inl (isOwn_atField (by decide))
    · next hname =>
      rw [if_neg hname]
      exact ih h

theorem validateItems_eq_error (h : validateItems list i vs = .error f) :
    ∃ j node g, vs[j]? = some node ∧ validate node = .error g ∧
      f = g.under ⟨list, some (i + j)⟩ := by
  induction vs generalizing i f with
  | nil =>
    rw [validateItems] at h
    cases h
  | cons v vs ih =>
    rw [validateItems] at h
    cases hv : validate v with
    | error g =>
      rw [hv] at h
      cases h
      exact ⟨0, v, g, rfl, hv, rfl⟩
    | ok s =>
      rw [hv] at h
      obtain ⟨j, node, g, hnode, hg, rfl⟩ := ih (eq_error_of_bind_ok h)
      refine ⟨j + 1, node, g, hnode, hg, ?_⟩
      rw [Nat.add_right_comm, Nat.add_assoc]

/-- A fault is that of the node at a place, and the node alone has it in its own fields. -/
structure Blames (v : Value) (f : Fault) (ps : List Place) (node : Value) (own : Fault) : Prop where
  place_eq : f.place = ps ++ own.place
  cause_eq : f.cause = own.cause
  reached : nodeAt? ps v = some node
  rejected : validate node = .error own
  isOwn : own.IsOwn

theorem Blames.under {p : Place} {ps : List Place} {w node : Value} {own : Fault}
    (h : Blames w f ps node own) (hp : p.valueIn? v = some w) :
    Blames v (f.under p) (p :: ps) node own where
  place_eq := congrArg (p :: ·) h.place_eq
  cause_eq := h.cause_eq
  reached := (nodeAt?_cons hp).trans h.reached
  rejected := h.rejected
  isOwn := h.isOwn

theorem Blames.self (h : validate v = .error f) (hf : f.IsOwn) : Blames v f [] v f :=
  ⟨rfl, rfl, rfl, h, hf⟩

/-- A fault of a step is that of a step inside it. -/
theorem exists_blamed (h : validate v = .error f) :
    ∃ (js : List Nat) (node : Value) (own : Fault), Blames v f (js.map stepAt) node own := by
  -- the place of the fault gets shorter on the way down
  induction hplace : f.place generalizing v f with
  | nil => exact ⟨[], v, f, .self h fun p hp ↦ nomatch hplace ▸ hp⟩
  | cons p ps ih =>
    cases v with
    | object ms =>
      rcases isOwn_or_validateChildren f h with hf | hchildren
      · exact ⟨[], _, f, .self h hf⟩
      rcases validateChildren_eq_error hchildren with hf | ⟨vs, hget, hitems⟩
      · exact ⟨[], _, f, .self h hf⟩
      obtain ⟨j, child, g, hchild, hg, rfl⟩ := validateItems_eq_error hitems
      obtain ⟨js, node, own, hblames⟩ := ih hg (List.cons.inj hplace).2
      rw [Nat.zero_add]
      exact ⟨j :: js, node, own, hblames.under ((valueIn?_of_get? hget j).trans hchild)⟩
    | _ =>
      rw [validate] at h
      · cases h
        cases hplace
      · exact nofun

/-! ## Steps that were read -/

theorem exists_item_of_validateItems {ss : List Step} (h : validateItems list i vs = .ok ss)
    {j : Nat} {s : Step} (hs : ss[j]? = some s) :
    ∃ node, vs[j]? = some node ∧ validate node = .ok s := by
  induction vs generalizing i ss j with
  | nil =>
    rw [validateItems] at h
    cases h
    cases hs
  | cons v vs ih =>
    rw [validateItems] at h
    split at h
    · cases h
    · next t ht =>
      obtain ⟨ss', hss', h⟩ := exists_of_bind_eq_ok h
      cases h
      cases j with
      | zero =>
        cases hs
        exact ⟨v, rfl, ht⟩
      | succ j => exact ih hss' hs

theorem children_of_validate {s : Step} (h : validate (.object ms) = .ok s) :
    s.children = [] ∨ validateChildren ms = .ok s.children := by
  rw [validate] at h
  obtain ⟨name, -, h⟩ := exists_of_bind_eq_ok h
  obtain ⟨kind, -, h⟩ := exists_of_bind_eq_ok h
  cases kind with
  | agent =>
    obtain ⟨-, a, -, -, -, rfl⟩ := agentStep_eq_ok.1 h
    exact .inl rfl
  | code =>
    obtain ⟨handler, -, h⟩ := exists_of_bind_eq_ok h
    obtain ⟨input, -, h⟩ := exists_of_bind_eq_ok h
    obtain ⟨output, -, h⟩ := exists_of_bind_eq_ok h
    cases h
    exact .inl rfl
  | parallel =>
    obtain ⟨steps, hsteps, h⟩ := exists_of_bind_eq_ok h
    obtain ⟨output, -, h⟩ := exists_of_bind_eq_ok h
    cases h
    exact .inr hsteps
  | loop =>
    obtain ⟨condition, -, h⟩ := exists_of_bind_eq_ok h
    obtain ⟨⟨⟩, -, h⟩ := exists_of_bind_eq_ok h
    obtain ⟨maxRetries, -, h⟩ := exists_of_bind_eq_ok h
    obtain ⟨onExhausted, -, h⟩ := exists_of_bind_eq_ok h
    obtain ⟨steps, hsteps, h⟩ := exists_of_bind_eq_ok h
    cases h
    exact .inr hsteps
  | perTask =>
    obtain ⟨source, -, h⟩ := exists_of_bind_eq_ok h
    obtain ⟨steps, hsteps, h⟩ := exists_of_bind_eq_ok h
    cases h
    exact .inr hsteps

theorem exists_child {s t : Step} (h : validate v = .ok s) {j : Nat}
    (ht : s.children[j]? = some t) :
    ∃ child, (stepAt j).valueIn? v = some child ∧ validate child = .ok t := by
  cases v with
  | object ms =>
    rcases children_of_validate h with hnone | hchildren
    · rw [hnone] at ht
      cases ht
    · obtain ⟨vs, hget, hitems⟩ := validateChildren_eq_ok.1 hchildren
      obtain ⟨child, hchild, hread⟩ := exists_item_of_validateItems hitems ht
      exact ⟨child, (valueIn?_of_get? hget j).trans hchild, hread⟩
  | _ =>
    rw [validate] at h
    · cases h
    · exact nofun

/-- A step inside a step that was read is what its node alone is read as. -/
theorem exists_node {s t : Step} (h : validate v = .ok s) {js : List Nat}
    (ht : s.inside? js = some t) :
    ∃ node, nodeAt? (js.map stepAt) v = some node ∧ validate node = .ok t := by
  induction js generalizing v s with
  | nil =>
    cases ht
    exact ⟨v, rfl, h⟩
  | cons j js ih =>
    obtain ⟨u, hu, ht⟩ := Option.bind_eq_some_iff.1 ht
    obtain ⟨child, hchild, hread⟩ := exists_child h hu
    obtain ⟨node, hnode, hvalid⟩ := ih hread ht
    exact ⟨node, (nodeAt?_cons hchild).trans hnode, hvalid⟩

end Step

/-! ## Faults of definitions -/

namespace Definition

open Fault

variable {ms : Members Value} {v : Value} {vs : List Value} {f : Fault} {i : Nat}
  {seen : List String}

/-- A fault of the phases is the fault of one of them or a repeated name, after phases that were
read. -/
theorem validatePhases_eq_error (h : validatePhases i seen vs = .error f) :
    ∃ k node, vs[k]? = some node ∧
      (∀ l < k, ∃ phase s, vs[l]? = some phase ∧ Step.validate phase = .ok s) ∧
      ((∃ g, Step.validate node = .error g ∧ f = g.under (phaseAt (i + k))) ∨
        ∃ name, f = ⟨[phaseAt (i + k)], .repeatedPhase name⟩) := by
  have none_before {P : Nat → Prop} : ∀ l < 0, P l := fun l hl ↦ absurd hl (Nat.not_lt_zero l)
  induction vs generalizing i seen f with
  | nil => cases h
  | cons v vs ih =>
    rw [validatePhases] at h
    cases hv : Step.validate v with
    | error g =>
      rw [hv] at h
      cases h
      exact ⟨0, v, rfl, none_before, .inl ⟨g, hv, rfl⟩⟩
    | ok s =>
      rw [hv] at h
      dsimp only at h
      split at h
      · cases h
        exact ⟨0, v, rfl, none_before, .inr ⟨s.name, rfl⟩⟩
      · obtain ⟨k, node, hnode, hbefore, hfault⟩ := ih (eq_error_of_bind_ok h)
        refine ⟨k + 1, node, hnode, fun l hl ↦ ?_, ?_⟩
        · cases l with
          | zero => exact ⟨v, s, rfl, hv⟩
          | succ l => exact hbefore l (Nat.lt_of_succ_lt_succ hl)
        · rwa [Nat.add_right_comm, Nat.add_assoc] at hfault

theorem isOwn_versionField : Errors IsOwn (versionField ms) := by
  unfold versionField
  split
  · split
    · exact .error (isOwn_atField (by decide))
    · exact .ok _
  · exact .ok _
  · exact .error (isOwn_atField (by decide))
  · exact .error (isOwn_atField (by decide))

theorem isOwn_defaultsField : Errors IsOwn (defaultsField ms) := by
  unfold defaultsField
  split
  · exact .ok _
  · exact .ok _
  · exact .mapError fun _ _ ↦ isOwn_atField (by decide)

theorem isOwn_checkSafety {s : Safety} : Errors IsOwn (checkSafety s) := by
  have limit {field : String} {cause : Cause} (hfield : Unbracketed field) :
      IsOwn ⟨[⟨"safety", none⟩, ⟨field, none⟩], cause⟩ :=
    isOwn_under (f := atField field cause) (by decide) (isOwn_atField hfield)
  unfold checkSafety
  split
  · exact .error (limit (by decide))
  · split
    · exact .error (limit (by decide))
    · split
      · exact .error (limit (by decide))
      · exact .ok _

theorem isOwn_safetyField : Errors IsOwn (safetyField ms) := by
  unfold safetyField
  split
  · exact .ok _
  · exact .ok _
  · refine .bind (.mapError fun _ _ ↦ isOwn_atField (by decide)) fun s ↦ ?_
    exact .bind isOwn_checkSafety fun _ ↦ .ok _

/-- A fault of a definition is one of its own fields, or one of its phases. -/
theorem isOwn_or_validatePhases :
    Errors (fun f ↦ f.IsOwn ∨ ∃ vs, Members.get? "phases" ms = some (.array vs) ∧
      validatePhases 0 [] vs = .error f) (validate (.object ms)) := by
  have name : Errors IsOwn ((requiredText ms "name").mapError (·.under ⟨"workflow", none⟩)) :=
    .mapError fun e he ↦ isOwn_under (by decide) (isOwn_requiredText (by decide) e he)
  refine .bind (.or_left name) fun _ ↦ .bind (.or_left isOwn_versionField) fun _ ↦ ?_
  refine .bind (.or_left isOwn_defaultsField) fun _ ↦ ?_
  refine .bind (.or_left isOwn_safetyField) fun _ ↦ .bind ?_ fun _ ↦ .ok _
  unfold phasesField
  split
  · exact .error (.inl (isOwn_atField (by decide)))
  · next vs _ hget => exact fun f hf ↦ .inr ⟨vs, hget, hf⟩
  · exact .error (.inl (isOwn_atField (by decide)))

/-- A fault of a definition is one of its own fields, a repeated name of a phase, or the fault of a
step in a phase after phases that were read. -/
theorem exists_blamed (h : validate v = .error f) :
    f.IsOwn ∨ ∃ i : Nat,
      (∀ k < i, ∃ phase s, nodeAt? [phaseAt k] v = some phase ∧ Step.validate phase = .ok s) ∧
      ((∃ name, f = ⟨[phaseAt i], .repeatedPhase name⟩) ∨
        ∃ (js : List Nat) (node : Value) (own : Fault),
          Step.Blames v f (phaseAt i :: js.map stepAt) node own) := by
  cases v with
  | object ms =>
    rcases isOwn_or_validatePhases f h with hf | ⟨vs, hget, hphases⟩
    · exact .inl hf
    obtain ⟨i, phase, hphase, hbefore, hfault⟩ := validatePhases_eq_error hphases
    have hat (k : Nat) : (phaseAt k).valueIn? (.object ms) = vs[k]? := valueIn?_of_get? hget k
    rw [Nat.zero_add] at hfault
    refine .inr ⟨i, fun k hk ↦ ?_, ?_⟩
    · obtain ⟨phase, s, hphase, hs⟩ := hbefore k hk
      exact ⟨phase, s, nodeAt?_cons ((hat k).trans hphase), hs⟩
    · rcases hfault with ⟨g, hg, rfl⟩ | hrepeated
      · obtain ⟨js, node, own, hblames⟩ := Step.exists_blamed hg
        exact .inr ⟨js, node, own, hblames.under ((hat i).trans hphase)⟩
      · exact .inl hrepeated
  | _ =>
    cases h
    exact .inl (isOwn_atField (by decide))

/-! ## Definitions that were read -/

theorem exists_item_of_validatePhases {ss : List Step} (h : validatePhases i seen vs = .ok ss)
    {k : Nat} {s : Step} (hs : ss[k]? = some s) :
    ∃ node, vs[k]? = some node ∧ Step.validate node = .ok s := by
  induction vs generalizing i seen ss k with
  | nil =>
    cases h
    cases hs
  | cons v vs ih =>
    rw [validatePhases] at h
    split at h
    · cases h
    · next t ht =>
      split at h
      · cases h
      · obtain ⟨ss', hss', h⟩ := exists_of_bind_eq_ok h
        cases h
        cases k with
        | zero =>
          cases hs
          exact ⟨v, rfl, ht⟩
        | succ k => exact ih hss' hs

theorem exists_node {d : Definition} (h : validate v = .ok d) {phase s : Step}
    (hphase : d.phases[i]? = some phase) {js : List Nat} (hs : phase.inside? js = some s) :
    ∃ node, nodeAt? (phaseAt i :: js.map stepAt) v = some node ∧ Step.validate node = .ok s := by
  obtain ⟨ms, vs, rfl, hget, hphases⟩ := exists_phases_of_validate h
  obtain ⟨root, hroot, hread⟩ := exists_item_of_validatePhases hphases hphase
  obtain ⟨node, hnode, hvalid⟩ := Step.exists_node hread hs
  exact ⟨node, (nodeAt?_cons ((valueIn?_of_get? hget i).trans hroot)).trans hnode, hvalid⟩

end Definition

end Workflow
