import Workflow.Proofs.Process.Similar
import Workflow.Step.Behaviour

/-!
# Skipping and disabling

A run can be told to skip agent steps, by their names or because their names say that they check
something. `Step.disable` writes the same into the steps themselves: it turns those agent steps off,
wherever they are. `Step.similar_call` says that a step which is told to skip does what the step
with these parts turned off does when nothing is skipped.

Whether a step is skipped is decided whenever it is called, and what is decided is the same on both
sides at that moment, in every context: `isSome_skipReason_disable`. The reasons are not the same,
and they are all that tells the two sides apart.
-/

namespace Workflow

open Json (Members Value)

/-! ## What is skipped -/

/-- Whether agent steps of a name are skipped, be they turned on or not. -/
def Environment.skips (env : Environment) (name : String) : Bool :=
  env.skippedSteps.contains name || env.skipChecks && isCheckName name

/-- The same environment, in which nothing is skipped. -/
def Environment.unskipping (env : Environment) : Environment :=
  { env with skippedSteps := [], skipChecks := false }

namespace Step

mutual

/-- Turns agent steps of certain names off, at every depth. -/
def disable (skips : String → Bool) : Step → Step
  | agent s => agent { s with enabled := s.enabled && !skips s.name }
  | code s => code s
  | parallel g ss => parallel g (disableAll skips ss)
  | loop l ss => loop l (disableAll skips ss)
  | perTask p ss => perTask p (disableAll skips ss)

def disableAll (skips : String → Bool) : List Step → List Step
  | [] => []
  | s :: ss => s.disable skips :: disableAll skips ss

end

variable {skips : String → Bool}

theorem disableAll_eq_map (ss : List Step) : disableAll skips ss = ss.map (disable skips) := by
  induction ss with
  | nil => rfl
  | cons s ss ih => rw [disableAll, ih, List.map_cons]

@[simp] theorem name_disable (s : Step) : (s.disable skips).name = s.name := by
  cases s <;> rfl

@[simp] theorem kind_disable (s : Step) : (s.disable skips).kind = s.kind := by
  cases s <;> rfl

@[simp] theorem outputKey_disable (s : Step) : (s.disable skips).outputKey = s.outputKey := by
  cases s <;> rfl

theorem agent_disable {s : AgentStep} (h : skips s.name = false) :
    (agent s).disable skips = agent s := by
  simp [disable, h]

end Step

variable {env : Environment}

theorem skipReason_of_skips {s : AgentStep} (h : env.skips s.name = true) (c : Context) :
    (skipReason env c (.agent s)).isSome = true := by
  unfold Environment.skips at h
  rw [skipReason]
  split
  · rfl
  · split
    · rfl
    · next hname =>
      rw [Bool.not_eq_true] at hname
      rw [hname, Bool.false_or] at h
      rw [if_pos h]
      rfl

theorem skipReason_of_not_skips {s : AgentStep} (h : env.skips s.name = false) (c : Context) :
    skipReason env c (.agent s) = skipReason env.unskipping c (.agent s) := by
  obtain ⟨hname, hcheck⟩ := Bool.or_eq_false_iff.1 h
  simp only [skipReason, hname, hcheck, Environment.unskipping, List.contains_nil, Bool.false_and]

theorem isSome_skipReason_disable (env : Environment) (c : Context) (s : Step) :
    (skipReason env.unskipping c (s.disable env.skips)).isSome = (skipReason env c s).isSome := by
  cases s with
  | agent s =>
    cases h : env.skips s.name with
    | true =>
      rw [skipReason_of_skips h, Step.disable]
      simp [skipReason, h]
    | false => rw [Step.agent_disable h, skipReason_of_not_skips h]
  | _ => rfl

theorem agent_disable_of_skipReason {s : AgentStep} {c : Context}
    (h : skipReason env c (.agent s) = none) : (Step.agent s).disable env.skips = .agent s := by
  refine Step.agent_disable ?_
  by_contra hs
  have hsome := skipReason_of_skips (by simpa using hs) c
  rw [h] at hsome
  cases hsome

/-! ## Calls that end in the same way -/

/-- Two calls ended in the same way. -/
def Account.SameEnding (a b : Account) : Prop := a.ending = b.ending

/-- The same happened inside two steps, as far as it is told how calls ended. -/
def Course.Same (x y : Course) : Prop := List.Forall₂ Account.SameEnding x.1 y.1 ∧ x.2 = y.2

theorem Account.sameEnding_mk (s t : Step) (c d : Context) (as bs : List Account)
    (r : Except StepError StepStatus) : SameEnding ⟨s, c, as, r⟩ ⟨t, d, bs, r⟩ := rfl

open Account (SameEnding sameEnding_mk)

theorem Account.SameEnding.error?_eq {a b : Account} (h : a.SameEnding b) :
    a.error? = b.error? := by
  rw [error?, error?, h]

theorem findSome?_error?_eq {as bs : List Account} (h : List.Forall₂ SameEnding as bs) :
    as.findSome? Account.error? = bs.findSome? Account.error? := by
  induction h with
  | nil => rfl
  | cons hab _ ih => rw [List.findSome?_cons, List.findSome?_cons, hab.error?_eq, ih]

theorem Course.Same.refl (x : Course) : x.Same x := ⟨List.forall₂_same.2 fun _ _ ↦ rfl, rfl⟩

/-! ## Before and after -/

theorem similar_reporting {α β : Type} {Q : α → β → Prop} {e e' : Audit.Event} (he : e.Alike e')
    {refused : StepError → α} {refused' : StepError → β} (hr : ∀ e, Q (refused e) (refused' e))
    {p : Process Context α} {q : Process Context β} (h : Process.Similar Eq Q p q) :
    Process.Similar Eq Q (reporting e refused p) (reporting e' refused' q) := by
  refine .report he fun r ↦ ?_
  cases r with
  | none => exact h
  | some reason => exact .done (hr _)

theorem closingEvent_disable (s : Step) {skips : String → Bool} (duration : Nat) (c : Context)
    (r : Except StepError Unit) :
    closingEvent (s.disable skips) duration c r = closingEvent s duration c r := by
  cases r <;> simp only [closingEvent, Step.name_disable, Step.outputKey_disable]

theorem similar_audited {s : Step} {body body' : Process Context Course}
    (hbody : ∀ c, skipReason env c s = none → Process.Similar Eq Course.Same body body') :
    Process.Similar Eq SameEnding (s.audited env body)
      ((s.disable env.skips).audited env.unskipping body') := by
  refine .read fun c _ hc ↦ ?_
  subst hc
  have hskip := isSome_skipReason_disable env c s
  cases hs : skipReason env c s with
  | some reason =>
    rw [hs] at hskip
    obtain ⟨reason', hs'⟩ := Option.isSome_iff_exists.1 hskip
    simp only [hs', Step.name_disable]
    exact similar_reporting (.skipped _ _ _) (fun _ ↦ sameEnding_mk ..) (.done (sameEnding_mk ..))
  | none =>
    rw [hs, Option.isSome_none, Option.isSome_eq_false_iff, Option.isNone_iff_eq_none] at hskip
    simp only [hskip, Step.name_disable, Step.kind_disable]
    refine similar_reporting (.refl _) (fun _ ↦ sameEnding_mk ..) (.clock fun started ↦ ?_)
    refine (hbody c hs).bind fun x y hxy ↦ .clock fun ended ↦ .read fun left _ hleft ↦ ?_
    subst hleft
    rw [closingEvent_disable, hxy.2]
    exact similar_reporting (.refl _) (fun _ ↦ sameEnding_mk ..) (.done (sameEnding_mk ..))

/-! ## The kinds of steps -/

theorem similar_alone (p : Behaviour Unit) : Process.Similar Eq Course.Same p.alone p.alone :=
  (Process.Similar.refl _).mono fun x _ h ↦ h ▸ .refl x

theorem Context.outputs_disableAll (ss : List Step) (skips : String → Bool) (c : Context) :
    c.outputs (Step.disableAll skips ss) = c.outputs ss := by
  simp only [Context.outputs, Step.disableAll_eq_map, List.filterMap_map, Function.comp_def,
    Step.outputKey_disable]

theorem Group.similar_closing (g : Group) (ss : List Step) (skips : String → Bool)
    {inside inside' : List Account} (h : List.Forall₂ SameEnding inside inside') :
    Process.Similar Eq Course.Same (g.closing ss inside)
      (g.closing (Step.disableAll skips ss) inside') := by
  unfold Group.closing
  rw [findSome?_error?_eq h]
  cases inside'.findSome? Account.error? with
  | some e => exact .done ⟨h, rfl⟩
  | none =>
    cases g.output with
    | none => exact .done ⟨h, rfl⟩
    | some key =>
      refine .write (fun c d hcd ↦ ?_) (.done ⟨h, rfl⟩)
      rw [hcd, Context.outputs_disableAll]

variable {body body' : List Account → Process Context Course}

/-- The insides of two loops or iterations are similar, whatever was called before. -/
def SimilarBodies (body body' : List Account → Process Context Course) : Prop :=
  ∀ so so', List.Forall₂ SameEnding so so' → Process.Similar Eq Course.Same (body so) (body' so')

theorem Loop.similar_iterate (l : Loop) (h : SimilarBodies body body') (passes : Nat)
    (again : Bool) (left : Nat) {so so' : List Account} (hso : List.Forall₂ SameEnding so so') :
    Process.Similar Eq Course.Same (l.iterate passes body again left so)
      (l.iterate passes body' again left so') := by
  induction left generalizing again so so' with
  | zero => exact .done ⟨hso, rfl⟩
  | succ left ih =>
    refine .read fun c _ hc ↦ ?_
    subst hc
    split
    · exact .done ⟨hso, rfl⟩
    · refine (h so so' hso).bind fun ⟨so, r⟩ ⟨so', r'⟩ hsame ↦ ?_
      obtain ⟨hso, rfl⟩ : List.Forall₂ SameEnding so so' ∧ r = r' := hsame
      cases r with
      | error e => exact .done ⟨hso, rfl⟩
      | ok _ =>
        refine .read fun c _ hc ↦ ?_
        subst hc
        split
        · exact ih true hso
        · exact .done ⟨hso, rfl⟩

theorem PerTask.similar_iterate (h : SimilarBodies body body') (count index : Nat)
    (tasks : List Value) {so so' : List Account} (hso : List.Forall₂ SameEnding so so') :
    Process.Similar Eq Course.Same (iterate body count index tasks so)
      (iterate body' count index tasks so') := by
  induction tasks generalizing index so so' with
  | nil => exact .done ⟨hso, rfl⟩
  | cons record rest ih =>
    refine .read fun c _ hc ↦ ?_
    subst hc
    -- both forks begin as the same context, and similar processes keep them the same
    refine ((h so so' hso).isolated rfl).bind fun ⟨⟨so, r⟩, fork⟩ ⟨⟨so', r'⟩, fork'⟩ hsame ↦ ?_
    obtain ⟨⟨hso, rfl⟩, rfl⟩ : (List.Forall₂ SameEnding so so' ∧ r = r') ∧ fork = fork' := hsame
    refine .write (fun c d hcd ↦ by rw [hcd]) ?_
    cases r with
    | ok _ => exact ih _ hso
    | error e =>
      dsimp only
      split
      · exact .write (fun c d hcd ↦ by rw [hcd]) (.done ⟨hso, rfl⟩)
      · exact .done ⟨hso, rfl⟩

theorem PerTask.similar_process (p : PerTask) (h : SimilarBodies body body') :
    Process.Similar Eq Course.Same (p.process body) (p.process body') := by
  refine .read fun c _ hc ↦ ?_
  subst hc
  cases p.tasks c with
  | error e => exact .done ⟨.nil, rfl⟩
  | ok tasks => exact similar_iterate h _ _ _ .nil

theorem similarBodies_inOrder {ps qs : List (Process Context Account)}
    (h : List.Forall₂ (Process.Similar Eq SameEnding) ps qs) :
    SimilarBodies (.inOrder Account.error? ps) (.inOrder Account.error? qs) := fun _ _ hso ↦
  Process.Similar.inOrder (fun _ _ hab ↦ hab.error?_eq) h hso

/-! ## Steps -/

namespace Step

mutual

/-- **Skipping and disabling.** A step that is told to skip some of its parts does the same in the
same order as the step with these parts turned off. -/
theorem similar_call (env : Environment) :
    (s : Step) → Process.Similar Eq SameEnding (s.call env)
      ((s.disable env.skips).call env.unskipping)
  | agent s => by
    rw [call, disable, call, ← disable]
    refine similar_audited fun c hc ↦ ?_
    -- a step that is not skipped is not one of those that are turned off
    obtain hs := agent.inj (agent_disable_of_skipReason hc)
    rw [hs]
    exact similar_alone _
  | code s => by
    rw [call, disable, call]
    exact similar_audited fun _ _ ↦ similar_alone _
  | parallel g ss => by
    rw [call, disable, call, ← disable]
    refine similar_audited fun _ _ ↦ ?_
    have harrivals := Process.Similar.arrivals (similar_calls env ss)
    exact harrivals.bind fun _ _ h ↦ g.similar_closing ss _ h
  | loop l ss => by
    rw [call, disable, call, ← disable]
    refine similar_audited fun _ _ ↦ ?_
    exact l.similar_iterate (similarBodies_inOrder (similar_calls env ss)) _ _ _ .nil
  | perTask p ss => by
    rw [call, disable, call, ← disable]
    exact similar_audited fun _ _ ↦ p.similar_process (similarBodies_inOrder (similar_calls env ss))

theorem similar_calls (env : Environment) :
    (ss : List Step) → List.Forall₂ (Process.Similar Eq SameEnding) (calls env ss)
      (calls env.unskipping (disableAll env.skips ss))
  | [] => .nil
  | s :: ss => by
    rw [calls, disableAll, calls]
    exact .cons (similar_call env s) (similar_calls env ss)

end

theorem similar_process (env : Environment) (s : Step) :
    Process.Similar Eq Eq (s.process env) ((s.disable env.skips).process env.unskipping) :=
  (similar_call env s).bind fun _ _ h ↦ .done h

end Step

end Workflow
