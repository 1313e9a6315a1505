import Workflow.DryRun
import Workflow.Proofs.Process.Invariant
import Workflow.Proofs.Step.ChangedFiles

/-!
# Steps in a dry run

In a dry run agents say nothing that counts, and there are no handlers. So the only values are those
that groups gather, and they gather nothing but what other groups have gathered: objects of objects,
down to empty ones. `Context.Hollow` says so of a context, and it is an invariant of every step.

There is no list among such values. So an iteration over tasks never has any, and it fails before a
fork is made; and a code step fails because its handler is unknown. Calls of which all this holds,
and of all calls in them, are `Account.Barren`.
-/

namespace Workflow

open Json (Members Value)

/-! ## Hollow values -/

/-- An object all of whose members are such objects again. -/
inductive Json.Value.Hollow : Value → Prop where
  | object {ms : Members Value} : (∀ m ∈ ms, Hollow m.2) → Hollow (.object ms)

theorem Json.Value.Hollow.of_child? {v u : Value} (h : v.Hollow) {segment : String}
    (hu : v.child? segment = some u) : u.Hollow := by
  cases h with
  | object hms => exact hms _ (Members.mem_of_get? hu)

theorem Json.Value.Hollow.of_descend {v u : Value} (h : v.Hollow) {path : List String}
    (hu : v.descend path = some u) : u.Hollow := by
  induction path generalizing v with
  | nil =>
    cases hu
    exact h
  | cons segment path ih =>
    obtain ⟨w, hw, hu⟩ := Option.bind_eq_some_iff.1 hu
    exact ih (h.of_child? hw) hu

namespace Context

/-- All variables have one of certain names and a hollow value, and no file is changed. -/
structure Hollow (keys : Set String) (c : Context) : Prop where
  vars : ∀ m ∈ c.vars, m.1 ∈ keys ∧ m.2.Hollow
  changedFiles_eq : c.changedFiles = []

variable {keys : Set String} {c : Context}

theorem hollow_empty (keys : Set String) : empty.Hollow keys := ⟨nofun, rfl⟩

theorem Hollow.markCompleted (h : c.Hollow keys) (phase : String) :
    (c.markCompleted phase).Hollow keys := by
  rw [Context.markCompleted]
  split
  · exact h
  · exact ⟨h.vars, h.changedFiles_eq⟩

theorem Hollow.of_get? (h : c.Hollow keys) {path : String} {v : Value}
    (hv : c.get? path = some v) : v.Hollow := by
  rw [get?] at hv
  split at hv
  · next w hw =>
    cases hv
    exact (h.vars _ (Members.mem_of_get? hw)).2
  · split at hv
    · cases hv
    · next root rest _ =>
      obtain ⟨w, hw, hv⟩ := Option.bind_eq_some_iff.1 hv
      exact (h.vars _ (Members.mem_of_get? hw)).2.of_descend hv

theorem Hollow.outputs (h : c.Hollow keys) (ss : List Step) : (c.outputs ss).Hollow := by
  refine .object fun m hm ↦ ?_
  rcases Members.mem_or_mem_of_mem_insertAll hm with hm | hm
  · cases hm
  · obtain ⟨s, -, hs⟩ := List.mem_filterMap.1 hm
    obtain ⟨key, -, hs⟩ := Option.bind_eq_some_iff.1 hs
    obtain ⟨v, hv, hs⟩ := Option.bind_eq_some_iff.1 hs
    cases hs
    exact h.of_get? hv

theorem Hollow.set (h : c.Hollow keys) {key : String} (hkey : key ∈ keys) {v : Value}
    (hv : v.Hollow) : (c.set key v).Hollow keys where
  vars m hm := by
    rcases Members.eq_or_mem_of_mem_insert hm with rfl | hm
    · exact ⟨hkey, hv⟩
    · exact h.vars m hm
  changedFiles_eq := h.changedFiles_eq

/-- There is no list of tasks among hollow values. -/
theorem Hollow.exists_error (h : c.Hollow keys) (p : PerTask) : ∃ e, p.tasks c = .error e := by
  rw [PerTask.tasks]
  split
  · next tasks hv => cases h.of_get? hv
  · exact ⟨_, rfl⟩
  · exact ⟨_, rfl⟩

end Context

/-! ## Barren calls -/

namespace Account

/-- A call in a hollow context, which fails at once if it is that of a code step or of an iteration
over tasks. -/
structure Idle (keys : Set String) (a : Account) : Prop where
  context : a.context.Hollow keys
  fails : a.step.kind = .code ∨ a.step.kind = .perTask →
    (∃ e, a.ending = .error e) ∧ a.inside = []

/-- A call is idle, and so are all calls in it. -/
def Barren (keys : Set String) (a : Account) : Prop := ∀ b : Account, b.Within a → b.Idle keys

end Account

/-- What is inside a step when its call is barren. -/
structure Step.YieldsNothing (keys : Set String) (s : Step) (course : Course) : Prop where
  inside : ∀ b ∈ course.1, b.Barren keys
  fails : s.kind = .code ∨ s.kind = .perTask → (∃ e, course.2 = .error e) ∧ course.1 = []

variable {keys : Set String} {s : Step} {c : Context}

theorem Step.YieldsNothing.barren {inside : List Account} {r : Except StepError Unit}
    (h : s.YieldsNothing keys (inside, r)) (hc : c.Hollow keys)
    {ending : Except StepError StepStatus}
    (hending : ∀ e, r = .error e → ∃ e', ending = .error e') :
    Account.Barren keys ⟨s, c, inside, ending⟩ := by
  intro b hb
  cases hb with
  | refl =>
    refine ⟨hc, fun hkind ↦ ?_⟩
    obtain ⟨⟨e, he⟩, hnone⟩ := h.fails hkind
    exact ⟨hending e he, hnone⟩
  | inside hmem hb => exact h.inside _ hmem b hb

theorem Step.barren_of_nil (hc : c.Hollow keys) {ending : Except StepError StepStatus}
    (hending : s.kind = .code ∨ s.kind = .perTask → ∃ e, ending = .error e) :
    Account.Barren keys ⟨s, c, [], ending⟩ := by
  intro b hb
  cases hb with
  | refl => exact ⟨hc, fun hkind ↦ ⟨hending hkind, rfl⟩⟩
  | inside hmem _ => cases hmem

/-! ## What is heard -/

/-- If a reply comes, all that it has on the way are system messages. -/
def Settlement.Dry (r : Settlement) : Prop :=
  ∀ reply, r = .replied reply → ∀ m ∈ reply.messages, ∃ subtype data, m = .system subtype data

theorem DryRun.answersBy_dry : DryRun.world.AnswersBy Settlement.Dry where
  call := by
    rintro (request | ⟨id, snapshot, input⟩) limit log r hr reply rfl m hm
    · cases hr
      exact ⟨_, _, List.mem_singleton.1 hm⟩
    · cases hr
      cases hm
  settle := by
    intro ts log t r hr
    cases hr

/-- System messages say nothing that counts. -/
theorem Context.takeOutcome_of_dry {ms : List Dispatch.Message}
    (h : ∀ m ∈ ms, ∃ subtype data, m = .system subtype data) (step : AgentStep) (c : Context) :
    c.takeOutcome step (.ofMessages ms) = c := by
  have hfiles : ms.filterMap Dispatch.Message.changedFile = [] :=
    List.filterMap_eq_nil_iff.2 fun m hm ↦ by
      obtain ⟨subtype, data, rfl⟩ := h m hm
      rfl
  have hpayloads : ms.filterMap Dispatch.Message.payload? = [] :=
    List.filterMap_eq_nil_iff.2 fun m hm ↦ by
      obtain ⟨subtype, data, rfl⟩ := h m hm
      rfl
  rw [takeOutcome, Dispatch.changedFiles_ofMessages, Dispatch.output_ofMessages,
    Dispatch.lastPayload?, hfiles, hpayloads]
  rfl

/-! ## Processes -/

variable {env : Environment}

/-- A process keeps the context hollow in a dry run. -/
abbrev Process.KeepsHollow {α : Type} (keys : Set String) (p : Process Context α) (Q : α → Prop) :
    Prop :=
  p.Upholds (Context.Hollow keys) Settlement.Dry Q

theorem AgentStep.keepsHollow (s : AgentStep) : (s.process env).KeepsHollow keys fun _ ↦ True := by
  unfold AgentStep.process
  split
  · trivial
  · dsimp only
    split
    · trivial
    · intro c _
      refine (Process.Upholds.settle _ _).bind fun r hr ↦ ?_
      cases r with
      | replied reply =>
        dsimp only
        split
        · trivial
        · refine ⟨fun d hd ↦ ?_, trivial⟩
          rwa [Context.takeOutcome_of_dry (hr reply rfl)]
      | timedOut _ | cancelled => trivial

theorem CodeStep.keepsHollow (henv : env.handlers = []) (s : CodeStep) :
    (s.process env).KeepsHollow keys fun r ↦ ∃ e, r = .error e := by
  rw [CodeStep.process, henv]
  exact ⟨_, rfl⟩

theorem keepsHollow_reporting {α : Type} {Q : α → Prop} {e : Audit.Event} {refused : StepError → α}
    {next : Process Context α} (hrefused : ∀ reason, Q (refused (.audit reason)))
    (hnext : next.KeepsHollow keys Q) : (reporting e refused next).KeepsHollow keys Q := by
  intro answer
  cases answer with
  | none => exact hnext
  | some reason => exact hrefused reason

theorem keepsHollow_audited {body : Process Context Course}
    (hbody : body.KeepsHollow keys (s.YieldsNothing keys)) :
    (s.audited env body).KeepsHollow keys (Account.Barren keys) := by
  intro c hc
  dsimp only
  split
  · next reason hskip =>
    obtain ⟨t, rfl⟩ := skipReason_eq_some hskip
    exact keepsHollow_reporting (fun _ ↦ Step.barren_of_nil hc fun _ ↦ ⟨_, rfl⟩)
      (Step.barren_of_nil hc fun hkind ↦ hkind.elim nofun nofun)
  · refine keepsHollow_reporting (fun _ ↦ Step.barren_of_nil hc fun _ ↦ ⟨_, rfl⟩) fun started ↦ ?_
    refine hbody.bind fun course hcourse ended left _ ↦ ?_
    refine keepsHollow_reporting (fun _ ↦ hcourse.barren hc fun _ _ ↦ ⟨_, rfl⟩) ?_
    refine hcourse.barren hc fun e he ↦ ⟨e, ?_⟩
    rw [he]
    rfl

theorem Group.keepsHollow (g : Group) (ss : List Step)
    (hkey : ∀ key, g.output = some key → key ∈ keys)
    {children : List (Process Context Account)}
    (hchildren : ∀ p ∈ children, p.KeepsHollow keys (Account.Barren keys)) :
    (g.process ss children).KeepsHollow keys fun course ↦ ∀ b ∈ course.1, b.Barren keys := by
  refine (Process.Upholds.arrivals hchildren).bind fun inside hinside ↦ ?_
  unfold Group.closing
  split
  · exact hinside
  · split
    · next key hg => exact ⟨fun c hc ↦ hc.set (hkey key hg) (hc.outputs ss), hinside⟩
    · exact hinside

theorem Loop.keepsHollow {P : Account → Prop} {body : List Account → Process Context Course}
    (hbody : ∀ so, (∀ b ∈ so, P b) → (body so).KeepsHollow keys fun course ↦ ∀ b ∈ course.1, P b)
    (l : Loop) (passes : Nat) (again : Bool) (left : Nat) {so : List Account}
    (hso : ∀ b ∈ so, P b) :
    (l.iterate passes body again left so).KeepsHollow keys fun course ↦ ∀ b ∈ course.1, P b := by
  induction left generalizing again so with
  | zero => exact hso
  | succ left ih =>
    intro c _
    dsimp only
    split
    · exact hso
    · refine (hbody so hso).bind fun course hcourse ↦ ?_
      obtain ⟨out, _ | _⟩ := course
      · exact hcourse
      · intro d _
        dsimp only
        split
        · exact ih true hcourse
        · exact hcourse

theorem PerTask.keepsHollow (p : PerTask) (body : List Account → Process Context Course) :
    (p.process body).KeepsHollow keys fun course ↦
      (∃ e, course.2 = .error e) ∧ course.1 = [] := by
  intro c hc
  obtain ⟨e, he⟩ := hc.exists_error p
  dsimp only
  rw [he]
  exact ⟨⟨e, rfl⟩, rfl⟩

/-! ## Steps -/

namespace Step

/-- The names of the variables for what the groups in a step gather. -/
def groupOutputs (s : Step) : Set String :=
  {key | ∃ g ss, (parallel g ss).Inside s ∧ g.output = some key}

theorem groupOutputs_subset_of_mem {t : Step} (h : t ∈ s.children) :
    t.groupOutputs ⊆ s.groupOutputs := by
  rintro key ⟨g, ss, hg, hkey⟩
  exact ⟨g, ss, .child h hg, hkey⟩

mutual

/-- **Dry runs of steps.** A step keeps the context hollow, and its call is barren. -/
theorem keepsHollow_call (henv : env.handlers = []) :
    (s : Step) → s.groupOutputs ⊆ keys → (s.call env).KeepsHollow keys (Account.Barren keys)
  | agent s, _ => by
    rw [call]
    refine keepsHollow_audited (s.keepsHollow.bind fun r _ ↦ ?_)
    exact ⟨nofun, fun hkind ↦ hkind.elim nofun nofun⟩
  | code s, _ => by
    rw [call]
    exact keepsHollow_audited ((s.keepsHollow henv).bind fun r hr ↦ ⟨nofun, fun _ ↦ ⟨hr, rfl⟩⟩)
  | parallel g ss, hs => by
    rw [call]
    have hchildren := keepsHollow_calls henv ss fun t ht ↦ (groupOutputs_subset_of_mem ht).trans hs
    have hkey : ∀ key, g.output = some key → key ∈ keys := fun key h ↦ hs ⟨g, ss, .refl, h⟩
    refine keepsHollow_audited ((g.keepsHollow ss hkey hchildren).mono fun course hcourse ↦ ?_)
    exact ⟨hcourse, fun hkind ↦ hkind.elim nofun nofun⟩
  | loop l ss, hs => by
    rw [call]
    have hchildren := keepsHollow_calls henv ss fun t ht ↦ (groupOutputs_subset_of_mem ht).trans hs
    have hnone : ∀ b ∈ ([] : List Account), b.Barren keys := nofun
    have hloop := Loop.keepsHollow (fun so hso ↦ .inOrder Account.error? hchildren hso) l
      (l.passes env.maxLoopRetries) false (l.passes env.maxLoopRetries) hnone
    refine keepsHollow_audited (hloop.mono fun course hcourse ↦ ?_)
    exact ⟨hcourse, fun hkind ↦ hkind.elim nofun nofun⟩
  | perTask p ss, _ => by
    rw [call]
    refine keepsHollow_audited ((p.keepsHollow _).mono fun course hcourse ↦ ?_)
    exact ⟨hcourse.2 ▸ nofun, fun _ ↦ hcourse⟩

theorem keepsHollow_calls (henv : env.handlers = []) :
    (ss : List Step) → (∀ t ∈ ss, t.groupOutputs ⊆ keys) →
      ∀ p ∈ calls env ss, p.KeepsHollow keys (Account.Barren keys)
  | [], _ => by simp [calls]
  | s :: ss, hs => by
    obtain ⟨hs, hss⟩ := List.forall_mem_cons.1 hs
    rw [calls]
    exact List.forall_mem_cons.2 ⟨keepsHollow_call henv s hs, keepsHollow_calls henv ss hss⟩

end

end Step

end Workflow
