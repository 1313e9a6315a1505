import Workflow.Proofs.Account.Marking
import Workflow.Proofs.Json.Members
import Workflow.Proofs.Process.Discipline
import Workflow.Proofs.Process.Recording
import Workflow.Proofs.Step.Inside
import Workflow.Rehearsal

/-!
# How contexts grow

No step takes anything away from the context: variables are set under the names that the steps are
told to write to, files are added, and nothing else changes but the task that a pause happened in.
`Context.Grows` says so of two contexts.

That a step lets the context grow is not a matter of its writes alone. An iteration folds its fork
back into a context that other steps have changed in the meantime, and the fork has all the
variables that there were when it was made. They are not new ones, because none of them can have
been removed since. So the steps side by side have to rely on each other, and growth is a discipline
that all of them follow: `Step.telling_call`. Its marks are the tasks that are remembered on account
of a pause, and they are those that the account of the call tells.

`Context.Framed` is what a walk over phases needs to know of it: no step completes a phase, none
leaves a task at hand that was not there before, and the changed files stay in order.
-/

namespace Workflow

open Json (Members Value)

namespace Context

/-- A context remembers one of certain tasks for a pause; and if there are none of them, whatever it
was that another context remembers. -/
def Remembers (marks : Set String) (c d : Context) : Prop :=
  marks = ∅ ∧ d.pausedTask = c.pausedTask ∨ ∃ id ∈ marks, d.pausedTask = some id

/-- What stays of a context, whatever a step does. -/
structure Framed (c d : Context) : Prop where
  completedPhases_eq : d.completedPhases = c.completedPhases
  task_eq : d.task = c.task
  sorted : c.changedFiles.Sorted → d.changedFiles.Sorted

theorem Framed.refl (c : Context) : Framed c c := ⟨rfl, rfl, id⟩

/-- A context has grown: variables of certain names were set and files were added, and of certain
tasks, if there are any, one is remembered for a pause. -/
structure Grows (keys marks : Set String) (c d : Context) : Prop extends Framed c d where
  contains : ∀ name, c.contains name = true → d.contains name = true
  get?_eq : ∀ name ∉ keys, d.vars.get? name = c.vars.get? name
  changedFiles : c.changedFiles ⊆ d.changedFiles
  pausedTask : Remembers marks c d

variable {keys marks marks' : Set String} {c d e : Context}

theorem remembers_of_eq (h : d.pausedTask = c.pausedTask) : Remembers ∅ c d := .inl ⟨rfl, h⟩

theorem Remembers.trans (h : Remembers marks c d) (h' : Remembers marks' d e) :
    Remembers (marks ∪ marks') c e := by
  rcases h' with ⟨rfl, hsame⟩ | ⟨id, hid, heq⟩
  · rw [Set.union_empty, Remembers, hsame]
    exact h
  · exact .inr ⟨id, .inr hid, heq⟩

theorem Remembers.mem (h : Remembers marks c d) (hmarks : marks.Nonempty) {id : String}
    (hid : d.pausedTask = some id) : id ∈ marks := by
  rcases h with ⟨hempty, -⟩ | ⟨id', hid', hsome⟩
  · exact absurd hempty hmarks.ne_empty
  · cases hid.symm.trans hsome
    exact hid'

theorem Remembers.eq_none_iff (h : Remembers marks c d) (hc : c.pausedTask = none) :
    d.pausedTask = none ↔ marks = ∅ := by
  rcases h with ⟨hempty, hsame⟩ | ⟨id, hid, hsome⟩
  · exact iff_of_true (hsame.trans hc) hempty
  · rw [hsome]
    exact iff_of_false (Option.some_ne_none id) (Set.nonempty_of_mem hid).ne_empty

theorem Grows.refl (c : Context) : Grows keys ∅ c c where
  contains _ h := h
  get?_eq _ _ := rfl
  changedFiles := List.Subset.refl _
  sorted := id
  completedPhases_eq := rfl
  task_eq := rfl
  pausedTask := remembers_of_eq rfl

theorem Grows.trans (h : Grows keys marks c d) (h' : Grows keys marks' d e) :
    Grows keys (marks ∪ marks') c e where
  contains name hname := h'.contains name (h.contains name hname)
  get?_eq name hname := (h'.get?_eq name hname).trans (h.get?_eq name hname)
  changedFiles := List.Subset.trans h.changedFiles h'.changedFiles
  sorted := h'.sorted ∘ h.sorted
  completedPhases_eq := h'.completedPhases_eq.trans h.completedPhases_eq
  task_eq := h'.task_eq.trans h.task_eq
  pausedTask := h.pausedTask.trans h'.pausedTask

theorem Grows.trans_empty (h : Grows keys ∅ c d) (h' : Grows keys ∅ d e) : Grows keys ∅ c e := by
  rw [← Set.union_empty ∅]
  exact h.trans h'

/-- Growth is a discipline. -/
def growth (keys : Set String) : Discipline Context (Set String) where
  Change := Grows keys
  refl := Grows.refl
  trans := Grows.trans

/-! ## What lets a context grow -/

theorem contains_iff {name : String} : c.contains name = true ↔ (c.vars.get? name).isSome = true :=
  Iff.rfl

theorem grows_set {key : String} (hkey : key ∈ keys) (v : Value) (c : Context) :
    Grows keys ∅ c (c.set key v) where
  contains name h := by
    rw [Context.contains, set, Members.contains_insert]
    exact Bool.or_eq_true_iff.2 (.inr h)
  get?_eq name hname := by
    rw [set, Members.get?_insert, if_neg]
    rintro rfl
    exact hname hkey
  changedFiles := List.Subset.refl _
  sorted := id
  completedPhases_eq := rfl
  task_eq := rfl
  pausedTask := remembers_of_eq rfl

theorem grows_addFile (path : String) (c : Context) : Grows keys ∅ c (c.addFile path) where
  contains _ h := h
  get?_eq _ _ := rfl
  changedFiles _ h := Text.NameSet.mem_insert.2 (.inr h)
  sorted h := h.insert
  completedPhases_eq := rfl
  task_eq := rfl
  pausedTask := remembers_of_eq rfl

theorem grows_addFiles (paths : List String) (c : Context) :
    Grows keys ∅ c (c.addFiles paths) := by
  induction paths generalizing c with
  | nil => exact .refl c
  | cons path paths ih => exact (grows_addFile path c).trans_empty (ih _)

theorem grows_takeOutcome {s : AgentStep} (hkey : s.output.getD s.name ∈ keys)
    (o : Dispatch.Outcome) (c : Context) : Grows keys ∅ c (c.takeOutcome s o) := by
  unfold takeOutcome
  have hfiles : Grows keys ∅ c (c.addFiles o.changedFiles) := grows_addFiles _ c
  cases o.output with
  | none => exact hfiles
  | some v => exact (hfiles.trans_empty (grows_addFiles _ _)).trans_empty (grows_set hkey v _)

theorem grows_takeValue {s : CodeStep} (hkey : ∀ key, s.output = some key → key ∈ keys) (v : Value)
    (c : Context) : Grows keys ∅ c (c.takeValue s v) := by
  unfold takeValue
  split
  · exact .refl c
  · have hfiles : Grows keys ∅ c (c.addFiles (namedFiles v)) := grows_addFiles _ c
    cases ho : s.output with
    | none => exact hfiles
    | some key => exact hfiles.trans_empty (grows_set (hkey key ho) v _)

theorem grows_markPaused (task : String) (c : Context) :
    Grows keys {task} c (c.markPaused task) where
  contains _ h := h
  get?_eq _ _ := rfl
  changedFiles := List.Subset.refl _
  sorted := id
  completedPhases_eq := rfl
  task_eq := rfl
  pausedTask := .inr ⟨task, rfl, rfl⟩

/-- A fork that has grown by itself may be folded back into what the context has grown to. -/
theorem grows_merge {task : Task} {fork : Context} (hd : (growth keys).Later c d)
    (hfork : Grows keys marks (c.fork task) fork) : Grows keys ∅ d (d.merge fork) where
  contains name h := by
    rw [contains_iff, merge, Members.get?_union, Option.isSome_or]
    exact Bool.or_eq_true_iff.2 (.inl h)
  get?_eq name hname := by
    rw [merge, Members.get?_union]
    obtain ⟨_, hd⟩ := hd
    -- a variable that the fork did not set is one that there was when it was made
    rw [hfork.get?_eq name hname, show (c.fork task).vars = c.vars from rfl, hd.get?_eq name hname,
      Option.or_self]
  changedFiles _ h := Text.NameSet.mem_insertAll.2 (.inl h)
  sorted h := h.insertAll
  completedPhases_eq := rfl
  task_eq := rfl
  pausedTask := remembers_of_eq rfl

end Context

open Context (growth)

variable {env : Environment} {keys : Set String} {c : Context}

/-! ## Before and after -/

/-- What is to be known of what happens inside a step: the marks are those of its account, and the
account fits the step. -/
structure Step.Yields (s : Step) (marks : Set String) (course : Course) : Prop where
  marks_eq : ∀ c r, marks = Account.marks ⟨s, c, course.1, r⟩
  regular : ∀ b ∈ course.1, b.Regular
  isPause_eq : s.kind = .agent ∨ s.kind = .code → ∀ e, course.2 = .error e → e.isPause = false
  exists_task : s.kind = .perTask → ∀ b ∈ course.1, ∃ τ, b.context.task = some τ

/-- What is to be known of a call. -/
structure Account.Tells (a : Account) (c : Context) (marks : Set String) : Prop where
  context_eq : a.context = c
  marks_eq : marks = a.marks
  regular : a.Regular

theorem Step.Yields.tells {s : Step} {marks : Set String} {course : Course}
    (h : s.Yields marks course) (c : Context) {r : Except StepError StepStatus}
    (hr : ∀ e, r = .error e → course.2 = .error e ∨ e.isPause = false) :
    Account.Tells ⟨s, c, course.1, r⟩ c marks where
  context_eq := rfl
  marks_eq := h.marks_eq c r
  regular := by
    refine Account.regular_of_fits ⟨fun hkind e he ↦ ?_, h.exists_task⟩ h.regular
    rcases hr e (Account.error?_eq_some.1 he) with hcourse | hpause
    · exact h.isPause_eq hkind e hcourse
    · exact hpause

theorem marks_eq_empty (s : Step) (c : Context) (r : Except StepError StepStatus) :
    Account.marks ⟨s, c, [], r⟩ = ∅ := by
  by_cases h : s.kind = .perTask
  · rw [Account.marks_of_kind_eq (a := ⟨s, c, [], r⟩) h]
    exact Account.stopped_nil
  · rw [Account.marks_of_kind_ne (a := ⟨s, c, [], r⟩) h]
    simp [Account.inside]

theorem Step.tells_of_nil (s : Step) (c : Context) {r : Except StepError StepStatus}
    (hr : ∀ e, r = .error e → e.isPause = false) : Account.Tells ⟨s, c, [], r⟩ c ∅ where
  context_eq := rfl
  marks_eq := (marks_eq_empty s c r).symm
  regular := by
    refine Account.regular_of_fits ⟨fun _ e he ↦ ?_, fun _ b hb ↦ nomatch hb⟩ nofun
    exact hr e (Account.error?_eq_some.1 he)

theorem follows_reporting {α : Type} {Q : Set String → Context → α → Prop} {e : Audit.Event}
    {refused : StepError → α} {next : Process Context α}
    (hrefused : ∀ reason, Q ∅ c (refused (.audit reason)))
    (hnext : next.Follows (growth keys) Q c) :
    (reporting e refused next).Follows (growth keys) Q c := by
  intro answer
  cases answer with
  | none => exact hnext
  | some reason => exact hrefused reason

theorem follows_audited {s : Step} {body : Process Context Course}
    (hbody : body.Follows (growth keys) (fun I _ course ↦ s.Yields I course) c) :
    (s.audited env body).Follows (growth keys) (fun I _ a ↦ a.Tells c I) c := by
  rw [Step.audited, Process.Follows]
  split
  · exact follows_reporting (fun reason ↦ s.tells_of_nil c (by rintro _ ⟨⟩; rfl))
      (s.tells_of_nil c nofun)
  · refine follows_reporting (fun reason ↦ s.tells_of_nil c (by rintro _ ⟨⟩; rfl)) fun started ↦ ?_
    refine Process.Follows.bind (hbody.mono fun I t course hcourse ended ↦ ?_)
    dsimp only [Process.Follows]
    -- the reports after the end leave no marks of their own
    refine follows_reporting (fun reason ↦ ?_) ?_
    · rw [← Set.bot_eq_empty, sup_bot_eq]
      exact hcourse.tells c (by rintro _ ⟨⟩; exact .inr rfl)
    · change Account.Tells _ c (I ⊔ ⊥)
      rw [sup_bot_eq]
      refine hcourse.tells c fun e he ↦ ?_
      cases hr : course.2 with
      | ok _ =>
        rw [hr] at he
        cases he
      | error e' =>
        rw [hr] at he
        cases he
        exact .inl rfl

/-! ## Steps without steps inside -/

/-- A behaviour lets the context grow without a mark, and it does not pause. -/
def Behaviour.Tame (keys : Set String) (c : Context) (p : Behaviour Unit) : Prop :=
  p.Follows (growth keys) (fun I _ r ↦ I = ∅ ∧ ∀ e, r = .error e → e.isPause = false) c

theorem tame_error {e : StepError} (h : e.isPause = false) :
    Behaviour.Tame keys c (.done (.error e)) :=
  ⟨rfl, by rintro _ ⟨⟩; exact h⟩

theorem tame_write {f : Context → Context} (h : Context.Grows keys ∅ c (f c)) :
    Behaviour.Tame keys c (.write f (.done (.ok ()))) :=
  ⟨∅, h, sup_bot_eq _, nofun⟩

theorem tame_read {k : Context → Behaviour Unit} (h : (k c).Tame keys c) :
    Behaviour.Tame keys c (.read k) := h

theorem tame_calling {step : String} {call : Call} {next : Reply → Behaviour Unit}
    (hnext : ∀ reply d, (next reply).Tame keys d) : (calling env step call next).Tame keys c := by
  refine Process.Follows.bind (Process.Follows.settle call _ fun d r _ ↦ ?_)
  simp only [bot_sup_eq]
  cases r with
  | replied reply => exact hnext reply d
  | timedOut _ | cancelled => exact tame_error rfl

theorem AgentStep.tame_process {s : AgentStep} (hkey : s.output.getD s.name ∈ keys) :
    (s.process env).Tame keys c := by
  unfold AgentStep.process
  split
  · exact tame_error rfl
  · dsimp only
    split
    · exact tame_error rfl
    · refine tame_read (tame_calling fun reply d ↦ ?_)
      split
      · exact tame_error rfl
      · exact tame_write (Context.grows_takeOutcome hkey _ d)

theorem CodeStep.tame_process {s : CodeStep} (hkey : ∀ key, s.output = some key → key ∈ keys) :
    (s.process env).Tame keys c := by
  unfold CodeStep.process
  split
  · exact tame_error rfl
  · refine tame_read (tame_calling fun reply d ↦ ?_)
    split
    · exact tame_error rfl
    · exact tame_write (Context.grows_takeValue hkey _ d)

theorem follows_alone (s : Step) {p : Behaviour Unit} (hp : p.Tame keys c) :
    p.alone.Follows (growth keys) (fun I _ course ↦ s.Yields I course) c := by
  refine Process.Follows.bind (hp.mono fun I t r hr ↦ ?_)
  obtain ⟨rfl, hpause⟩ := hr
  exact {
    marks_eq d r := (sup_bot_eq _).trans (marks_eq_empty s d r).symm
    regular := nofun
    isPause_eq _ := hpause
    exists_task _ := nofun }

/-! ## Steps in turn -/

@[simp] theorem marksOf_nil : marksOf Account.marks [] = ∅ := by simp [marksOf]

@[simp] theorem marksOf_cons (a : Account) (as : List Account) :
    marksOf Account.marks (a :: as) = a.marks ∪ marksOf Account.marks as := by
  ext id
  simp [marksOf]

@[simp] theorem marksOf_append (as bs : List Account) :
    marksOf Account.marks (as ++ bs) = marksOf Account.marks as ∪ marksOf Account.marks bs := by
  ext id
  simp [marksOf, or_and_right, exists_or]

/-- A call follows the growth, and tells of what it did, wherever it begins. -/
def Process.Telling (keys : Set String) (p : Process Context Account) : Prop :=
  ∀ c, p.Follows (growth keys) (fun I _ a ↦ a.Tells c I) c

/-- What is to be known of the calls that are added by one pass, with a task at hand or none. -/
def Course.Adds (task : Option Task) (so : List Account) (marks : Set String) (course : Course) :
    Prop :=
  ∃ more, course.1 = so ++ more ∧ marks = marksOf Account.marks more ∧
    (∀ b ∈ more, b.context.task = task ∧ b.Regular) ∧ course.2 = firstError more

theorem follows_inOrder {ps : List (Process Context Account)} (hps : ∀ p ∈ ps, p.Telling keys)
    (so : List Account) :
    (Process.inOrder Account.error? ps so).Follows (growth keys)
      (fun I _ course ↦ Course.Adds c.task so I course) c := by
  induction ps generalizing so c with
  | nil => exact ⟨[], (List.append_nil so).symm, marksOf_nil.symm, nofun, rfl⟩
  | cons p ps ih =>
    refine Process.Follows.bind ((hps p List.mem_cons_self c).later.mono fun I t a ha ↦ ?_)
    obtain ⟨⟨_, hgrown⟩, hctx, rfl, hregular⟩ := ha
    have htask : a.context.task = c.task := congrArg Context.task hctx
    cases he : a.error? with
    | some e =>
      refine ⟨[a], rfl, by simp, by simpa using ⟨htask, hregular⟩, ?_⟩
      rw [firstError, List.findSome?_cons, he]
    | none =>
      have hrest := ih (c := t) (fun q hq ↦ hps q (List.mem_cons_of_mem _ hq)) (so ++ [a])
      refine hrest.mono fun J _ course hcourse ↦ ?_
      obtain ⟨more, hout, rfl, hmore, hfirst⟩ := hcourse
      rw [hgrown.task_eq] at hmore
      refine ⟨a :: more, by rw [hout, List.append_assoc]; rfl, (marksOf_cons a more).symm,
        List.forall_mem_cons.2 ⟨⟨htask, hregular⟩, hmore⟩, ?_⟩
      rw [hfirst, firstError_cons_of_none he]

variable {body : List Account → Process Context Course}

/-- What is to be known of the inside of a loop or an iteration, wherever a pass begins. -/
def Passing (keys : Set String) (body : List Account → Process Context Course) : Prop :=
  ∀ so c, (body so).Follows (growth keys) (fun I _ course ↦ Course.Adds c.task so I course) c

theorem Loop.follows_iterate (l : Loop) (hbody : Passing keys body) (passes : Nat)
    (again : Bool) (left : Nat) (so : List Account) :
    (l.iterate passes body again left so).Follows (growth keys) (fun I _ course ↦
      ∃ more, course.1 = so ++ more ∧ I = marksOf Account.marks more ∧ ∀ b ∈ more, b.Regular)
        c := by
  induction left generalizing again so c with
  | zero => exact ⟨[], (List.append_nil so).symm, marksOf_nil.symm, nofun⟩
  | succ left ih =>
    rw [Loop.iterate, Process.Follows]
    split
    · exact ⟨[], (List.append_nil so).symm, marksOf_nil.symm, nofun⟩
    · refine Process.Follows.bind ((hbody so c).mono fun I t course hcourse ↦ ?_)
      obtain ⟨out, r⟩ := course
      obtain ⟨more, rfl, rfl, hmore, -⟩ := hcourse
      have hdone : ∃ as, so ++ more = so ++ as ∧
          marksOf Account.marks more ⊔ ⊥ = marksOf Account.marks as ∧ ∀ b ∈ as, b.Regular :=
        ⟨more, rfl, sup_bot_eq _, fun b hb ↦ (hmore b hb).2⟩
      cases r with
      | error e => exact hdone
      | ok _ =>
        rw [Process.Follows]
        split
        · refine (ih true (so ++ more)).mono fun J _ course hcourse ↦ ?_
          obtain ⟨rest, hout, rfl, hrest⟩ := hcourse
          refine ⟨more ++ rest, by rw [hout, List.append_assoc], (marksOf_append _ _).symm,
            fun b hb ↦ ?_⟩
          rcases List.mem_append.1 hb with hb | hb
          · exact (hmore b hb).2
          · exact hrest b hb
        · exact hdone

/-! ## Iterations over tasks -/

theorem firstFailing_append_of_none {as : List Account} (h : firstFailing as = none)
    (bs : List Account) : firstFailing (as ++ bs) = firstFailing bs := by
  unfold firstFailing at h ⊢
  rw [List.find?_append, h, Option.none_or]

/-- The mark of an iteration that ends with an error is that of the task it was at. -/
theorem stopped_of_error {as : List Account} {task : Task} {e : StepError}
    (hfirst : firstError as = .error e) (htask : ∀ b ∈ as, b.context.task = some task) :
    Account.stopped as = if e.isPause then {task.id} else ∅ := by
  obtain ⟨b, hb, hmem, he⟩ := exists_firstFailing_of_error hfirst
  split
  · next hpause => exact Account.stopped_eq_singleton hb he hpause (htask b hmem)
  · next hpause =>
    refine Account.stopped_eq_empty fun b' e' hb' he' ↦ ?_
    obtain rfl := Option.some.inj (hb.symm.trans hb')
    obtain rfl := Option.some.inj (he.symm.trans he')
    simpa using hpause

theorem stopped_append {as bs : List Account} (h : firstFailing as = none) :
    Account.stopped (as ++ bs) = Account.stopped bs := by
  unfold Account.stopped
  rw [firstFailing_append_of_none h]

/-- What is to be known of the calls that are added by iterations. -/
def Course.Iterates (so : List Account) (marks : Set String) (course : Course) : Prop :=
  ∃ more, course.1 = so ++ more ∧ marks = Account.stopped more ∧
    ∀ b ∈ more, (∃ τ, b.context.task = some τ) ∧ b.Regular

theorem PerTask.follows_iterate (hbody : Passing keys body) (count index : Nat)
    (tasks : List Value) (so : List Account) :
    (iterate body count index tasks so).Follows (growth keys)
      (fun I _ course ↦ Course.Iterates so I course) c := by
  induction tasks generalizing index so c with
  | nil => exact ⟨[], (List.append_nil so).symm, Account.stopped_nil.symm, nofun⟩
  | cons record rest ih =>
    rw [iterate, Process.Follows]
    -- nobody else works on the fork, so it grows by what is called in it alone
    have hfork := (hbody so (c.fork ⟨taskId record index, index, count, record⟩)).isolated
      (D := growth keys) c
    refine Process.Follows.bind (hfork.mono fun I t r hr ↦ ?_)
    obtain ⟨⟨out, r⟩, fork⟩ := r
    obtain ⟨rfl, hlater, marks, hgrown, more, rfl, rfl, hmore, rfl⟩ := hr
    have hregular : ∀ b ∈ more, (∃ τ, b.context.task = some τ) ∧ b.Regular := fun b hb ↦
      ⟨⟨_, (hmore b hb).1⟩, (hmore b hb).2⟩
    refine ⟨∅, Context.grows_merge hlater hgrown, ?_⟩
    cases hfirst : firstError more with
    | ok _ =>
      refine (ih (index + 1) (so ++ more)).mono fun J _ course hcourse ↦ ?_
      obtain ⟨others, hout, rfl, hothers⟩ := hcourse
      refine ⟨more ++ others, by rw [hout, List.append_assoc], ?_, fun b hb ↦ ?_⟩
      · rw [stopped_append (firstFailing_eq_none hfirst)]
        simp
      · rcases List.mem_append.1 hb with hb | hb
        · exact hregular b hb
        · exact hothers b hb
    | error e =>
      have hstopped := stopped_of_error hfirst fun b hb ↦ (hmore b hb).1
      dsimp only
      split
      · next hpause =>
        rw [if_pos hpause] at hstopped
        exact ⟨_, Context.grows_markPaused _ _, more, rfl, by rw [hstopped]; simp, hregular⟩
      · next hpause =>
        rw [if_neg hpause] at hstopped
        exact ⟨more, rfl, by rw [hstopped]; simp, hregular⟩

theorem PerTask.follows_process (p : PerTask) (hbody : Passing keys body) :
    (p.process body).Follows (growth keys) (fun I _ course ↦ Course.Iterates [] I course) c := by
  rw [PerTask.process, Process.Follows]
  split
  · exact ⟨[], rfl, Account.stopped_nil.symm, fun _ h ↦ absurd h List.not_mem_nil⟩
  · exact follows_iterate hbody _ _ _ _

/-! ## Steps side by side -/

theorem Group.follows_closing (g : Group) (ss : List Step)
    (hkey : ∀ key, g.output = some key → key ∈ keys) (inside : List Account) :
    (g.closing ss inside).Follows (growth keys) (fun I _ course ↦ I = ∅ ∧ course.1 = inside) c := by
  unfold Group.closing
  split
  · exact ⟨rfl, rfl⟩
  · split
    · next key hg => exact ⟨∅, Context.grows_set (hkey key hg) _ c, sup_bot_eq _, rfl⟩
    · exact ⟨rfl, rfl⟩

theorem Group.follows_process (g : Group) (ss : List Step)
    (hkey : ∀ key, g.output = some key → key ∈ keys) {children : List (Process Context Account)}
    (hchildren : ∀ p ∈ children, p.Telling keys) :
    (g.process ss children).Follows (growth keys)
      (fun I _ course ↦ I = marksOf Account.marks course.1 ∧ ∀ b ∈ course.1, b.Regular) c := by
  have harrivals : (Process.arrivals children).Follows (growth keys)
      (fun I _ as ↦ I = marksOf Account.marks as ∧ ∀ a ∈ as, a.Regular) c :=
    .arrivals fun p hp d _ ↦ (hchildren p hp d).mono fun _ _ _ ha ↦ ⟨ha.marks_eq, ha.regular⟩
  refine Process.Follows.bind (harrivals.mono fun I t inside hinside ↦ ?_)
  obtain ⟨rfl, hregular⟩ := hinside
  refine (g.follows_closing ss hkey inside).mono fun J _ course hcourse ↦ ?_
  obtain ⟨rfl, rfl⟩ := hcourse
  exact ⟨sup_bot_eq _, hregular⟩

/-! ## Steps -/

namespace Step

/-- The names of the variables that a step and the steps inside it write their results to. -/
def outputKeys (s : Step) : Set String := {key | ∃ t : Step, t.Inside s ∧ t.outputKey = some key}

theorem outputKeys_subset_of_mem {s t : Step} (h : t ∈ s.children) :
    t.outputKeys ⊆ s.outputKeys := by
  rintro key ⟨u, hu, hkey⟩
  exact ⟨u, .child h hu, hkey⟩

theorem mem_outputKeys {s : Step} {key : String} (h : s.outputKey = some key) :
    key ∈ s.outputKeys :=
  ⟨s, .refl, h⟩

theorem yields_of_marksOf {s : Step} (hs : s.kind = .parallel ∨ s.kind = .loop)
    {marks : Set String} {course : Course} (hmarks : marks = marksOf Account.marks course.1)
    (hregular : ∀ b ∈ course.1, b.Regular) : s.Yields marks course := by
  have hkind : s.kind ≠ .perTask := by
    rintro h
    rcases hs with hs | hs <;> cases h.symm.trans hs
  refine ⟨fun c r ↦ ?_, hregular, fun h ↦ ?_, fun h ↦ absurd h hkind⟩
  · rw [hmarks, Account.marks_of_kind_ne (a := ⟨s, c, course.1, r⟩) hkind]
    rfl
  · rcases hs with hs | hs <;> rcases h with h | h <;> cases h.symm.trans hs

mutual

/-- A step lets the context grow, and its account tells of the marks. -/
theorem telling_call (env : Environment) {keys : Set String} :
    (s : Step) → s.outputKeys ⊆ keys → (s.call env).Telling keys
  | agent s, hs => fun c ↦ by
    rw [call]
    exact follows_audited (follows_alone _ (s.tame_process (hs (mem_outputKeys rfl))))
  | code s, hs => fun c ↦ by
    rw [call]
    exact follows_audited (follows_alone _ (s.tame_process fun key h ↦ hs (mem_outputKeys h)))
  | parallel g ss, hs => fun c ↦ by
    rw [call]
    have hchildren := telling_calls env ss fun t ht ↦ (outputKeys_subset_of_mem ht).trans hs
    have hprocess := g.follows_process ss (fun key h ↦ hs (mem_outputKeys h)) hchildren (c := c)
    refine follows_audited (hprocess.mono fun I _ course hcourse ↦ ?_)
    exact yields_of_marksOf (.inl rfl) hcourse.1 hcourse.2
  | loop l ss, hs => fun c ↦ by
    rw [call]
    have hchildren := telling_calls env ss fun t ht ↦ (outputKeys_subset_of_mem ht).trans hs
    have hbody : Passing keys (Process.inOrder Account.error? (calls env ss)) :=
      fun so c ↦ follows_inOrder hchildren so
    refine follows_audited ((l.follows_iterate hbody _ _ _ _).mono fun I _ course hcourse ↦ ?_)
    obtain ⟨more, hmore, rfl, hregular⟩ := hcourse
    rw [List.nil_append] at hmore
    subst hmore
    exact yields_of_marksOf (.inr rfl) rfl hregular
  | perTask p ss, hs => fun c ↦ by
    rw [call]
    have hchildren := telling_calls env ss fun t ht ↦ (outputKeys_subset_of_mem ht).trans hs
    have hbody : Passing keys (Process.inOrder Account.error? (calls env ss)) :=
      fun so c ↦ follows_inOrder hchildren so
    refine follows_audited ((p.follows_process hbody).mono fun I _ course hcourse ↦ ?_)
    obtain ⟨more, hmore, rfl, hfits⟩ := hcourse
    rw [List.nil_append] at hmore
    subst hmore
    refine ⟨fun d r ↦ ?_, fun b hb ↦ (hfits b hb).2, fun h ↦ h.elim nofun nofun,
      fun _ b hb ↦ (hfits b hb).1⟩
    rw [Account.marks_of_kind_eq (a := ⟨perTask p ss, d, course.1, r⟩) rfl]
    rfl

theorem telling_calls (env : Environment) {keys : Set String} :
    (ss : List Step) → (∀ t ∈ ss, t.outputKeys ⊆ keys) → ∀ p ∈ calls env ss, p.Telling keys
  | [], _ => by simp [calls]
  | s :: ss, hs => by
    obtain ⟨hs, hss⟩ := List.forall_mem_cons.1 hs
    rw [calls]
    exact List.forall_mem_cons.2 ⟨telling_call env s hs, telling_calls env ss hss⟩

end

/-! ## Runs -/

variable {ω : Type} {w : World ω} {env : Environment} {s : Step} {c c' : Context} {x y : ω}

theorem grows_of_run {a : Account} (h : (s.call env).run w c x = (some (a, c'), y)) :
    Context.Grows s.outputKeys a.marks c c' ∧ a.Regular := by
  obtain ⟨I, hgrown, htells⟩ := (telling_call env s Set.Subset.rfl c).run h
  exact ⟨htells.marks_eq ▸ hgrown, htells.regular⟩

theorem context_of_run {a : Account} (h : (s.call env).run w c x = (some (a, c'), y)) :
    a.context = c := by
  obtain ⟨I, -, htells⟩ := (telling_call env s Set.Subset.rfl c).run h
  exact htells.context_eq

/-- A step that ends leaves a context that is framed by the one it began in. -/
theorem framed_of_run {a : Account} (h : (s.call env).run w c x = (some (a, c'), y)) :
    c.Framed c' :=
  (grows_of_run h).1.toFramed

/-- **Frames.** However a step ends, all variables that there were are still there, and those that
neither it nor a step inside it writes its result to have the values that they had. No changed file
is forgotten, no phase is completed, and the task at hand is the same as before. -/
theorem kept_of_run {r : Except StepError StepStatus}
    (h : (s.process env).run w c x = (some (r, c'), y)) :
    (∀ name, c.contains name = true → c'.contains name = true) ∧
    (∀ name, (∀ t : Step, t.Inside s → t.outputKey ≠ some name) →
      c'.vars.get? name = c.vars.get? name) ∧
    c.changedFiles ⊆ c'.changedFiles ∧ c'.completedPhases = c.completedPhases ∧
    c'.task = c.task := by
  rw [process, Process.run_bind] at h
  rcases hcall : (s.call env).run w c x with ⟨_ | ⟨a, d⟩, z⟩
  · rw [hcall] at h
    cases h
  · rw [hcall] at h
    cases h
    obtain ⟨hgrown, -⟩ := grows_of_run hcall
    refine ⟨hgrown.contains, fun name hname ↦ hgrown.get?_eq name ?_, hgrown.changedFiles,
      hgrown.completedPhases_eq, hgrown.task_eq⟩
    rintro ⟨t, ht, hkey⟩
    exact hname t ht hkey

/-! ## An iteration that fails half-way -/

/-- An iteration over tasks with two handlers, of which the second one fails. -/
def halting : Step :=
  .perTask ⟨"each", "tasks"⟩ [.code ⟨"build", "good", none, some "built"⟩,
    .code ⟨"check", "bad", none, none⟩]

/-- A context with one task, and with a variable that the iteration does not write. -/
def haltingContext : Context where
  vars := [("note", .string "old"),
    ("tasks", .array [.object [("id", .string "t1")]])]
  completedPhases := ["plan"]
  changedFiles := ["plan.md"]

/-- A stage on which the first handler answers and the second one fails. -/
def haltingStage : Rehearsal.Stage where
  script :=
    { handlers := [("bad", { answers := [{ act := .fail "no" }] }),
      ("good", { answers := [{ act := .give (.string "done") }] })] }

def haltingEnvironment : Environment :=
  { files := {}, tiers := { project := "project" }, handlers := ["bad", "good"] }

def haltingRun : Option (Except StepError StepStatus × Context) × Rehearsal.Stage :=
  (halting.process haltingEnvironment).run Rehearsal.world haltingContext haltingStage

theorem not_inside_halting {t : Step} (ht : t.Inside halting) : t.outputKey ≠ some "note" := by
  cases ht with
  | refl => exact nofun
  | child hmem ht =>
    have hsteps : _ ∈ [Step.code ⟨"build", "good", none, some "built"⟩,
      .code ⟨"check", "bad", none, none⟩] := hmem
    rcases List.mem_pair.1 hsteps with rfl | rfl
    all_goals
      cases ht with
      | refl => decide
      | child hmem _ => cases hmem

theorem kept_of_halting :
    ∃ r c' y, haltingRun = (some (r, c'), y) ∧ r = .error (.handler "check" "bad" "no") ∧
      c'.contains "built" = true ∧ c'.vars.get? "note" = some (.string "old") ∧
      "plan.md" ∈ c'.changedFiles ∧ c'.completedPhases = ["plan"] ∧ c'.task = none := by
  have hends : haltingRun.1.any (fun r ↦ r.1 == .error (.handler "check" "bad" "no") &&
      r.2.contains "built") = true := by
    decide +kernel
  rcases hrun : haltingRun with ⟨_ | ⟨r, c'⟩, y⟩
  · rw [hrun] at hends
    cases hends
  · rw [hrun] at hends
    obtain ⟨hr, hbuilt⟩ := Bool.and_eq_true_iff.1 hends
    obtain ⟨-, hvars, hfiles, hphases, htask⟩ := kept_of_run hrun
    refine ⟨r, c', y, rfl, beq_iff_eq.1 hr, hbuilt, ?_, hfiles List.mem_cons_self, hphases, htask⟩
    rw [hvars "note" fun t ht ↦ not_inside_halting ht]
    rfl

end Step

end Workflow
