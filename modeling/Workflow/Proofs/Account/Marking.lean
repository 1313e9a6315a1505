import Mathlib.Data.Set.Basic
import Workflow.Proofs.Account.Escape

/-!
# Marked tasks

An iteration over tasks that stops with a pause marks the task it was at. The marks are told by the
account of a call, and so is the loop that a pause comes from: `Account.Marks` collects all tasks
that are marked in a call, while `Account.PausedBy` follows the first error that each call met down
to the loop, and remembers the outermost iteration on the way.

The two agree as long as each group, where a child marked a task, met the error of this child first:
`Trail.pausedBy_of_marks`. In a group a child that marks a task may come second, and then its mark
stays while its pause is lost.
-/

namespace Workflow

open Process (Report)

/-! ## The first error -/

theorem firstFailing_eq_none {as : List Account} (h : firstError as = .ok ()) :
    firstFailing as = none := by
  cases hb : firstFailing as with
  | none => rfl
  | some b =>
    obtain ⟨-, e, -, he⟩ := firstFailing_eq_some hb
    rw [h] at he
    cases he

theorem exists_firstFailing_of_error {as : List Account} {e : StepError}
    (h : firstError as = .error e) :
    ∃ b, firstFailing as = some b ∧ b ∈ as ∧ b.error? = some e := by
  cases hb : firstFailing as with
  | none =>
    -- no call failed, so there is no first error
    have hok : as.findSome? Account.error? = none := by
      refine List.findSome?_eq_none_iff.2 fun a ha ↦ ?_
      have hnone := List.find?_eq_none.1 hb a ha
      simpa using hnone
    rw [firstError, hok] at h
    cases h
  | some b =>
    obtain ⟨hmem, e', he', hfirst⟩ := firstFailing_eq_some hb
    obtain rfl := Except.error.inj (hfirst.symm.trans h)
    exact ⟨b, rfl, hmem, he'⟩

theorem Loop.exhaustion_eq_paused {l : Loop} {n : Nat} {step blocker : String}
    (h : l.exhaustion n = .error (.paused step blocker)) :
    l.onExhausted = .escalate ∧ step = l.name ∧ blocker = l.blocker n := by
  unfold Loop.exhaustion at h
  split at h
  · cases h
    exact ⟨‹_›, rfl, rfl⟩
  · cases h
  · cases h

/-- Where no call inside failed, only a loop with no pass left pauses. -/
theorem Step.Admits.exhausted_of_paused {s : Step} {as : List Account}
    {step blocker : String} (h : s.Admits (as, .error (.paused step blocker)))
    (hok : firstError as = .ok ()) :
    (s.kind = .agent ∨ s.kind = .code) ∨ ∃ l ss n, s = .loop l ss ∧ l.onExhausted = .escalate ∧
      step = l.name ∧ blocker = l.blocker n := by
  generalize hr : Except.error (StepError.paused step blocker) = r at h
  cases h with
  | agent => exact .inl (.inl rfl)
  | code => exact .inl (.inr rfl)
  | parallel _ => cases hr.trans hok
  | loop hpasses | perTask hpasses => cases (hr.trans hpasses.eq_firstError).trans hok
  | @exhausted l ss _ n _ =>
    obtain ⟨hescalate, hstep, hblocker⟩ := Loop.exhaustion_eq_paused hr.symm
    exact .inr ⟨l, ss, n, rfl, hescalate, hstep, hblocker⟩
  | noTasks => cases hr

/-! ## Accounts that pause -/

namespace Account

/-- The tasks of an iteration that stopped with a pause: that of the call that paused, if there is
one. -/
def stopped (as : List Account) : Set String :=
  {id | ∃ b e τ, firstFailing as = some b ∧ b.error? = some e ∧ e.isPause = true ∧
    b.context.task = some τ ∧ τ.id = id}

/-- A task is marked in a call. What is marked in an iteration is marked in its fork only, and of
the iteration itself it is the task that it stopped at. -/
inductive Marks (id : String) : Account → Prop where
  | stopped {a : Account} : a.step.kind = .perTask → id ∈ stopped a.inside → Marks id a
  | inside {a b : Account} : a.step.kind ≠ .perTask → b ∈ a.inside → Marks id b → Marks id a

def marks (a : Account) : Set String := {id | a.Marks id}

/-- The pause of a call comes from a loop with no pass left, and the outermost iteration around it
in this call, if there is one, was at a task. -/
inductive PausedBy (l : Loop) (blocker : String) : Account → Option Task → Prop where
  | own {a : Account} {ss : List Step} (n : Nat) : a.step = .loop l ss →
      l.onExhausted = .escalate → blocker = l.blocker n → firstFailing a.inside = none →
        a.error? = some (.paused l.name blocker) → PausedBy l blocker a none
  | iteration {a b : Account} {t : Option Task} {τ : Task} : a.step.kind = .perTask →
      firstFailing a.inside = some b → a.error? = b.error? → b.context.task = some τ →
        PausedBy l blocker b t → PausedBy l blocker a (some τ)
  | first {a b : Account} {t : Option Task} : a.step.kind ≠ .perTask →
      firstFailing a.inside = some b → a.error? = b.error? → PausedBy l blocker b t →
        PausedBy l blocker a t

/-- A group in which a child marked a task, and another one was the first to fail. -/
def LosesMark (g : Account) : Prop :=
  g.step.kind = .parallel ∧ ∃ b ∈ g.inside, (∃ id, b.Marks id) ∧ firstFailing g.inside ≠ some b

/-! ## Marks -/

theorem marks_of_kind_ne {a : Account} (h : a.step.kind ≠ .perTask) :
    a.marks = {id | ∃ b ∈ a.inside, b.Marks id} := by
  ext id
  constructor
  · rintro (⟨hkind, -⟩ | ⟨-, hb, hid⟩)
    · exact absurd hkind h
    · exact ⟨_, hb, hid⟩
  · rintro ⟨b, hb, hid⟩
    exact .inside h hb hid

theorem marks_of_kind_eq {a : Account} (h : a.step.kind = .perTask) :
    a.marks = stopped a.inside := by
  ext id
  constructor
  · rintro (⟨-, hid⟩ | ⟨hkind, -, -⟩)
    · exact hid
    · exact absurd h hkind
  · exact .stopped h

theorem stopped_eq_empty {as : List Account} (h : ∀ b e, firstFailing as = some b →
    b.error? = some e → e.isPause = false) : stopped as = ∅ := by
  refine Set.eq_empty_of_forall_notMem fun id hid ↦ ?_
  obtain ⟨b, e, τ, hb, he, hpause, -⟩ := hid
  rw [h b e hb he] at hpause
  cases hpause

theorem stopped_nil : stopped [] = ∅ := stopped_eq_empty fun _ _ h ↦ nomatch h

theorem stopped_eq_singleton {as : List Account} {b : Account} {e : StepError} {τ : Task}
    (hb : firstFailing as = some b) (he : b.error? = some e) (hpause : e.isPause = true)
    (hτ : b.context.task = some τ) : stopped as = {τ.id} := by
  ext id
  constructor
  · rintro ⟨b', e', τ', hb', -, -, hτ', rfl⟩
    obtain rfl := Option.some.inj (hb.symm.trans hb')
    obtain rfl := Option.some.inj (hτ.symm.trans hτ')
    rfl
  · rintro rfl
    exact ⟨b, e, τ, hb, he, hpause, hτ, rfl⟩

/-! ## Pauses -/

namespace PausedBy

variable {l : Loop} {blocker : String} {a : Account} {t : Option Task}

theorem error_eq (h : a.PausedBy l blocker t) : a.error? = some (.paused l.name blocker) := by
  induction h with
  | own _ _ _ _ _ he => exact he
  | iteration _ _ he _ _ ih | first _ _ he _ ih => exact he.trans ih

theorem unique (h : a.PausedBy l blocker t) {l' : Loop} {blocker' : String} {t' : Option Task}
    (h' : a.PausedBy l' blocker' t') : t = t' := by
  induction h generalizing t' with
  | own n hs _ _ hnone _ =>
    cases h' with
    | own => rfl
    | iteration _ hb | first _ hb =>
      rw [hnone] at hb
      cases hb
  | iteration hkind hb _ hτ _ _ =>
    cases h' with
    | own _ _ _ _ hnone =>
      rw [hnone] at hb
      cases hb
    | iteration _ hb' _ hτ' _ =>
      obtain rfl := Option.some.inj (hb.symm.trans hb')
      exact hτ.symm.trans hτ'
    | first hkind' => exact absurd hkind hkind'
  | first hkind hb _ _ ih =>
    cases h' with
    | own _ _ _ _ hnone =>
      rw [hnone] at hb
      cases hb
    | iteration hkind' => exact absurd hkind' hkind
    | first _ hb' _ h' =>
      obtain rfl := Option.some.inj (hb.symm.trans hb')
      exact ih h'

/-- The outermost iteration that a pause comes through marks its task. -/
theorem marks {τ : Task} (h : a.PausedBy l blocker (some τ)) : a.Marks τ.id := by
  generalize ht : some τ = t at h
  induction h with
  | own => cases ht
  | iteration hkind hb _ hτ h _ =>
    cases ht
    exact .stopped hkind ⟨_, _, _, hb, h.error_eq, rfl, hτ, rfl⟩
  | first hkind hb _ _ ih => exact .inside hkind (firstFailing_eq_some hb).1 (ih ht)

theorem exists_perTask {τ : Task} (h : a.PausedBy l blocker (some τ)) :
    ∃ g : Account, g.Within a ∧ g.step.kind = .perTask := by
  generalize ht : some τ = t at h
  induction h with
  | own => cases ht
  | @iteration a _ _ _ hkind => exact ⟨a, .refl, hkind⟩
  | first _ hb _ _ ih =>
    obtain ⟨g, hg, hkind⟩ := ih ht
    exact ⟨g, .inside (firstFailing_eq_some hb).1 hg, hkind⟩

end PausedBy

/-! ## What there is to a pause -/

/-- A call of an agent or a handler never pauses, and what is called in an iteration is called with
a task at hand. -/
structure Fits (a : Account) : Prop where
  isPause_eq : a.step.kind = .agent ∨ a.step.kind = .code →
    ∀ e, a.error? = some e → e.isPause = false
  exists_task : a.step.kind = .perTask → ∀ b ∈ a.inside, ∃ τ, b.context.task = some τ

def Regular (a : Account) : Prop := ∀ b : Account, b.Within a → b.Fits

theorem Regular.fits {a : Account} (h : a.Regular) : a.Fits := h a .refl

theorem Regular.of_mem_inside {a b : Account} (h : a.Regular) (hb : b ∈ a.inside) : b.Regular :=
  fun c hc ↦ h c (.inside hb hc)

theorem regular_of_fits {a : Account} (h : a.Fits) (hinside : ∀ b ∈ a.inside, b.Regular) :
    a.Regular := by
  intro b hb
  cases hb with
  | refl => exact h
  | inside hc hb => exact hinside _ hc b hb

namespace Trail

variable {a : Account} {rs : List Report}

/-- Every pause comes from a loop. -/
theorem exists_pausedBy (h : a.Trail rs) (ha : a.Regular) {step blocker : String}
    (he : a.error? = some (.paused step blocker)) :
    ∃ l t, l.name = step ∧ a.PausedBy l blocker t := by
  induction h with
  | skipped | unskipped | unopened | unclosed => cases he
  | @closed s c m calls r rs e hadmits htrails hjoins hclose ih =>
    obtain rfl : r = .error (.paused step blocker) := by
      cases r with
      | ok _ => cases he
      | error e' => exact congrArg _ (Option.some.inj he)
    cases hfirst : firstError (calls.map (·.1)) with
    | ok _ =>
      rcases hadmits.exhausted_of_paused hfirst with
        hkind | ⟨l, ss, n, rfl, hescalate, rfl, hblocker⟩
      · cases ha.fits.isPause_eq hkind _ he
      · exact ⟨l, none, rfl, .own n rfl hescalate hblocker (firstFailing_eq_none hfirst) he⟩
    | error e' =>
      obtain rfl := Except.error.inj (hadmits.eq_error hfirst)
      obtain ⟨b, hb, hmem, hbe⟩ := exists_firstFailing_of_error hfirst
      obtain ⟨call, hcall, rfl⟩ := List.mem_map.1 hmem
      obtain ⟨l, t, hl, hp⟩ := ih call hcall (ha.of_mem_inside hmem) hbe
      by_cases hkind : s.kind = .perTask
      · obtain ⟨τ, hτ⟩ := ha.fits.exists_task hkind _ hmem
        exact ⟨l, some τ, hl, .iteration hkind hb (he.trans hbe.symm) hτ hp⟩
      · exact ⟨l, t, hl, .first hkind hb (he.trans hbe.symm) hp⟩

/-- A marked task is that of the outermost iteration that the pause comes through, unless a group
loses the mark or a sink refuses a report. -/
theorem pausedBy_of_marks (h : a.Trail rs) (ha : a.Regular) {id : String} (hid : a.Marks id)
    (hkept : ∀ g : Account, g.Within a → ¬g.LosesMark) :
    (∃ l blocker τ, a.PausedBy l blocker (some τ) ∧ τ.id = id) ∨
      ∃ reason, a.error? = some (.audit reason) := by
  induction hid generalizing rs with
  | @stopped a hkind hid =>
    obtain ⟨b, e, τ, hb, he, hpause, hτ, rfl⟩ := hid
    obtain ⟨step, blocker, rfl⟩ := StepError.isPause_iff.1 hpause
    obtain ⟨qs, hq⟩ := h.of_mem_inside (firstFailing_eq_some hb).1
    obtain ⟨l, t, -, hp⟩ := hq.exists_pausedBy (ha.of_mem_inside (firstFailing_eq_some hb).1) he
    refine (h.error_of_firstFailing hb).imp_left fun heq ↦ ?_
    exact ⟨l, blocker, τ, .iteration hkind hb heq hτ hp, rfl⟩
  | @inside a b hkind hmem hid ih =>
    obtain ⟨qs, hq⟩ := h.of_mem_inside hmem
    have hb := ih hq (ha.of_mem_inside hmem) fun g hg ↦ hkept g (.inside hmem hg)
    obtain ⟨e, he⟩ : ∃ e, b.error? = some e := by
      rcases hb with ⟨l, blocker, τ, hp, -⟩ | ⟨reason, hreason⟩
      · exact ⟨_, hp.error_eq⟩
      · exact ⟨_, hreason⟩
    -- the child that marked the task was the first to fail
    have hfirst : firstFailing a.inside = some b := by
      by_cases hgroup : a.step.kind = .parallel
      · by_contra hnot
        exact hkept a .refl ⟨hgroup, b, hmem, ⟨id, hid⟩, hnot⟩
      · exact h.firstFailing_eq hgroup hmem he
    rcases h.error_of_firstFailing hfirst with heq | hrefused
    · rcases hb with ⟨l, blocker, τ, hp, hτ⟩ | ⟨reason, hreason⟩
      · exact .inl ⟨l, blocker, τ, .first hkind hfirst heq hp, hτ⟩
      · exact .inr ⟨reason, heq.trans hreason⟩
    · exact .inr hrefused

end Trail

end Account

end Workflow
