import Workflow.Proofs.Account.Trail
import Workflow.Proofs.Process.Arrivals

/-!
# The trail that a step leaves

On every path of a step, whatever it is answered, its account and its reports form a trail:
`Step.trail_of_path`. The proof follows the step. The combinators that steps are made of pass on
what holds of the processes that they are given, each by a theorem of its own, so the cases of the
induction only put these together.

What runs in turn adds its accounts to those there were, and nothing is known of these; so all that
is said of a sequence is said of the accounts that it adds.
-/

namespace Workflow

open Json (Members Value)
open Process (Path Act Report reports settlements writes)

variable {α : Type}

/-! ## Before and after -/

theorem path_of_reporting {e : Audit.Event} {refused : StepError → α}
    {next : Process Context α} {as : List (Act Context)} {a : α}
    (h : Path (reporting e refused next) as a) :
    (∃ bs, as = .report e none :: bs ∧ Path next bs a) ∨
      ∃ reason, as = [.report e (some reason)] ∧ a = refused (.audit reason) := by
  obtain ⟨r, bs, rfl, hr⟩ := h.of_report
  cases r with
  | none => exact .inl ⟨bs, rfl, hr⟩
  | some reason =>
    obtain ⟨rfl, rfl⟩ := hr.of_done
    exact .inr ⟨reason, rfl, rfl⟩

theorem path_audited_cases {env : Environment} {s : Step} {body : Process Context Course}
    {as : List (Act Context)} {a : Account} (h : Path (s.audited env body) as a) :
    (∃ c bs reason, as = .read c :: bs ∧ skipReason env c s = some reason ∧
      a.ending = .ok .skipped ∧ writes as = [] ∧ settlements as = []) ∨
    (∃ c bs course, skipReason env c s = none ∧ Path body bs course ∧
      a.ending = course.2.map (fun _ ↦ .completed) ∧ writes as = writes bs ∧
      settlements as = settlements bs) ∨
    ∃ e reason, (e, some reason) ∈ reports as ∧ a.ending = .error (.audit reason) := by
  obtain ⟨c, as, rfl, hc⟩ := h.of_read
  rw [Process.reports_read]
  split at hc
  · next reason hskip =>
    rcases path_of_reporting hc with ⟨bs, rfl, hd⟩ | ⟨refused, rfl, rfl⟩
    · obtain ⟨rfl, rfl⟩ := hd.of_done
      exact .inl ⟨c, _, reason, rfl, hskip, rfl, rfl, rfl⟩
    · exact .inr (.inr ⟨_, refused, List.mem_cons_self, rfl⟩)
  · next hskip =>
    rcases path_of_reporting hc with ⟨bs, rfl, hs⟩ | ⟨refused, rfl, rfl⟩
    · obtain ⟨started, bs, rfl, hbegun⟩ := hs.of_clock
      obtain ⟨bs, course, cs, rfl, hb, hafter⟩ := Path.of_bind hbegun
      obtain ⟨ended, cs, rfl, hended⟩ := hafter.of_clock
      obtain ⟨left, cs, rfl, hclosing⟩ := hended.of_read
      rcases path_of_reporting hclosing with ⟨ds, rfl, hd⟩ | ⟨refused, rfl, rfl⟩
      · obtain ⟨rfl, rfl⟩ := hd.of_done
        refine .inr (.inl ⟨c, bs, course, hskip, hb, rfl, ?_, ?_⟩)
        · exact (Process.writes_append bs _).trans (List.append_nil _)
        · exact (Process.settlements_append bs _).trans (List.append_nil _)
      · refine .inr (.inr ⟨closingEvent s (ended - started) left course.2, refused, ?_, rfl⟩)
        simp
    · exact .inr (.inr ⟨_, refused, List.mem_cons_self, rfl⟩)

theorem skipReason_eq_some {env : Environment} {c : Context} {s : Step} {reason : String}
    (h : skipReason env c s = some reason) : ∃ a, s = .agent a := by
  cases s with
  | agent a => exact ⟨a, rfl⟩
  | _ => cases h

theorem closes_closingEvent (s : Step) (duration : Nat) (c : Context)
    (r : Except StepError Unit) : s.Closes r (closingEvent s duration c r) := by
  cases r with
  | ok _ => exact .completed _
  | error e =>
    cases e with
    | paused step blocker =>
      exact .paused (by simp [Members.ofList, Members.insertAll, Members.get?_insert,
        StepError.blocker?])
    | _ => exact .failed rfl (by simp [Members.ofList, Members.insertAll, Members.get?_insert])

/-- What a path leaves that is inside a step. -/
def Step.Leaves (s : Step) (course : Course) (rs : List Report) : Prop :=
  ∃ calls : List (Account × List Report), calls.map (·.1) = course.1 ∧ s.Admits course ∧
    (∀ c ∈ calls, c.1.Trail c.2) ∧ s.Joins (calls.map (·.2)) rs

/-- The reports of the start and of the end make a trail of what is left between them. -/
theorem trail_of_audited {env : Environment} {s : Step} {body : Process Context Course}
    (hbody : ∀ {bs course}, Path body bs course → s.Leaves course (reports bs))
    {as : List (Act Context)} {a : Account} (h : Path (s.audited env body) as a) :
    a.step = s ∧ a.Trail (reports as) := by
  obtain ⟨c, as, rfl, hc⟩ := h.of_read
  rw [Process.reports_read]
  split at hc
  · next reason hskip =>
    obtain ⟨s, rfl⟩ := skipReason_eq_some hskip
    rcases path_of_reporting hc with ⟨bs, rfl, hd⟩ | ⟨reason, rfl, rfl⟩
    · obtain ⟨rfl, rfl⟩ := hd.of_done
      exact ⟨rfl, .skipped s c _⟩
    · exact ⟨rfl, .unskipped s c _ reason⟩
  · rcases path_of_reporting hc with ⟨bs, rfl, hs⟩ | ⟨reason, rfl, rfl⟩
    · -- the start, what is inside, and the end, of which the sink may refuse the last
      obtain ⟨started, bs, rfl, hbegun⟩ := hs.of_clock
      obtain ⟨bs, ⟨inside, r⟩, cs, rfl, hb, hafter⟩ := Path.of_bind hbegun
      obtain ⟨calls, rfl, hadmits, htrails, hjoins⟩ := hbody hb
      obtain ⟨ended, cs, rfl, hended⟩ := hafter.of_clock
      obtain ⟨c', cs, rfl, hclosing⟩ := hended.of_read
      have hclose := closes_closingEvent s (ended - started) c' r
      rw [Process.reports_report, Process.reports_clock, Process.reports_append,
        Process.reports_clock, Process.reports_read]
      rcases path_of_reporting hclosing with ⟨ds, rfl, hd⟩ | ⟨reason, rfl, rfl⟩
      · obtain ⟨rfl, rfl⟩ := hd.of_done
        exact ⟨rfl, .closed hadmits htrails hjoins hclose⟩
      · exact ⟨rfl, .unclosed reason hadmits htrails hjoins hclose⟩
    · exact ⟨rfl, .unopened s c _ reason⟩

/-! ## Steps without steps inside -/

/-- Nothing is reported on any path of a process. -/
def Process.Silent (p : Process Context α) : Prop :=
  ∀ {as : List (Act Context)} {a : α}, Path p as a → reports as = []

theorem Process.silent_done (a : α) : (Process.done a).Silent := by
  intro as b h
  obtain ⟨rfl, -⟩ := h.of_done
  rfl

theorem Process.silent_read {k : Context → Process Context α} (hk : ∀ c, (k c).Silent) :
    (Process.read k).Silent := by
  intro as b h
  obtain ⟨c, bs, rfl, hc⟩ := h.of_read
  rw [Process.reports_read, hk c hc]

theorem Process.silent_write {f : Context → Context} {p : Process Context α} (hp : p.Silent) :
    (Process.write f p).Silent := by
  intro as b h
  obtain ⟨bs, rfl, hb⟩ := h.of_write
  rw [Process.reports_write, hp hb]

theorem Process.silent_settle (c : Call) (limit : Option Nat) :
    (Process.settle c limit : Process Context Settlement).Silent := by
  intro as s h
  obtain ⟨b, bs, rfl, hb⟩ := h.of_call
  rw [Process.reports_call]
  cases b with
  | settled s => exact Process.silent_done s hb
  | pending t =>
    obtain ⟨t, s, cs, rfl, hc⟩ := hb.of_await
    rw [Process.reports_settle]
    exact Process.silent_done s hc

theorem silent_calling {env : Environment} {step : String} {c : Call}
    {next : Reply → Behaviour Unit} (hnext : ∀ reply, (next reply).Silent) :
    (calling env step c next).Silent := by
  intro as r h
  obtain ⟨bs, s, cs, rfl, hb, hc⟩ := Path.of_bind h
  have hcs : reports cs = [] := by
    cases s with
    | replied reply => exact hnext reply hc
    | timedOut _ | cancelled => exact Process.silent_done _ hc
  rw [Process.reports_append, Process.silent_settle c _ hb, hcs, List.append_nil]

theorem AgentStep.silent_process (env : Environment) (s : AgentStep) : (s.process env).Silent := by
  unfold AgentStep.process
  split
  · exact Process.silent_done _
  · dsimp only
    split
    · exact Process.silent_done _
    · refine Process.silent_read fun c ↦ silent_calling fun reply ↦ ?_
      split
      · exact Process.silent_done _
      · exact Process.silent_write (Process.silent_done _)

theorem CodeStep.silent_process (env : Environment) (s : CodeStep) : (s.process env).Silent := by
  unfold CodeStep.process
  split
  · exact Process.silent_done _
  · refine Process.silent_read fun c ↦ silent_calling fun reply ↦ ?_
    split
    · exact Process.silent_done _
    · exact Process.silent_write (Process.silent_done _)

theorem path_of_alone {p : Behaviour Unit} (hp : p.Silent) {as : List (Act Context)}
    {course : Course} (h : Path p.alone as course) :
    (∃ r, course = ([], r)) ∧ reports as = [] := by
  obtain ⟨bs, r, cs, rfl, hb, hc⟩ := Path.of_bind h
  obtain ⟨rfl, rfl⟩ := hc.of_done
  refine ⟨⟨r, rfl⟩, ?_⟩
  rw [List.append_nil, hp hb]

/-! ## Steps in turn -/

/-- Every path of a step leaves the trail of its account. -/
def Step.Tracked (env : Environment) (s : Step) : Prop :=
  ∀ {as : List (Act Context)} {a : Account},
    Path (s.call env) as a → a.step = s ∧ a.Trail (reports as)

/-- Every path adds the accounts of one pass through some steps to those there were. -/
def MakesPass (ss : List Step) (body : List Account → Process Context Course) : Prop :=
  ∀ {so out : List Account} {as : List (Act Context)} {r : Except StepError Unit},
    Path (body so) as (out, r) →
      ∃ more, out = so ++ more ∧ Pass ss more r ∧ Account.InTurn more (reports as)

theorem makesPass_inOrder {env : Environment} {ss : List Step}
    (hss : ∀ s ∈ ss, s.Tracked env) :
    MakesPass ss (Process.inOrder Account.error? (ss.map (Step.call env))) := by
  induction ss with
  | nil =>
    intro so out as r h
    obtain ⟨rfl, hout⟩ := h.of_done
    cases hout
    exact ⟨[], (List.append_nil _).symm, .done, Account.inTurn_nil⟩
  | cons s ss ih =>
    intro so out as r h
    obtain ⟨bs, a, cs, rfl, hb, hc⟩ := Path.of_bind h
    obtain ⟨rfl, ha⟩ := hss s List.mem_cons_self hb
    cases he : a.error? with
    | some e =>
      rw [he] at hc
      obtain ⟨rfl, hout⟩ := hc.of_done
      cases hout
      refine ⟨[a], rfl, .failed he, ?_⟩
      rw [List.append_nil]
      exact ha.inTurn
    | none =>
      rw [he] at hc
      have hss' : ∀ s ∈ ss, s.Tracked env := fun s hs ↦ hss s (List.mem_cons_of_mem _ hs)
      obtain ⟨more, rfl, hpass, hturn⟩ := ih hss' hc
      refine ⟨a :: more, by rw [List.append_assoc]; rfl, .next he hpass, ?_⟩
      rw [Process.reports_append]
      exact ha.inTurn.append hturn

variable {ss : List Step} {body : List Account → Process Context Course}

theorem path_of_iterate (hbody : MakesPass ss body) {l : Loop} {n left : Nat} {again : Bool}
    {so out : List Account} {as : List (Act Context)} {r : Except StepError Unit}
    (h : Path (l.iterate n body again left so) as (out, r)) :
    ∃ more, out = so ++ more ∧ Account.InTurn more (reports as) ∧
      (Passes ss more r ∨ Passes ss more (.ok ()) ∧ r = l.exhaustion n) := by
  induction left generalizing again so as with
  | zero =>
    obtain ⟨rfl, hout⟩ := h.of_done
    cases hout
    exact ⟨[], (List.append_nil _).symm, Account.inTurn_nil, .inr ⟨.done, rfl⟩⟩
  | succ left ih =>
    rw [Loop.iterate] at h
    obtain ⟨c, as, rfl, hc⟩ := h.of_read
    rw [Process.reports_read]
    split at hc
    · obtain ⟨rfl, hout⟩ := hc.of_done
      cases hout
      exact ⟨[], (List.append_nil _).symm, Account.inTurn_nil, .inl .done⟩
    · obtain ⟨bs, ⟨so', r'⟩, cs, rfl, hb, hafter⟩ := Path.of_bind hc
      obtain ⟨more, rfl, hpass, hturn⟩ := hbody hb
      rw [Process.reports_append]
      cases r' with
      | error e =>
        obtain ⟨rfl, hout⟩ := hafter.of_done
        cases hout
        rw [Process.reports_nil, List.append_nil]
        exact ⟨more, rfl, hturn, .inl (.failed hpass)⟩
      | ok _ =>
        obtain ⟨c', cs, rfl, hlook⟩ := hafter.of_read
        rw [Process.reports_read]
        split at hlook
        · obtain ⟨rest, rfl, hrest, hends⟩ := ih hlook
          refine ⟨more ++ rest, List.append_assoc .., hturn.append hrest, ?_⟩
          rcases hends with hends | ⟨hends, rfl⟩
          · exact .inl (.next hpass hends)
          · exact .inr ⟨.next hpass hends, rfl⟩
        · obtain ⟨rfl, hout⟩ := hlook.of_done
          cases hout
          have hpasses := Passes.next hpass .done
          rw [List.append_nil] at hpasses
          rw [Process.reports_nil, List.append_nil]
          exact ⟨more, rfl, hturn, .inl hpasses⟩

theorem PerTask.tasks_eq_error {p : PerTask} {c : Context} {e : StepError}
    (h : p.tasks c = .error e) : ∃ reason, e = .taskSource p.name p.source reason := by
  unfold PerTask.tasks at h
  split at h
  · cases h
  · cases h
    exact ⟨_, rfl⟩
  · cases h
    exact ⟨_, rfl⟩

theorem path_of_iterate_perTask (hbody : MakesPass ss body) {count index : Nat}
    {tasks : List Value} {so out : List Account} {as : List (Act Context)}
    {r : Except StepError Unit}
    (h : Path (PerTask.iterate body count index tasks so) as (out, r)) :
    ∃ more, out = so ++ more ∧ Account.InTurn more (reports as) ∧ Passes ss more r := by
  induction tasks generalizing index so as with
  | nil =>
    obtain ⟨rfl, hout⟩ := h.of_done
    cases hout
    exact ⟨[], (List.append_nil _).symm, Account.inTurn_nil, .done⟩
  | cons record rest ih =>
    rw [PerTask.iterate] at h
    obtain ⟨c, as, rfl, hc⟩ := h.of_read
    obtain ⟨bs, ⟨⟨so', r'⟩, fork⟩, cs, rfl, hb, hfork⟩ := Path.of_bind hc
    obtain ⟨ds, hd, hr⟩ := Path.of_isolated hb
    obtain ⟨more, rfl, hpass, hturn⟩ := hbody hd
    obtain ⟨cs, rfl, hmerged⟩ := hfork.of_write
    rw [Process.reports_read, Process.reports_append, ← hr, Process.reports_write]
    cases r' with
    | ok _ =>
      obtain ⟨rest, rfl, hrest, hpasses⟩ := ih hmerged
      exact ⟨more ++ rest, List.append_assoc .., hturn.append hrest, .next hpass hpasses⟩
    | error e =>
      dsimp only at hmerged
      split at hmerged
      · obtain ⟨cs, rfl, hmarked⟩ := hmerged.of_write
        obtain ⟨rfl, hout⟩ := hmarked.of_done
        cases hout
        rw [Process.reports_write, Process.reports_nil, List.append_nil]
        exact ⟨more, rfl, hturn, .failed hpass⟩
      · obtain ⟨rfl, hout⟩ := hmerged.of_done
        cases hout
        rw [Process.reports_nil, List.append_nil]
        exact ⟨more, rfl, hturn, .failed hpass⟩

/-! ## Steps side by side -/

theorem trails_of_children {env : Environment} {ss : List Step}
    (hss : ∀ s ∈ ss, s.Tracked env) {ls : List (List (Act Context) × Account)}
    (h : List.Forall₂ (fun s l ↦ Path (Step.call env s) l.1 l.2) ss ls) :
    ls.map (fun l ↦ l.2.step) = ss ∧ ∀ l ∈ ls, l.2.Trail (reports l.1) := by
  induction h with
  | nil => exact ⟨rfl, by simp⟩
  | @cons s l ss ls hp _ ih =>
    obtain ⟨hl, ht⟩ := hss s List.mem_cons_self hp
    obtain ⟨hls, hts⟩ := ih fun s hs ↦ hss s (List.mem_cons_of_mem _ hs)
    exact ⟨by rw [List.map_cons, hl, hls], List.forall_mem_cons.2 ⟨ht, hts⟩⟩

/-- After its children a group takes the first error, or gathers outputs without a report. -/
theorem course_of_group {g : Group} {ss : List Step} {inside : List Account}
    {as : List (Act Context)} {course : Course}
    (h : Path (g.closing ss inside) as course) :
    course = (inside, firstError inside) ∧ reports as = [] := by
  rw [Group.closing] at h
  rw [firstError]
  cases he : inside.findSome? Account.error? with
  | some e =>
    rw [he] at h
    obtain ⟨rfl, rfl⟩ := h.of_done
    exact ⟨rfl, rfl⟩
  | none =>
    rw [he] at h
    cases ho : g.output with
    | some key =>
      rw [ho] at h
      obtain ⟨bs, rfl, hb⟩ := h.of_write
      obtain ⟨rfl, rfl⟩ := hb.of_done
      exact ⟨rfl, rfl⟩
    | none =>
      rw [ho] at h
      obtain ⟨rfl, rfl⟩ := h.of_done
      exact ⟨rfl, rfl⟩

theorem leaves_group {env : Environment} {g : Group} {ss : List Step}
    (hss : ∀ s ∈ ss, s.Tracked env) {as : List (Act Context)} {course : Course}
    (h : Path (g.process ss (ss.map (Step.call env))) as course) :
    (Step.parallel g ss).Leaves course (reports as) := by
  obtain ⟨bs, inside, cs, rfl, hb, hc⟩ := Path.of_bind h
  obtain ⟨ls, ks, hls, hperm, rfl, hi⟩ := Path.of_arrivals hb
  obtain ⟨rfl, hcs⟩ := course_of_group hc
  obtain ⟨hsteps, htrails⟩ := trails_of_children hss (List.forall₂_map_left_iff.1 hls)
  refine ⟨ks.map fun k ↦ (k.2, reports k.1), ?_, .parallel ?_, ?_, ?_⟩
  · rw [List.map_map]
    rfl
  · rw [List.map_map, ← hsteps]
    exact hperm.map _
  · intro c hc
    obtain ⟨k, hk, rfl⟩ := List.mem_map.1 hc
    exact htrails k (hperm.mem_iff.1 hk)
  · rw [List.map_map, Process.reports_append, hcs, List.append_nil]
    exact hi

/-! ## Steps -/

namespace Step

mutual

theorem tracked (env : Environment) : (s : Step) → s.Tracked env
  | agent s => by
    intro h
    rw [call] at h
    refine trail_of_audited (fun hb ↦ ?_) h
    obtain ⟨⟨r, rfl⟩, hr⟩ := path_of_alone (s.silent_process env) hb
    exact ⟨[], rfl, .agent s r, by simp, hr⟩
  | code s => by
    intro h
    rw [call] at h
    refine trail_of_audited (fun hb ↦ ?_) h
    obtain ⟨⟨r, rfl⟩, hr⟩ := path_of_alone (s.silent_process env) hb
    exact ⟨[], rfl, .code s r, by simp, hr⟩
  | parallel g ss => by
    intro h
    rw [call] at h
    refine trail_of_audited (fun hb ↦ ?_) h
    rw [calls_eq_map] at hb
    exact leaves_group (tracked_of_mem env ss) hb
  | loop l ss => by
    intro h
    rw [call] at h
    refine trail_of_audited (fun {bs course} hb ↦ ?_) h
    rw [calls_eq_map] at hb
    obtain ⟨out, r⟩ := course
    obtain ⟨_, rfl, ⟨calls, hcalls, htrails, hr⟩, hends⟩ :=
      path_of_iterate (makesPass_inOrder (tracked_of_mem env ss)) hb
    refine ⟨calls, hcalls, ?_, htrails, hr⟩
    rcases hends with hends | ⟨hends, rfl⟩
    · exact .loop hends
    · exact .exhausted _ hends
  | perTask p ss => by
    intro h
    rw [call] at h
    refine trail_of_audited (fun {bs course} hb ↦ ?_) h
    rw [calls_eq_map] at hb
    obtain ⟨out, r⟩ := course
    obtain ⟨c, cs, rfl, hc⟩ := hb.of_read
    rw [Process.reports_read]
    split at hc
    · next e he =>
      obtain ⟨rfl, hout⟩ := hc.of_done
      cases hout
      obtain ⟨reason, rfl⟩ := PerTask.tasks_eq_error he
      exact ⟨[], rfl, .noTasks reason, by simp, rfl⟩
    · obtain ⟨_, rfl, ⟨calls, hcalls, htrails, hr⟩, hpasses⟩ :=
        path_of_iterate_perTask (makesPass_inOrder (tracked_of_mem env ss)) hc
      exact ⟨calls, hcalls, .perTask hpasses, htrails, hr⟩

theorem tracked_of_mem (env : Environment) : (ss : List Step) → ∀ s ∈ ss, s.Tracked env
  | [] => by simp
  | s :: ss => List.forall_mem_cons.2 ⟨tracked env s, tracked_of_mem env ss⟩

end

/-- **Trails.** Whatever a step is answered, its account and its reports form a trail. -/
theorem trail_of_path {env : Environment} {s : Step} {as : List (Act Context)} {a : Account}
    (h : Path (s.call env) as a) : a.step = s ∧ a.Trail (reports as) :=
  tracked env s h

theorem trail_of_run {ω : Type} {w : World ω} {env : Environment} {s : Step} {c c' : Context}
    {x x' : ω} {a : Account} (h : (s.call env).run w c x = (some (a, c'), x')) :
    a.step = s ∧ ∃ rs, a.Trail rs := by
  obtain ⟨hs, ht⟩ := trail_of_path (Process.path_acts h)
  exact ⟨hs, _, ht⟩

end Step

end Workflow
