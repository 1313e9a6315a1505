import Workflow.Proofs.Process.Beside
import Workflow.Proofs.Step.Growth
import Workflow.Proofs.Step.Iteration

/-!
# Passages of calls

`Account.Passage` is a call with all that was done in it and the context that it left. Others may
work on the same context, or nobody else does: a group shares its context among its children, and an
iteration over tasks gives the calls in it a context of their own (`Step.sharing`).

What is done in a call is its own reports and what is inside it (`Passage.cases`). In a step with
steps inside, that is what is done in the calls of these, interleaved (`Parts`). In what context the
calls inside a step begin depends on its kind: `Step.task_of_body` and `Step.onTasks_of_body` tell
which task is at hand there.
-/

namespace Workflow

open Process (Act Deed Leads Path deeds settlements writes)

/-! ## Contexts among others -/

namespace Context

/-- All that steps ever do to a context. -/
abbrev anyGrowth : Discipline Context (Set String) := growth Set.univ

/-- What others do to a context meanwhile: what steps do if they share it, and nothing if not. -/
def Rely : Bool → Context → Context → Prop
  | true, c, d => anyGrowth.Later c d
  | false, c, d => c = d

variable {shared : Bool} {c d : Context}

theorem Rely.later (h : Rely shared c d) : anyGrowth.Later c d := by
  cases shared with
  | true => exact h
  | false =>
    obtain rfl := h
    exact .refl c

theorem contains_of_later (h : anyGrowth.Later c d) {name : String} (hc : c.contains name = true) :
    d.contains name = true :=
  have ⟨_, h⟩ := h
  h.contains name hc

theorem task_eq_of_later (h : anyGrowth.Later c d) : d.task = c.task :=
  have ⟨_, h⟩ := h
  h.task_eq

end Context

open Context (anyGrowth Rely)

/-! ## Calls -/

/-- What is inside a step. -/
def Step.body (env : Environment) : Step → Process Context Course
  | .agent s => (s.process env).alone
  | .code s => (s.process env).alone
  | .parallel g ss => g.process ss (ss.map (Step.call env))
  | .loop l ss => l.process env (.inOrder Account.error? (ss.map (Step.call env)))
  | .perTask p ss => p.process (.inOrder Account.error? (ss.map (Step.call env)))

theorem Step.call_eq (env : Environment) (s : Step) : s.call env = s.audited env (s.body env) := by
  cases s <;> simp only [Step.call, Step.body, Step.calls_eq_map]

/-- Whether the calls in a step share the context that they work on with others, by whether the step
does. -/
def Step.sharing (s : Step) (shared : Bool) : Bool :=
  match s.kind with
  | .parallel => true
  | .perTask => false
  | _ => shared

/-- How a call ends whose last report gets an answer. -/
def concluded (answer : Option String) (r : Except StepError StepStatus) :
    Except StepError StepStatus :=
  match answer with
  | none => r
  | some reason => .error (.audit reason)

namespace Account

/-- What was done in a call, from the context that it began in to the one that it left. -/
def Passage (env : Environment) (shared : Bool) (a : Account) (as : List (Act Context))
    (d : Context) : Prop :=
  Leads anyGrowth (Rely shared) (a.step.call env) a.context as a d

/-- Nothing is done in a call but one report: that it is skipped, or that it starts, which the sink
refuses. -/
structure Declines (env : Environment) (a : Account) (as : List (Act Context)) (d : Context) :
    Prop where
  inside_eq : a.inside = []
  context_eq : d = a.context
  writes_eq : writes as = []
  deeds_eq : ∃ status m answer, status ≠ .completed ∧
    deeds as = [.report (.make a.step.name status m) answer] ∧
    a.ending = concluded answer (.ok .skipped) ∧
    (answer = none → (skipReason env a.context a.step).isSome = true)

/-- Between its first and its last report, a call does what is inside its step. -/
structure Performs (env : Environment) (shared : Bool) (a : Account) (as : List (Act Context))
    (d : Context) (bs : List (Act Context)) (r : Except StepError Unit) (answer : Option String) :
    Prop where
  body : Leads anyGrowth (Rely shared) (a.step.body env) a.context bs (a.inside, r) d
  ending_eq : a.ending = concluded answer (r.map fun _ ↦ .completed)
  writes_eq : writes as = writes bs
  deeds_eq : ∃ m n, deeds as = .report (.make a.step.name .started m) none ::
    (deeds bs ++ [.report (closingEvent a.step n d r) answer])

end Account

variable {env : Environment} {shared : Bool} {c d : Context} {as : List (Act Context)}

theorem leads_of_reporting {α : Type} {e : Audit.Event} {refused : StepError → α}
    {next : Process Context α} {R : Context → Context → Prop} {a : α}
    (h : Leads anyGrowth R (reporting e refused next) c as a d) :
    (∃ bs, as = .report e none :: bs ∧ Leads anyGrowth R next c bs a d) ∨
      ∃ reason, as = [.report e (some reason)] ∧ a = refused (.audit reason) ∧ d = c := by
  cases h with
  | @report _ _ answer _ _ _ _ h =>
    cases answer with
    | none => exact .inl ⟨_, rfl, h⟩
    | some reason =>
      cases h with
      | done _ _ => exact .inr ⟨reason, rfl, rfl, rfl⟩

theorem leads_of_call {s : Step} {a : Account}
    (h : Leads anyGrowth (Rely shared) (s.call env) c as a d) :
    a.step = s ∧ a.context = c ∧
      (a.Declines env as d ∨ ∃ bs r answer, a.Performs env shared as d bs r answer) := by
  rw [Step.call_eq, Step.audited] at h
  cases h with
  | read h =>
    dsimp only at h
    split at h
    · next reason hskip =>
      rcases leads_of_reporting h with ⟨bs, rfl, hdone⟩ | ⟨refusal, rfl, rfl, rfl⟩
      · cases hdone with
        | done _ _ =>
          refine ⟨rfl, rfl,
            .inl ⟨rfl, rfl, rfl, .skipped, _, none, by decide, rfl, rfl, fun _ ↦ ?_⟩⟩
          exact Option.isSome_iff_exists.2 ⟨reason, hskip⟩
      · exact ⟨rfl, rfl,
          .inl ⟨rfl, rfl, rfl, .skipped, _, some refusal, by decide, rfl, rfl, by simp⟩⟩
    · rcases leads_of_reporting h with ⟨bs, rfl, hbegun⟩ | ⟨reason, rfl, rfl, rfl⟩
      · cases hbegun with
        | @clock _ started _ _ _ _ hbegun =>
          obtain ⟨bs, ⟨inside, r⟩, e, cs, rfl, hbody, hafter⟩ := hbegun.of_bind
          cases hafter with
          | @clock _ ended _ _ _ _ hafter =>
            cases hafter with
            | read hafter =>
              -- the sink may refuse the last report, and then the call ends with its reason
              rcases leads_of_reporting hafter with ⟨cs, rfl, hend⟩ | ⟨reason, rfl, rfl, rfl⟩
              · cases hend with
                | done _ _ =>
                  refine ⟨rfl, rfl, .inr ⟨bs, r, none, hbody, rfl, ?_,
                    [("type", .string s.kind.text)], ended - started, ?_⟩⟩
                  · exact (Process.writes_append bs _).trans (List.append_nil _)
                  · simp [Account.step]
              · refine ⟨rfl, rfl,
                  .inr ⟨bs, r, some reason, hbody, rfl, ?_,
                    [("type", .string s.kind.text)], ended - started, ?_⟩⟩
                · exact (Process.writes_append bs _).trans (List.append_nil _)
                · simp [Account.step]
      · exact ⟨rfl, rfl,
          .inl ⟨rfl, rfl, rfl, .started, _, some reason, by decide, rfl, rfl, by simp⟩⟩

namespace Account

variable {a : Account}

theorem passage_of_leads {s : Step} (h : Leads anyGrowth (Rely shared) (s.call env) c as a d) :
    a.Passage env shared as d := by
  obtain ⟨rfl, rfl, -⟩ := leads_of_call h
  exact h

theorem Passage.cases (h : a.Passage env shared as d) :
    a.Declines env as d ∨ ∃ bs r answer, a.Performs env shared as d bs r answer :=
  (leads_of_call h).2.2

theorem Declines.settlements_eq (h : a.Declines env as d) : settlements as = [] := by
  obtain ⟨status, m, answer, -, hdeeds, -⟩ := h.deeds_eq
  rw [Process.settlements_eq, hdeeds]
  rfl

theorem Performs.settlements_eq {bs : List (Act Context)} {r : Except StepError Unit}
    {answer : Option String} (h : a.Performs env shared as d bs r answer) :
    settlements as = settlements bs := by
  obtain ⟨m, n, hdeeds⟩ := h.deeds_eq
  rw [Process.settlements_eq, Process.settlements_eq, hdeeds, List.filterMap_cons,
    List.filterMap_append]
  exact List.append_nil _

/-- If a call succeeds, so does what is inside its step. -/
theorem Performs.eq_ok {bs : List (Act Context)} {r : Except StepError Unit}
    {answer : Option String} (h : a.Performs env shared as d bs r answer)
    (hok : a.error? = none) : r = .ok () := by
  rw [error?, h.ending_eq] at hok
  cases r with
  | ok _ => rfl
  | error e => cases answer <;> cases hok

theorem Passage.later (h : a.Passage env shared as d) : anyGrowth.Later a.context d :=
  Leads.later (fun _ _ ↦ Rely.later) h

end Account

/-! ## What is inside steps -/

/-- All that was done in some acts was done in certain calls. -/
def Parts (env : Environment) (shared : Bool) (out : List Account) (as : List (Act Context)) :
    Prop :=
  ∃ parts : List (List (Act Context) × Account), parts.map (·.2) = out ∧
    (∀ q ∈ parts, ∃ e, q.2.Passage env shared q.1 e) ∧
    Interleaved (parts.map fun q ↦ deeds q.1) (deeds as)

section

variable {out so : List Account} {bs : List (Act Context)} {r : Except StepError Unit}

theorem Parts.nil (h : deeds as = []) : Parts env shared [] as := by
  refine ⟨[], rfl, nofun, ?_⟩
  rw [h]
  exact .nil

theorem Parts.single {a : Account} (h : a.Passage env shared as d) : Parts env shared [a] as := by
  refine ⟨[(as, a)], rfl, by simpa using ⟨d, h⟩, .cons .nil ?_⟩
  have hshuffle := Shuffle.append (deeds as) []
  rwa [List.append_nil] at hshuffle

theorem Parts.append {more : List Account} (h : Parts env shared out as)
    (h' : Parts env shared more bs) : Parts env shared (out ++ more) (as ++ bs) := by
  obtain ⟨ps, rfl, hps, hi⟩ := h
  obtain ⟨qs, rfl, hqs, hi'⟩ := h'
  refine ⟨ps ++ qs, List.map_append, fun q hq ↦ ?_, ?_⟩
  · rcases List.mem_append.1 hq with hq | hq
    · exact hps q hq
    · exact hqs q hq
  · rw [List.map_append, Process.deeds_append]
    exact hi.append hi'

theorem Parts.congr (h : Parts env shared out as) (heq : deeds bs = deeds as) :
    Parts env shared out bs := by
  obtain ⟨ps, hout, hps, hi⟩ := h
  exact ⟨ps, hout, hps, heq ▸ hi⟩

/-- Wherever it begins, a body makes one pass through some steps, and does nothing else. -/
def Turns (env : Environment) (shared : Bool) (ss : List Step)
    (body : List Account → Process Context Course) : Prop :=
  ∀ {so out : List Account} {as : List (Act Context)} {r : Except StepError Unit} {c d : Context},
    Leads anyGrowth (Rely shared) (body so) c as (out, r) d →
      ∃ more, out = so ++ more ∧ Pass ss more r ∧ Parts env shared more as ∧
        ∀ b ∈ more, b.context.task = c.task

theorem turns_inOrder (env : Environment) (shared : Bool) (ss : List Step) :
    Turns env shared ss (Process.inOrder Account.error? (ss.map (Step.call env))) := by
  induction ss with
  | nil =>
    intro so out as r c d h
    cases h with
    | done _ _ => exact ⟨[], (List.append_nil _).symm, .done, .nil rfl, nofun⟩
  | cons s ss ih =>
    intro so out as r c d h
    obtain ⟨bs, a, e, cs, rfl, ha, hafter⟩ := Leads.of_bind h
    obtain ⟨rfl, hctx, -⟩ := leads_of_call ha
    have hpassage := Account.passage_of_leads ha
    have htask : a.context.task = c.task := congrArg Context.task hctx
    cases he : a.error? with
    | some err =>
      rw [he] at hafter
      cases hafter with
      | done _ _ =>
        rw [List.append_nil]
        exact ⟨[a], rfl, .failed he, .single hpassage, by simpa using htask⟩
    | none =>
      rw [he] at hafter
      obtain ⟨more, rfl, hpass, hparts, hmore⟩ := ih hafter
      refine ⟨a :: more, by rw [List.append_assoc]; rfl, .next he hpass,
        (Parts.single hpassage).append hparts, List.forall_mem_cons.2 ⟨htask, fun b hb ↦ ?_⟩⟩
      rw [hmore b hb, Context.task_eq_of_later (Leads.later (fun _ _ ↦ Rely.later) ha)]

variable {ss : List Step} {body : List Account → Process Context Course}

theorem leads_of_iterate (hbody : Turns env shared ss body) {l : Loop} {n left : Nat}
    {again : Bool}
    (h : Leads anyGrowth (Rely shared) (l.iterate n body again left so) c as (out, r) d) :
    ∃ more, out = so ++ more ∧ Parts env shared more as ∧ ∀ b ∈ more, b.context.task = c.task := by
  induction left generalizing again so c as with
  | zero =>
    cases h with
    | done _ _ => exact ⟨[], (List.append_nil _).symm, .nil rfl, nofun⟩
  | succ left ih =>
    rw [Loop.iterate] at h
    cases h with
    | read h =>
      dsimp only at h
      split at h
      · cases h with
        | done _ _ => exact ⟨[], (List.append_nil _).symm, .nil rfl, nofun⟩
      · obtain ⟨bs, ⟨so', r'⟩, e, cs, rfl, hb, hafter⟩ := h.of_bind
        obtain ⟨more, rfl, -, hparts, htask⟩ := hbody hb
        have hdone : ∀ cs, deeds cs = [] → Parts env shared more (.read c :: (bs ++ cs)) := by
          intro cs hcs
          refine hparts.congr ?_
          rw [Process.deeds_read, Process.deeds_append, hcs, List.append_nil]
        cases r' with
        | error e =>
          cases hafter with
          | done _ _ => exact ⟨more, rfl, hdone [] rfl, htask⟩
        | ok _ =>
          cases hafter with
          | read hlook =>
            dsimp only at hlook
            split at hlook
            · obtain ⟨rest, rfl, hrest, htask'⟩ := ih hlook
              refine ⟨more ++ rest, List.append_assoc .., hparts.append hrest, fun b hb' ↦ ?_⟩
              rcases List.mem_append.1 hb' with hb' | hb'
              · exact htask b hb'
              · rw [htask' b hb',
                  Context.task_eq_of_later (Leads.later (fun _ _ ↦ Rely.later) hb)]
            · cases hlook with
              | done _ _ => exact ⟨more, rfl, hdone _ rfl, htask⟩

/-- A call in an iteration over tasks has the task at hand whose turn it is made in. -/
def OnTasks (ss : List Step) (count index : Nat) (tasks : List Json.Value) (out : List Account) :
    Prop :=
  ∀ {k : Nat} {b : Account}, out[k]? = some b → 0 < ss.length ∧
    ∃ v, tasks[k / ss.length]? = some v ∧
      b.context.task = some (PerTask.taskAt count (index + k / ss.length) v)

theorem Pass.length_le {ss : List Step} {as : List Account} {r : Except StepError Unit}
    (h : Pass ss as r) : as.length ≤ ss.length := by
  induction h with
  | done => exact le_rfl
  | next _ _ ih => exact Nat.succ_le_succ ih
  | failed _ => exact Nat.succ_le_succ (Nat.zero_le _)

theorem onTasks_of_pass {count index : Nat} {v : Json.Value} {vs : List Json.Value}
    (hpass : Pass ss out r)
    (htask : ∀ b ∈ out, b.context.task = some (PerTask.taskAt count index v)) :
    OnTasks ss count index (v :: vs) out := by
  intro k b hb
  obtain ⟨hk, -⟩ := List.getElem?_eq_some_iff.1 hb
  have hlt : k < ss.length := hk.trans_le hpass.length_le
  refine ⟨Nat.zero_lt_of_lt hlt, v, ?_, ?_⟩
  · rw [Nat.div_eq_of_lt hlt]
    rfl
  · rw [Nat.div_eq_of_lt hlt]
    exact htask b (List.mem_of_getElem? hb)

theorem OnTasks.cons {count index : Nat} {v : Json.Value} {vs : List Json.Value}
    {more : List Account} (hpass : Pass ss out (.ok ()))
    (htask : ∀ b ∈ out, b.context.task = some (PerTask.taskAt count index v))
    (h : OnTasks ss count (index + 1) vs more) :
    OnTasks ss count index (v :: vs) (out ++ more) := by
  intro k b hb
  have hlength : out.length = ss.length := by
    rw [← hpass.steps_eq, List.length_map]
  rcases Nat.lt_or_ge k out.length with hk | hk
  · rw [List.getElem?_append_left hk] at hb
    exact onTasks_of_pass hpass htask hb
  · rw [List.getElem?_append_right hk, hlength] at hb
    obtain ⟨hpos, u, hu, hbu⟩ := h hb
    have hdiv : k / ss.length = (k - ss.length) / ss.length + 1 :=
      Nat.div_eq_sub_div hpos (hlength ▸ hk)
    refine ⟨hpos, u, ?_, ?_⟩
    · rw [hdiv]
      exact hu
    · rw [hbu, hdiv, Nat.add_right_comm, Nat.add_assoc]

theorem leads_of_iterations (hbody : Turns env false ss body) (hfollows : Passing Set.univ body)
    {count index : Nat} {tasks : List Json.Value}
    (h : Leads anyGrowth (Rely shared) (PerTask.iterate body count index tasks so) c as (out, r)
      d) :
    ∃ more, out = so ++ more ∧ Parts env false more as ∧ OnTasks ss count index tasks more := by
  induction tasks generalizing index so c as with
  | nil =>
    cases h with
    | done _ _ => exact ⟨[], (List.append_nil _).symm, .nil rfl, nofun⟩
  | cons record rest ih =>
    rw [PerTask.iterate] at h
    cases h with
    | read h =>
      obtain ⟨bs, ⟨⟨so', r'⟩, fork⟩, e, cs, rfl, hb, hafter⟩ := h.of_bind
      obtain ⟨fs, hf, heq⟩ := hb.of_isolated (hfollows so _)
      have halone : Leads anyGrowth (Rely false) (body so) _ fs (so', r') fork :=
        hf.mono fun _ _ h ↦ h
      obtain ⟨more, rfl, hpass, hparts, htask⟩ := hbody halone
      have hturn := hparts.congr heq.symm
      have hdone : ∀ cs, deeds cs = [] → Parts env false more (.read c :: (bs ++ cs)) := by
        intro cs hcs
        refine hturn.congr ?_
        rw [Process.deeds_read, Process.deeds_append, hcs, List.append_nil]
      cases hafter with
      | write _ hafter =>
        cases r' with
        | ok _ =>
          obtain ⟨rest, rfl, hrest, htasks⟩ := ih hafter
          refine ⟨more ++ rest, List.append_assoc .., ?_, htasks.cons hpass htask⟩
          exact hturn.append (hrest.congr rfl)
        | error err =>
          dsimp only at hafter
          split at hafter
          · cases hafter with
            | write _ hmarked =>
              cases hmarked with
              | done _ _ => exact ⟨more, rfl, hdone _ rfl, onTasks_of_pass hpass htask⟩
          · cases hafter with
            | done _ _ => exact ⟨more, rfl, hdone _ rfl, onTasks_of_pass hpass htask⟩

/-! ## Steps side by side -/

variable {g : Group} {inside : List Account}

/-- After its children a group sets its output, or it changes nothing. -/
theorem leads_of_closing {R : Context → Context → Prop} {course : Course}
    (h : Leads anyGrowth R (g.closing ss inside) c as course d) :
    course = (inside, firstError inside) ∧
      ((firstError inside = .ok () ∧ ∃ key, g.output = some key ∧
          as = [.write fun c ↦ c.set key (c.outputs ss)] ∧ d = c.set key (c.outputs ss)) ∨
        as = [] ∧ d = c ∧ (firstError inside = .ok () → g.output = none)) := by
  rw [Group.closing] at h
  rw [firstError]
  cases he : inside.findSome? Account.error? with
  | some e =>
    rw [he] at h
    cases h with
    | done _ _ => exact ⟨rfl, .inr ⟨rfl, rfl, by simp⟩⟩
  | none =>
    rw [he] at h
    cases ho : g.output with
    | some key =>
      rw [ho] at h
      cases h with
      | write _ h =>
        cases h with
        | done _ _ => exact ⟨rfl, .inl ⟨rfl, key, rfl, rfl, rfl⟩⟩
    | none =>
      rw [ho] at h
      cases h with
      | done _ _ => exact ⟨rfl, .inr ⟨rfl, rfl, fun _ ↦ rfl⟩⟩

theorem passages_of_children {ls : List (List (Act Context) × Account)}
    (h : List.Forall₂ (fun s l ↦ Leads.Between anyGrowth (Step.call env s) c l.1 l.2 d) ss ls) :
    ls.map (fun l ↦ l.2.step) = ss ∧ ∀ l ∈ ls, ∃ e, anyGrowth.Later c l.2.context ∧
      l.2.Passage env true l.1 e ∧ anyGrowth.Later e d := by
  induction h with
  | nil => exact ⟨rfl, nofun⟩
  | cons hl _ ih =>
    obtain ⟨u, v, hu, hlead, hv⟩ := hl
    have hshared : Leads anyGrowth (Rely true) _ u _ _ v := hlead.mono fun _ _ h ↦ h
    obtain ⟨rfl, rfl, -⟩ := leads_of_call hshared
    refine ⟨by rw [List.map_cons, ih.1], List.forall_mem_cons.2 ⟨?_, ih.2⟩⟩
    exact ⟨v, hu, hshared, hv⟩

/-- The children of a group are called in contexts between the one that the group begins in and the
one in which all of them have ended, and they share it. -/
theorem leads_of_children
    (h : Leads anyGrowth (Rely shared) (Process.arrivals (ss.map (Step.call env))) c as inside d) :
    ∃ (ks : List (List (Act Context) × Account)) (ns : List (Act Context)),
      ks.map (·.2) = inside ∧ (inside.map Account.step).Perm ss ∧
      (∀ k ∈ ks, ∃ e, anyGrowth.Later c k.2.context ∧ k.2.Passage env true k.1 e ∧
        anyGrowth.Later e d) ∧
      Interleaved (ks.map (·.1)) ns ∧ ns.Sublist as ∧ deeds ns = deeds as ∧
      (shared = false → d = (writes ns).foldl (fun c f ↦ f c) c) := by
  obtain ⟨ls, ks, ns, hls, hperm, rfl, hi, hsub, hdeeds, hstate⟩ :=
    h.of_arrivals fun _ _ ↦ Rely.later
  obtain ⟨hsteps, hpassages⟩ := passages_of_children (List.forall₂_map_left_iff.1 hls)
  refine ⟨ks, ns, rfl, ?_, fun k hk ↦ hpassages k (hperm.mem_iff.1 hk), hi, hsub, hdeeds, ?_⟩
  · rw [List.map_map, ← hsteps]
    exact hperm.map _
  · rintro rfl
    exact hstate fun _ _ h ↦ h

theorem parts_of_group
    (h : Leads anyGrowth (Rely shared) (g.process ss (ss.map (Step.call env))) c as (inside, r) d) :
    Parts env true inside as ∧ ∀ b ∈ inside, b.context.task = c.task := by
  obtain ⟨bs, inside, m, cs, rfl, hb, hc⟩ := Leads.of_bind h
  obtain ⟨ks, ns, rfl, -, hks, hi, -, hdeeds, -⟩ := leads_of_children hb
  obtain ⟨heq, hend⟩ := leads_of_closing hc
  cases heq
  have hcs : deeds cs = [] := by
    rcases hend with ⟨-, key, -, rfl, -⟩ | ⟨rfl, -⟩
    · rfl
    · rfl
  refine ⟨⟨ks, rfl, fun k hk ↦ ?_, ?_⟩, fun b hb' ↦ ?_⟩
  · obtain ⟨e, -, hk, -⟩ := hks k hk
    exact ⟨e, hk⟩
  · rw [Process.deeds_append, hcs, List.append_nil, ← hdeeds]
    have hfilter := hi.filterMap Process.Act.deed?
    rwa [List.map_map] at hfilter
  · obtain ⟨k, hk, rfl⟩ := List.mem_map.1 hb'
    obtain ⟨e, hlater, -⟩ := hks k hk
    exact Context.task_eq_of_later hlater

/-! ## Steps -/

theorem leads_of_alone {R : Context → Context → Prop} {p : Behaviour Unit} {course : Course}
    (h : Leads anyGrowth R p.alone c as course d) :
    course.1 = [] ∧ Leads anyGrowth R p c as course.2 d := by
  obtain ⟨bs, r, e, cs, rfl, hb, hc⟩ := Leads.of_bind h
  cases hc with
  | done _ _ =>
    rw [List.append_nil]
    exact ⟨rfl, hb⟩

namespace Step

/-- What follows growth in a step with steps inside, wherever a pass begins. -/
theorem passing_inOrder (env : Environment) (ss : List Step) :
    Passing Set.univ (Process.inOrder Account.error? (ss.map (Step.call env))) := by
  intro so c
  rw [← Step.calls_eq_map]
  exact follows_inOrder (telling_calls env ss fun _ _ ↦ Set.subset_univ _) so

theorem inside_of_leaf {s : Step} (hs : s.kind = .agent ∨ s.kind = .code)
    (h : Leads anyGrowth (Rely shared) (s.body env) c as (inside, r) d) : inside = [] := by
  cases s with
  | agent s | code s => exact (leads_of_alone h).1
  | _ => rcases hs with hs | hs <;> cases hs

/-- In a step with steps inside, all that is done is done in the calls of these. -/
theorem parts_of_body {s : Step} (hs : s.kind ≠ .agent) (hs' : s.kind ≠ .code)
    (h : Leads anyGrowth (Rely shared) (s.body env) c as (inside, r) d) :
    Parts env (s.sharing shared) inside as := by
  cases s with
  | agent s => exact absurd rfl hs
  | code s => exact absurd rfl hs'
  | parallel g ss => exact (parts_of_group h).1
  | loop l ss =>
    obtain ⟨more, hmore, hparts, -⟩ := leads_of_iterate (turns_inOrder env shared ss) h
    rw [List.nil_append] at hmore
    exact hmore ▸ hparts
  | perTask p ss =>
    cases h with
    | read h =>
      dsimp only at h
      split at h
      · cases h with
        | done _ _ => exact .nil rfl
      · obtain ⟨more, hmore, hparts, -⟩ :=
          leads_of_iterations (turns_inOrder env false ss) (passing_inOrder env ss) h
        rw [List.nil_append] at hmore
        exact hmore ▸ hparts.congr rfl

/-- Only an iteration over tasks changes the task at hand. -/
theorem task_of_body {s : Step} (hs : s.kind ≠ .perTask)
    (h : Leads anyGrowth (Rely shared) (s.body env) c as (inside, r) d) :
    ∀ b ∈ inside, b.context.task = c.task := by
  cases s with
  | agent s =>
    rw [inside_of_leaf (.inl rfl) h]
    exact nofun
  | code s =>
    rw [inside_of_leaf (.inr rfl) h]
    exact nofun
  | parallel g ss => exact (parts_of_group h).2
  | loop l ss =>
    obtain ⟨more, hmore, -, htask⟩ := leads_of_iterate (turns_inOrder env shared ss) h
    rw [List.nil_append] at hmore
    exact hmore ▸ htask
  | perTask p ss => exact absurd rfl hs

theorem onTasks_of_body {p : PerTask}
    (h : Leads anyGrowth (Rely shared) ((perTask p ss).body env) c as (inside, r) d) :
    inside = [] ∨ ∃ tasks, p.tasks c = .ok tasks ∧ OnTasks ss tasks.length 0 tasks inside := by
  cases h with
  | read h =>
    dsimp only at h
    split at h
    · cases h with
      | done _ _ => exact .inl rfl
    · next tasks htasks =>
      obtain ⟨more, hmore, -, hon⟩ :=
        leads_of_iterations (turns_inOrder env false ss) (passing_inOrder env ss) h
      rw [List.nil_append] at hmore
      exact .inr ⟨tasks, htasks, hmore ▸ hon⟩

end Step

end

end Workflow
