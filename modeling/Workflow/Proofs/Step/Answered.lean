import Workflow.Proofs.Step.Asking

/-!
# Steps that are answered

What a step without steps inside comes to is settled by the answer to its only call:
`Step.answered` tells how it ends and what it writes, and `answered_of_body` that this is so on
every path. It reads the context before it calls, but what it reads goes into the call only. So if
it is not skipped on a condition, two paths on which it hears the same answer end alike and make the
same writes (`Step.Hears.unique`), whatever is done to the context besides.

What it writes is to add files and to set one variable at most, so the writes of two steps with
different outputs can change places: `Context.taking_comm`.
-/

namespace Workflow

open Json (Members Value)
open Process (Act Leads Path reports settlements writes)
open Context (anyGrowth)

/-! ## Taking files and a value -/

namespace Context

/-- Adds some files, and sets one variable or none. -/
def taking (files : List String) (assigned : Option (String × Value)) (c : Context) : Context :=
  { c with
    vars :=
      match assigned with
      | some (key, v) => c.vars.insert key v
      | none => c.vars
    changedFiles := c.changedFiles.insertAll files }

theorem taking_comm {files files' : List String} {assigned assigned' : Option (String × Value)}
    (h : ∀ key ∈ assigned.map Prod.fst, key ∉ assigned'.map Prod.fst) (c : Context) :
    (c.taking files assigned).taking files' assigned' =
      (c.taking files' assigned').taking files assigned := by
  have hfiles := Text.NameSet.insertAll_comm c.changedFiles files files'
  unfold taking
  dsimp only
  rw [hfiles]
  cases assigned with
  | none => rfl
  | some kv =>
    cases assigned' with
    | none => rfl
    | some kv' =>
      have hne : kv'.1 ≠ kv.1 := fun heq ↦ h kv.1 rfl (congrArg some heq)
      dsimp only
      rw [Members.insert_comm hne]

theorem get?_taking {files : List String} {assigned : Option (String × Value)} {name : String}
    (h : name ∉ assigned.map Prod.fst) (c : Context) :
    (c.taking files assigned).vars.get? name = c.vars.get? name := by
  cases assigned with
  | none => rfl
  | some kv =>
    have hne : kv.1 ≠ name := fun heq ↦ h (congrArg some heq)
    exact (Members.get?_insert name kv.1 kv.2 c.vars).trans (if_neg hne)

theorem get?_taking_self (files : List String) (name : String) (v : Value) (c : Context) :
    (c.taking files (some (name, v))).vars.get? name = some v :=
  (Members.get?_insert name name v c.vars).trans (if_pos rfl)

end Context

/-! ## What comes of an answer -/

namespace Step

/-- Taking a reply is to add files, and to set the variable that the reply assigns. -/
theorem exists_take_eq {s : Step} {reply : Reply} {v : Value}
    (hs : s.kind = .agent ∨ s.kind = .code) (hv : reply.ending = .ok v) :
    ∃ files, s.take reply v = Context.taking files (s.assignment? reply) := by
  cases s with
  | agent s =>
    rw [assignment?, ← Dispatch.output_ofMessages]
    generalize hoc : Dispatch.Outcome.ofMessages reply.messages = o
    cases hout : o.output with
    | none =>
      refine ⟨o.changedFiles, funext fun c ↦ ?_⟩
      rw [take, hoc, Context.takeOutcome, hout, Context.addFiles_eq]
      rfl
    | some v =>
      refine ⟨o.changedFiles ++ namedFiles v, funext fun c ↦ ?_⟩
      rw [take, hoc, Context.takeOutcome, hout, Context.addFiles_eq]
      unfold Context.taking
      dsimp only
      rw [Context.addFiles_eq, ← Text.NameSet.insertAll_append]
      rfl
  | code s =>
    obtain ⟨messages, ending⟩ := reply
    obtain rfl : ending = .ok v := hv
    rw [assignment?]
    by_cases hnull : v.isNull = true
    · refine ⟨[], funext fun c ↦ ?_⟩
      rw [take, Context.takeValue, if_pos hnull, if_pos hnull]
      rfl
    · refine ⟨namedFiles v, funext fun c ↦ ?_⟩
      rw [take, Context.takeValue, if_neg hnull, if_neg hnull, Context.addFiles_eq]
      cases s.output with
      | none => rfl
      | some key => rfl
  | _ => rcases hs with hs | hs <;> cases hs

variable {env : Environment} {s : Step} {as bs : List (Act Context)} {a b : Account}
  {answer : Settlement}

/-- **Answers.** A step without steps inside fails before it can call, on whatever path, or what
comes of it is what comes of the answer that it hears, and that comes last of all. -/
theorem answered_of_body {course : Course} (hs : s.kind = .agent ∨ s.kind = .code)
    (h : Path (s.body env) as course) :
    (∃ e, s.body env = .done ([], .error e)) ∨
      ∃ bs answer, settlements as = [answer] ∧ as = bs ++ (s.answered answer).2.map Act.write ∧
        (course.2, writes as) = s.answered answer := by
  rcases path_of_body hs h with ⟨e, hbody, -⟩ | ⟨c, asked, bs, answer, -, hb, rfl, hr⟩
  · exact .inl ⟨e, hbody⟩
  · obtain ⟨hwrites, hsettlements⟩ := path_of_settle hb
    refine .inr ⟨.read c :: bs, answer, ?_, rfl, ?_⟩
    · refine (Process.settlements_append bs _).trans ?_
      rw [hsettlements, Process.settlements_map_write, List.append_nil]
    · refine Prod.ext hr ((Process.writes_append bs _).trans ?_)
      rw [hwrites, Process.writes_map_write, List.nil_append]

theorem eq_replied_of_ok {fs : List (Context → Context)}
    (h : (.ok (), fs) = s.answered answer) :
    ∃ reply v, answer = .replied reply ∧ reply.ending = .ok v ∧ fs = [s.take reply v] := by
  cases answer with
  | timedOut _ | cancelled => cases (Prod.mk.inj h).1
  | replied reply =>
    rw [answered] at h
    cases hv : reply.ending with
    | error reason =>
      rw [hv] at h
      cases (Prod.mk.inj h).1
    | ok v =>
      rw [hv] at h
      exact ⟨reply, v, rfl, hv, (Prod.mk.inj h).2⟩

/-- If such a step completes, the context that it leaves is what it makes of the one that it finds
when it hears the reply, also if others work on it. -/
theorem taken_of_body {R : Context → Context → Prop} {c d : Context} {inside : List Account}
    (hs : s.kind = .agent ∨ s.kind = .code)
    (h : Leads anyGrowth R (s.body env) c as (inside, .ok ()) d) :
    ∃ reply v m, settlements as = [.replied reply] ∧ reply.ending = .ok v ∧
      writes as = [s.take reply v] ∧ d = s.take reply v m := by
  rcases answered_of_body hs h.path with ⟨e, hbody⟩ | ⟨bs, answer, hanswer, heq, hr⟩
  · rw [hbody] at h
    cases h
  · obtain ⟨m, rfl⟩ := Leads.exists_eq_foldl (heq ▸ h)
    obtain ⟨reply, v, rfl, hv, hwrites⟩ := eq_replied_of_ok hr
    refine ⟨reply, v, m, hanswer, hv, hwrites, ?_⟩
    rw [answered, hv]
    rfl

/-! ## Steps that hear the same answer -/

/-- A step that sends a prompt or calls a handler, whatever the context is. -/
inductive Unconditional : Step → Prop where
  | agent {s : AgentStep} : s.condition = none → Unconditional (.agent s)
  | code (s : CodeStep) : Unconditional (.code s)

theorem Unconditional.leaf (h : s.Unconditional) : s.kind = .agent ∨ s.kind = .code := by
  cases h with
  | agent _ => exact .inl rfl
  | code _ => exact .inr rfl

theorem Unconditional.skipReason_eq (h : s.Unconditional) (c d : Context) :
    skipReason env c s = skipReason env d s := by
  cases h with
  | agent hcondition => simp only [skipReason, hcondition]
  | code _ => rfl

/-- On a path on which every report is accepted, the call of a step hears one answer, or none. -/
structure Hears (env : Environment) (s : Step) (answer : Settlement) (as : List (Act Context))
    (a : Account) : Prop where
  path : Path (s.call env) as a
  accepted : ∀ q ∈ reports as, q.2 = none
  heard : ∀ settlement ∈ settlements as, settlement = answer

theorem Hears.cases (h : s.Hears env answer as a) (hs : s.kind = .agent ∨ s.kind = .code) :
    (∃ c reason, skipReason env c s = some reason ∧ a.ending = .ok .skipped ∧ writes as = []) ∨
    (∃ c e, skipReason env c s = none ∧ s.body env = .done ([], .error e) ∧ a.ending = .error e ∧
      writes as = []) ∨
    ∃ c, skipReason env c s = none ∧ (∀ course, s.body env ≠ .done course) ∧
      a.ending = (s.answered answer).1.map (fun _ ↦ .completed) ∧
      writes as = (s.answered answer).2 := by
  have hpath := h.path
  rw [call_eq] at hpath
  rcases path_of_audited hpath h.accepted with
    ⟨c, reason, hskip, hending, hwrites, -⟩ |
    ⟨c, bs, course, hskip, hb, hending, hwrites, hsettlements⟩
  · exact .inl ⟨c, reason, hskip, hending, hwrites⟩
  · rcases answered_of_body hs hb with ⟨e, hbody⟩ | ⟨-, answer', hanswer, -, heq⟩
    · rw [hbody] at hb
      obtain ⟨rfl, rfl⟩ := hb.of_done
      exact .inr (.inl ⟨c, e, hskip, hbody, hending, hwrites⟩)
    · have hheard : answer' ∈ settlements as := by
        rw [hsettlements, hanswer]
        exact List.mem_singleton_self _
      obtain rfl := h.heard _ hheard
      obtain ⟨hr, hw⟩ := Prod.mk.inj heq
      refine .inr (.inr ⟨c, hskip, fun course' hdone ↦ ?_, hr ▸ hending, hwrites.trans hw⟩)
      rw [hdone] at hb
      obtain ⟨rfl, -⟩ := hb.of_done
      cases hanswer

/-- A call that hears an answer writes nothing, or it completes and takes a reply. -/
theorem Hears.writes_eq (h : s.Hears env answer as a) (hs : s.kind = .agent ∨ s.kind = .code) :
    (a.ending ≠ .ok .completed ∧ writes as = []) ∨
      ∃ reply files, answer = .replied reply ∧ a.ending = .ok .completed ∧
        writes as = [Context.taking files (s.assignment? reply)] := by
  rcases h.cases hs with ⟨-, -, -, hend, hw⟩ | ⟨-, e, -, -, hend, hw⟩ | ⟨-, -, -, hend, hw⟩
  · exact .inl ⟨by simp [hend], hw⟩
  · exact .inl ⟨by simp [hend], hw⟩
  · cases answer with
    | timedOut _ | cancelled => exact .inl ⟨by simp [hend, answered, Except.map], hw⟩
    | replied reply =>
      rw [answered] at hend hw
      cases hv : reply.ending with
      | error reason =>
        rw [hv] at hend hw
        exact .inl ⟨by simp [hend, Except.map], hw⟩
      | ok v =>
        rw [hv] at hend hw
        obtain ⟨files, htake⟩ := exists_take_eq hs hv
        exact .inr ⟨reply, files, rfl, hend, htake ▸ hw⟩

/-- **The same answer.** If a step is skipped on no condition, two paths on which it hears the same
answer end alike and make the same writes. -/
theorem Hears.unique (hs : s.Unconditional) (h : s.Hears env answer as a)
    (h' : s.Hears env answer bs b) : a.ending = b.ending ∧ writes as = writes bs := by
  rcases h.cases hs.leaf with ⟨c, reason, hskip, hend, hw⟩ | ⟨c, e, hskip, hbody, hend, hw⟩ |
    ⟨c, hskip, hbody, hend, hw⟩
  all_goals
    rcases h'.cases hs.leaf with ⟨d, reason', hskip', hend', hw'⟩ |
      ⟨d, e', hskip', hbody', hend', hw'⟩ | ⟨d, hskip', hbody', hend', hw'⟩
  · exact ⟨hend.trans hend'.symm, hw.trans hw'.symm⟩
  · cases hskip.symm.trans ((hs.skipReason_eq c d).trans hskip')
  · cases hskip.symm.trans ((hs.skipReason_eq c d).trans hskip')
  · cases hskip.symm.trans ((hs.skipReason_eq c d).trans hskip')
  · cases hbody.symm.trans hbody'
    exact ⟨hend.trans hend'.symm, hw.trans hw'.symm⟩
  · exact absurd hbody (hbody' _)
  · cases hskip.symm.trans ((hs.skipReason_eq c d).trans hskip')
  · exact absurd hbody' (hbody _)
  · exact ⟨hend.trans hend'.symm, hw.trans hw'.symm⟩

end Step

end Workflow
