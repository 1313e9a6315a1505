import Workflow.Proofs.Step.Leaf
import Workflow.Proofs.Step.Owner

/-!
# What a step without steps inside asks

A step that sends a prompt or calls a handler makes one call at most, which it waits for, and then
it writes what comes of the answer: `Step.path_of_body`. That is all that it does between its
reports. What it asks depends on nothing but the context that it begins in, because nothing comes
before the call (`Step.asks_of_body`).

With this the deeds that a call has of its own can be told apart. A request is that of an agent step
(`Owns.eq_compose`), and the report that a step is completed is the last one of its call
(`Owns.eq_closing`).
-/

namespace Workflow

open Json (Value)
open Process (Act Deed Leads Path deeds)
open Context (anyGrowth Rely)

variable {env : Environment} {shared : Bool} {c d : Context} {as : List (Act Context)}

/-- A call that is waited for. -/
inductive Asks (asked : Call) : List Deed → Prop where
  | atOnce (limit : Option Nat) (s : Settlement) : Asks asked [.call asked limit (.settled s)]
  | later (limit : Option Nat) (t u : Ticket) (s : Settlement) :
      Asks asked [.call asked limit (.pending t), .settle u s]

/-- What a step without steps inside asks in a context: the composed prompt of an agent step, or the
handler of a code step. -/
def Step.Asking (env : Environment) (c : Context) : Step → Call → Prop
  | .agent s, asked => ∃ agent prompt,
      asked = .dispatch (Prompt.compose s agent prompt env.defaults env.facts c)
  | .code s, asked => asked = .handler s.handler c (s.input.bind c.get?)
  | _, _ => False

/-! ## What comes of an answer -/

namespace Step

/-- The error of a step whose reply breaks off. -/
def failure : Step → String → StepError
  | .agent s, reason => .dispatch s.name reason
  | .code s, reason => .handler s.name s.handler reason
  | s, _ => .cancelled s.name

/-- What a step makes of a context by taking a reply that came to its end with a value. -/
def take : Step → Reply → Value → Context → Context
  | .agent s, reply, _ => Context.takeOutcome s (.ofMessages reply.messages)
  | .code s, _, v => Context.takeValue s v
  | _, _, _ => id

/-- How a step without steps inside ends that hears an answer to its call, and what it writes. -/
def answered (s : Step) : Settlement → Except StepError Unit × List (Context → Context)
  | .timedOut limit => (.error (.timeout s.name limit), [])
  | .cancelled => (.error (.cancelled s.name), [])
  | .replied reply =>
    match reply.ending with
    | .error reason => (.error (s.failure reason), [])
    | .ok v => (.ok (), [s.take reply v])

/-- A step asks, waits for the answer, and takes the reply. -/
def exchange (env : Environment) (s : Step) (asked : Call) : Behaviour Unit :=
  calling env s.name asked fun reply ↦
    match reply.ending with
    | .error reason => .done (.error (s.failure reason))
    | .ok v => .write (s.take reply v) (.done (.ok ()))

variable {s : Step} {course : Course} {r : Except StepError Unit}

/-- After its answer a step does nothing but to write what comes of it. -/
theorem path_of_exchange {asked : Call} (h : Path (s.exchange env asked) as r) :
    ∃ bs answer,
      Path (Process.settle asked env.stepTimeout : Process Context Settlement) bs answer ∧
      as = bs ++ (s.answered answer).2.map Act.write ∧ r = (s.answered answer).1 := by
  obtain ⟨bs, answer, cs, rfl, hb, hc⟩ := Path.of_bind h
  refine ⟨bs, answer, hb, ?_⟩
  cases answer with
  | timedOut _ | cancelled =>
    obtain ⟨rfl, rfl⟩ := hc.of_done
    exact ⟨rfl, rfl⟩
  | replied reply =>
    dsimp only at hc
    rw [answered]
    cases hending : reply.ending with
    | error reason =>
      rw [hending] at hc
      obtain ⟨rfl, rfl⟩ := hc.of_done
      exact ⟨rfl, rfl⟩
    | ok v =>
      rw [hending] at hc
      obtain ⟨ds, rfl, hd⟩ := hc.of_write
      obtain ⟨rfl, rfl⟩ := hd.of_done
      exact ⟨rfl, rfl⟩

theorem body_cases (env : Environment) (hs : s.kind = .agent ∨ s.kind = .code) :
    (∃ e, s.body env = .done ([], .error e)) ∨
      ∃ asked : Context → Call, (∀ c, s.Asking env c (asked c)) ∧
        s.body env = Behaviour.alone (.read fun c ↦ s.exchange env (asked c)) := by
  cases s with
  | agent s =>
    rw [body, AgentStep.process]
    split
    · exact .inl ⟨_, rfl⟩
    · dsimp only
      split
      · exact .inl ⟨_, rfl⟩
      · next agent prompt _ => exact .inr ⟨_, fun c ↦ ⟨agent, prompt, rfl⟩, rfl⟩
  | code s =>
    rw [body, CodeStep.process]
    split
    · exact .inl ⟨_, rfl⟩
    · exact .inr ⟨_, fun c ↦ rfl, rfl⟩
  | _ => rcases hs with hs | hs <;> cases hs

/-- **What a step does by itself.** A step without steps inside fails at once, or it looks at the
context, makes the one call that it makes there, and then writes what comes of the answer. -/
theorem path_of_body (hs : s.kind = .agent ∨ s.kind = .code) (h : Path (s.body env) as course) :
    (∃ e, s.body env = .done ([], .error e) ∧ as = []) ∨
      ∃ c asked bs answer, s.Asking env c asked ∧
        Path (Process.settle asked env.stepTimeout : Process Context Settlement) bs answer ∧
        as = .read c :: (bs ++ (s.answered answer).2.map Act.write) ∧
        course.2 = (s.answered answer).1 := by
  rcases body_cases env hs with ⟨e, hbody⟩ | ⟨asked, hasking, hbody⟩
  · rw [hbody] at h
    exact .inl ⟨e, hbody, h.of_done.1⟩
  · rw [hbody] at h
    obtain ⟨as, r, cs, rfl, hr, hc⟩ := Path.of_bind h
    obtain ⟨rfl, rfl⟩ := hc.of_done
    obtain ⟨c, ds, rfl, hd⟩ := hr.of_read
    obtain ⟨bs, answer, hb, rfl, rfl⟩ := path_of_exchange hd
    rw [List.append_nil]
    exact .inr ⟨c, asked c, bs, answer, hasking c, hb, rfl, rfl⟩

theorem leaf_of_body (hs : s.kind = .agent ∨ s.kind = .code) (h : Path (s.body env) as course) :
    s.Leaf as course.2 := by
  cases s with
  | agent s => exact leaf_of_alone AgentStep.leaf_of_path h
  | code s => exact leaf_of_alone CodeStep.leaf_of_path h
  | _ => rcases hs with hs | hs <;> cases hs

/-! ## What is asked -/

theorem asks_of_settle {asked : Call} {limit : Option Nat} {settlement : Settlement}
    (h : Path (Process.settle asked limit : Process Context Settlement) as settlement) :
    Asks asked (deeds as) := by
  obtain ⟨b, bs, rfl, hb⟩ := h.of_call
  cases b with
  | settled s =>
    obtain ⟨rfl, -⟩ := hb.of_done
    exact .atOnce limit s
  | pending t =>
    obtain ⟨u, s, cs, rfl, hc⟩ := hb.of_await
    obtain ⟨rfl, -⟩ := hc.of_done
    exact .later limit t u s

/-- **What a step asks.** A step without steps inside asks nothing, or it makes the one call that it
makes in the context that it begins in. -/
theorem asks_of_body (hs : s.kind = .agent ∨ s.kind = .code)
    (h : Leads anyGrowth (Rely shared) (s.body env) c as course d) :
    deeds as = [] ∨ ∃ asked, s.Asking env c asked ∧ Asks asked (deeds as) := by
  rcases path_of_body hs h.path with ⟨-, -, rfl⟩ | ⟨c', asked, bs, answer, hasking, hb, rfl, -⟩
  · exact .inl rfl
  · obtain rfl : c' = c := by
      generalize s.body env = p at h
      cases h
      rfl
    refine .inr ⟨asked, hasking, ?_⟩
    rw [Process.deeds_read, Process.deeds_append, Process.deeds_map_write, List.append_nil]
    exact asks_of_settle hb

end Step

/-! ## Deeds of one's own -/

theorem Asks.not_report {asked : Call} {ds : List Deed} (h : Asks asked ds) (e : Audit.Event)
    (answer : Option String) : .report e answer ∉ ds := by
  cases h <;> simp

theorem Asks.eq_of_mem {asked asked' : Call} {ds : List Deed} {limit : Option Nat}
    {begun : Beginning} (h : Asks asked ds) (hmem : .call asked' limit begun ∈ ds) :
    asked' = asked := by
  cases h <;> simp_all

theorem Account.Owns.eq_compose {b : Account} {bs : List (Act Context)} {e : Context}
    {request : Dispatch.Request} {limit : Option Nat} {begun : Beginning}
    (h : b.Owns env shared bs e (.call (.dispatch request) limit begun)) :
    ∃ s agent prompt, b.step = .agent s ∧
      request = Prompt.compose s agent prompt env.defaults env.facts b.context := by
  cases h with
  | leaf hleaf hperforms hmem =>
    rcases Step.asks_of_body hleaf hperforms.body with hnone | ⟨asked, hasking, hasks⟩
    · rw [hnone] at hmem
      cases hmem
    · obtain rfl := hasks.eq_of_mem hmem
      cases hs : b.step with
      | agent s =>
        rw [hs] at hasking
        obtain ⟨agent, prompt, heq⟩ := hasking
        exact ⟨s, agent, prompt, rfl, Call.dispatch.inj heq⟩
      | _ =>
        rw [hs] at hasking
        cases hasking

theorem Account.Owns.eq_closing {b : Account} {bs : List (Act Context)} {e : Context}
    {event : Audit.Event} {answer : Option String}
    (h : b.Owns env shared bs e (.report event answer)) (hstatus : event.status = .completed) :
    ∃ n cs, event = closingEvent b.step n e (.ok ()) ∧
      b.Performs env shared bs e cs (.ok ()) answer := by
  cases h with
  | report _ hne => exact absurd hstatus hne
  | @closing cs r _ n hperforms =>
    cases r with
    | ok _ => exact ⟨n, cs, rfl, hperforms⟩
    | error err =>
      rw [closingEvent] at hstatus
      split at hstatus <;> cases hstatus
  | leaf hleaf hperforms hmem =>
    rcases Step.asks_of_body hleaf hperforms.body with hnone | ⟨asked, -, hasks⟩
    · rw [hnone] at hmem
      cases hmem
    · exact absurd hmem (hasks.not_report event answer)

end Workflow
