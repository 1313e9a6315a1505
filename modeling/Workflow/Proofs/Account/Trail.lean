import Workflow.Proofs.Process.Path
import Workflow.Step.Behaviour

/-!
# The trail of a call

Every call leaves a trail of reports. It is a single report when the step is skipped. Otherwise it
is the report of the start, what the calls inside leave, and one report of how the call ended, with
nothing after it. `Account.Trail` says so of an account, and with it that the account itself is in
order: `Step.Admits` tells which calls there may be inside a step, and what becomes of it then.

A sink that fails cuts a trail short: nothing follows the report that it refused, and the call
ends with its reason. The rules for that are stated like the others, so that the trail of a call is
known whatever the sink does. Where the sink accepts everything they never apply.
-/

namespace Workflow

open Json (Value Members)
open Process (Report)

/-! ## What happens inside a step -/

/-- Some steps are called one after the other, up to the first call that fails. -/
inductive Pass : List Step → List Account → Except StepError Unit → Prop where
  | done : Pass [] [] (.ok ())
  | next {a : Account} {ss : List Step} {as : List Account} {r : Except StepError Unit} :
      a.error? = none → Pass ss as r → Pass (a.step :: ss) (a :: as) r
  | failed {a : Account} {ss : List Step} {e : StepError} :
      a.error? = some e → Pass (a.step :: ss) [a] (.error e)

/-- Some steps are called in any number of passes, up to the first pass that fails. -/
inductive Passes (ss : List Step) : List Account → Except StepError Unit → Prop where
  | done : Passes ss [] (.ok ())
  | next {as bs : List Account} {r : Except StepError Unit} :
      Pass ss as (.ok ()) → Passes ss bs r → Passes ss (as ++ bs) r
  | failed {as : List Account} {e : StepError} :
      Pass ss as (.error e) → Passes ss as (.error e)

/-- How several calls end together: with the error of the first one that failed. -/
def firstError (as : List Account) : Except StepError Unit :=
  match as.findSome? Account.error? with
  | some e => .error e
  | none => .ok ()

/-- What may happen inside a step. A group waits for all its children, in whatever order they end;
loops and iterations call theirs one after the other. -/
inductive Step.Admits : Step → Course → Prop where
  | agent (s : AgentStep) (r : Except StepError Unit) : Admits (.agent s) ([], r)
  | code (s : CodeStep) (r : Except StepError Unit) : Admits (.code s) ([], r)
  | parallel {g : Group} {ss : List Step} {as : List Account} :
      (as.map Account.step).Perm ss → Admits (.parallel g ss) (as, firstError as)
  | loop {l : Loop} {ss : List Step} {as : List Account} {r : Except StepError Unit} :
      Passes ss as r → Admits (.loop l ss) (as, r)
  | exhausted {l : Loop} {ss : List Step} {as : List Account} (n : Nat) :
      Passes ss as (.ok ()) → Admits (.loop l ss) (as, l.exhaustion n)
  | perTask {p : PerTask} {ss : List Step} {as : List Account} {r : Except StepError Unit} :
      Passes ss as r → Admits (.perTask p ss) (as, r)
  | noTasks {p : PerTask} {ss : List Step} (reason : String) :
      Admits (.perTask p ss) ([], .error (.taskSource p.name p.source reason))

/-! ## What is reported -/

/-- How the trails of the calls inside a step make up one: those inside a group are interleaved, all
others follow one another. -/
def Step.Joins {α : Type} : Step → List (List α) → List α → Prop
  | .parallel _ _, ls, l => Interleaved ls l
  | _, ls, l => l = ls.flatten

/-- The last report of a call says how it ended: that it completed, that it paused and what blocks
it, or that it failed and why. -/
inductive Step.Closes (s : Step) : Except StepError Unit → Audit.Event → Prop where
  | completed (m : Members Value) : Closes s (.ok ()) ⟨s.name, .completed, m⟩
  | paused {step blocker : String} {m : Members Value} :
      m.get? "blocker" = some (.string blocker) →
        Closes s (.error (.paused step blocker)) ⟨s.name, .paused, m⟩
  | failed {e : StepError} {m : Members Value} :
      e.isPause = false → m.get? "error" = some (.string e.message) →
        Closes s (.error e) ⟨s.name, .failed, m⟩

namespace Account

/-- The reports of a call, with those of all calls inside it, each with the answer of the sink. -/
inductive Trail : Account → List Report → Prop where
  | skipped (s : AgentStep) (c : Context) (m : Members Value) :
      Trail ⟨.agent s, c, [], .ok .skipped⟩ [(⟨s.name, .skipped, m⟩, none)]
  | unskipped (s : AgentStep) (c : Context) (m : Members Value) (reason : String) :
      Trail ⟨.agent s, c, [], .error (.audit reason)⟩ [(⟨s.name, .skipped, m⟩, some reason)]
  | unopened (s : Step) (c : Context) (m : Members Value) (reason : String) :
      Trail ⟨s, c, [], .error (.audit reason)⟩ [(⟨s.name, .started, m⟩, some reason)]
  | closed {s : Step} {c : Context} {m : Members Value} {calls : List (Account × List Report)}
      {r : Except StepError Unit} {rs : List Report} {e : Audit.Event} :
      s.Admits (calls.map (·.1), r) → (∀ c ∈ calls, Trail c.1 c.2) →
        s.Joins (calls.map (·.2)) rs → s.Closes r e →
        Trail ⟨s, c, calls.map (·.1), r.map fun _ ↦ .completed⟩
          ((⟨s.name, .started, m⟩, none) :: (rs ++ [(e, none)]))
  | unclosed {s : Step} {c : Context} {m : Members Value} {calls : List (Account × List Report)}
      {r : Except StepError Unit} {rs : List Report} {e : Audit.Event} (reason : String) :
      s.Admits (calls.map (·.1), r) → (∀ c ∈ calls, Trail c.1 c.2) →
        s.Joins (calls.map (·.2)) rs → s.Closes r e →
        Trail ⟨s, c, calls.map (·.1), .error (.audit reason)⟩
          ((⟨s.name, .started, m⟩, none) :: (rs ++ [(e, some reason)]))

/-! ## Calls one after the other -/

/-- The reports of several calls, each of which begins when the one before has ended. -/
def InTurn (as : List Account) (rs : List Report) : Prop :=
  ∃ calls : List (Account × List Report), calls.map (·.1) = as ∧ (∀ c ∈ calls, Trail c.1 c.2) ∧
    rs = (calls.map (·.2)).flatten

theorem inTurn_nil : InTurn [] [] := ⟨[], rfl, by simp, rfl⟩

theorem Trail.inTurn {a : Account} {rs : List Report} (h : a.Trail rs) : InTurn [a] rs :=
  ⟨[(a, rs)], rfl, by simpa using h, by simp⟩

theorem InTurn.append {as bs : List Account} {rs qs : List Report} (ha : InTurn as rs)
    (hb : InTurn bs qs) : InTurn (as ++ bs) (rs ++ qs) := by
  obtain ⟨cs, rfl, hcs, rfl⟩ := ha
  obtain ⟨ds, rfl, hds, rfl⟩ := hb
  refine ⟨cs ++ ds, List.map_append, ?_, ?_⟩
  · intro c hc
    rcases List.mem_append.1 hc with hc | hc
    · exact hcs c hc
    · exact hds c hc
  · rw [List.map_append, List.flatten_append]

end Account

end Workflow
