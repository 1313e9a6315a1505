import Workflow.Audit
import Workflow.Context
import Workflow.Dispatch

/-!
# Processes

A process is the behaviour of a step, before anyone decides how the outside answers: a tree of
everything it may do, with a branch for every answer. It reads and changes a state of type `σ`,
reports to the audit trail, looks at the clock, and calls agents and handlers. A call may be
answered at once, or it leaves a ticket, and the process goes on to wait until one of its tickets
is settled.

`Process.both` runs two processes side by side: each of them runs until it has to wait, and then
whichever has the ticket that is settled next. Nothing else interleaves them, so between two waits
every process has the state for itself.
-/

namespace Workflow

open Json (Value)

/-- What a process asks of the outside. -/
inductive Call where
  | dispatch (request : Dispatch.Request)
  /-- A handler gets a copy of the context as it is when the call begins. -/
  | handler (id : String) (snapshot : Context) (input : Option Value)

/-- What comes back from an agent or a handler: the messages on the way, and at the end a value or
the reason of a failure. -/
structure Reply where
  messages : List Dispatch.Message := []
  ending : Except String Value := .ok .null

/-- How a call ended. -/
inductive Settlement where
  | replied (reply : Reply)
  /-- The call took as long as its limit, in milliseconds, allows. -/
  | timedOut (limit : Nat)
  | cancelled

/-- What a process holds for a call that is not settled. -/
abbrev Ticket := Nat

/-- How a call begins. -/
inductive Beginning where
  | settled (s : Settlement)
  | pending (t : Ticket)

/-- The behaviours over a state that end with a result. -/
inductive Process (σ α : Type) where
  | done (result : α)
  | read (next : σ → Process σ α)
  | write (f : σ → σ) (next : Process σ α)
  /-- Reports an event; the sink may answer with the reason why it failed. -/
  | report (event : Audit.Event) (next : Option String → Process σ α)
  /-- Looks at the clock, in milliseconds. -/
  | clock (next : Nat → Process σ α)
  /-- Tells the host that a phase is completed; the host may answer with the reason of a failure. -/
  | announce (phase : String) (context : Context) (next : Option String → Process σ α)
  /-- Begins a call with a limit on its time. -/
  | call (call : Call) (limit : Option Nat) (next : Beginning → Process σ α)
  /-- Waits until one of its calls is settled. -/
  | await (tickets : List Ticket) (next : Ticket → Settlement → Process σ α)

namespace Process

variable {σ τ α β γ : Type}

/-! ## One after the other -/

/-- Goes on with the result of a process. -/
def bind : Process σ α → (α → Process σ β) → Process σ β
  | done a, f => f a
  | read k, f => read fun s ↦ (k s).bind f
  | write g p, f => write g (p.bind f)
  | report e k, f => report e fun r ↦ (k r).bind f
  | clock k, f => clock fun t ↦ (k t).bind f
  | announce n c k, f => announce n c fun r ↦ (k r).bind f
  | call c l k, f => call c l fun b ↦ (k b).bind f
  | await ts k, f => await ts fun t r ↦ (k t r).bind f

instance : Monad (Process σ) where
  pure := done
  bind := bind

theorem bind_assoc (p : Process σ α) (f : α → Process σ β) (g : β → Process σ γ) :
    (p.bind f).bind g = p.bind fun a ↦ (f a).bind g := by
  induction p <;> simp_all [bind]

/-- Begins a call and waits until it is settled. -/
def settle (c : Call) (limit : Option Nat) : Process σ Settlement :=
  call c limit fun
    | .settled s => done s
    | .pending t => await [t] fun _ s ↦ done s

/-! ## States inside states -/

/-- A process over a part of a larger state. -/
def zoom (view : τ → σ) (lift : (σ → σ) → τ → τ) : Process σ α → Process τ α
  | done a => done a
  | read k => read fun t ↦ zoom view lift (k (view t))
  | write g p => write (lift g) (zoom view lift p)
  | report e k => report e fun r ↦ zoom view lift (k r)
  | clock k => clock fun t ↦ zoom view lift (k t)
  | announce n c k => announce n c fun r ↦ zoom view lift (k r)
  | call c l k => call c l fun b ↦ zoom view lift (k b)
  | await ts k => await ts fun t r ↦ zoom view lift (k t r)

def onFirst (p : Process σ α) : Process (σ × τ) α := p.zoom (·.1) fun f s ↦ (f s.1, s.2)

def onSecond (p : Process τ α) : Process (σ × τ) α := p.zoom (·.2) fun f s ↦ (s.1, f s.2)

/-- Runs a process with a state of its own beside the outer one, and returns the last value of it
with the result. -/
def withLocal : τ → Process (σ × τ) α → Process σ (α × τ)
  | x, done a => done (a, x)
  | x, read k => read fun s ↦ withLocal x (k (s, x))
  -- what a write does to the local state depends on the outer one, so that is read first
  | x, write g p => read fun s ↦ write (fun s ↦ (g (s, x)).1) (withLocal (g (s, x)).2 p)
  | x, report e k => report e fun r ↦ withLocal x (k r)
  | x, clock k => clock fun t ↦ withLocal x (k t)
  | x, announce n c k => announce n c fun r ↦ withLocal x (k r)
  | x, call c l k => call c l fun b ↦ withLocal x (k b)
  | x, await ts k => await ts fun t r ↦ withLocal x (k t r)

/-- Runs a process on a state of its own and leaves the outer state alone. -/
def isolated (x : τ) (p : Process τ α) : Process σ (α × τ) := withLocal x p.onSecond

/-! ## Side by side -/

/-- Runs the second of two processes while the first one waits for some tickets. -/
def besides (tickets : List Ticket)
    (first : Ticket → Settlement → Process σ Unit → Process σ Unit) :
    Process σ Unit → Process σ Unit
  | done () => await tickets fun t r ↦ first t r (done ())
  | read k => read fun s ↦ besides tickets first (k s)
  | write g p => write g (besides tickets first p)
  | report e k => report e fun r ↦ besides tickets first (k r)
  | clock k => clock fun t ↦ besides tickets first (k t)
  | announce n c k => announce n c fun r ↦ besides tickets first (k r)
  | call c l k => call c l fun b ↦ besides tickets first (k b)
  | await more k =>
    -- both wait, so the ticket that is settled tells which of them goes on
    await (tickets ++ more) fun t r ↦
      if t ∈ tickets then first t r (await more k) else besides tickets first (k t r)

/-- Runs two processes side by side until both have ended. -/
def both : Process σ Unit → Process σ Unit → Process σ Unit
  | done () => fun q ↦ q
  | read k => fun q ↦ read fun s ↦ both (k s) q
  | write g p => fun q ↦ write g (both p q)
  | report e k => fun q ↦ report e fun r ↦ both (k r) q
  | clock k => fun q ↦ clock fun t ↦ both (k t) q
  | announce n c k => fun q ↦ announce n c fun r ↦ both (k r) q
  | call c l k => fun q ↦ call c l fun b ↦ both (k b) q
  | await ts k => besides ts fun t r ↦ both (k t r)

/-- Runs processes side by side; they begin in their order. -/
def all (ps : List (Process σ Unit)) : Process σ Unit := ps.foldr both (done ())

/-- Runs a process and adds its result to a list. -/
def noting (p : Process σ α) : Process (σ × List α) Unit :=
  p.onFirst.bind fun a ↦ write (fun s ↦ (s.1, s.2 ++ [a])) (done ())

/-- Runs processes side by side until all have ended, and lists their results in the order in which
they came. -/
def arrivals (ps : List (Process σ α)) : Process σ (List α) :=
  (withLocal [] (all (ps.map noting))).bind fun r ↦ done r.2

/-! ## One after the other, up to a failure -/

/-- Runs processes one after the other, up to the first whose result is a failure, and adds their
results to those there are. -/
def inOrder {ε : Type} (failure : α → Option ε) :
    List (Process σ α) → List α → Process σ (List α × Except ε Unit)
  | [], so => done (so, .ok ())
  | p :: ps, so => p.bind fun a ↦
    match failure a with
    | some e => done (so ++ [a], .error e)
    | none => inOrder failure ps (so ++ [a])

end Process

end Workflow
