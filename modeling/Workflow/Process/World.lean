import Workflow.Process

/-!
# Worlds

A world answers what processes ask: it takes events, tells the time, begins calls and settles them
in an order of its own choosing. `Process.run` follows the one branch of a process that a world
picks. A world with a limit on the whole run may refuse to settle any more calls, and then the run
is cut off.
-/

namespace Workflow

/-- The outside of a process, with a state of type `ω`. -/
structure World (ω : Type) where
  /-- Takes an event, or tells why the sink failed. -/
  report : Audit.Event → ω → Option String × ω
  clock : ω → Nat
  /-- Hears of a completed phase, or tells why the host failed. -/
  announce : String → Context → ω → Option String × ω
  call : Call → Option Nat → ω → Beginning × ω
  /-- Sets the time, in milliseconds from now, after which nothing is settled any more. -/
  limit : Nat → ω → ω
  /-- The first of some calls to be settled, or nothing when the time is over. -/
  settle : List Ticket → ω → Option (Ticket × Settlement) × ω

/-- A world with a limit on the time of a run, if there is one. -/
def World.within {ω : Type} (w : World ω) : Option Nat → ω → ω
  | some ms, x => w.limit ms x
  | none, x => x

namespace Process

variable {σ α ω : Type}

/-- Runs a process in a world. There is no result when the run is cut off. -/
def run (w : World ω) : Process σ α → σ → ω → Option (α × σ) × ω
  | done a, s, x => (some (a, s), x)
  | read k, s, x => (k s).run w s x
  | write f p, s, x => p.run w (f s) x
  | report e k, s, x => let (r, x) := w.report e x; (k r).run w s x
  | clock k, s, x => (k (w.clock x)).run w s x
  | announce n c k, s, x => let (r, x) := w.announce n c x; (k r).run w s x
  | call c l k, s, x => let (b, x) := w.call c l x; (k b).run w s x
  | await ts k, s, x =>
    match w.settle ts x with
    | (some (t, r), x) => (k t r).run w s x
    | (none, x) => (none, x)

end Process

end Workflow
