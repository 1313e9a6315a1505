import Workflow.Proofs.Except
import Workflow.Proofs.Process.Path
import Workflow.Proofs.Run.Position

/-!
# Launches

A run is launched afresh or from a checkpoint. The two differ in the position that the walk begins
at and in nothing else, so what is proved of the positions that a launch visits holds of both kinds
of runs at once.
-/

namespace Workflow.Run

/-- Where a run sets out from. -/
inductive Outset where
  | fresh (specPath : Option String)
  | resumed (cp : Checkpoint) (fromPhase : Option String)

namespace Outset

def context : Outset → Context
  | fresh _ => .empty
  | resumed cp _ => .ofCheckpoint cp

def fromPhase : Outset → Option String
  | fresh _ => none
  | resumed _ phase => phase

/-- The path of the document that templates see. -/
def specPath (host : Host) : Outset → Option String
  | fresh path => path
  | resumed _ _ => host.options.specPath

end Outset

/-- A run, before it meets a world. -/
structure Launch where
  host : Host
  runId : Uuid
  workflow : Definition
  outset : Outset

namespace Launch

variable {ω : Type}

theorem snd_conclude (runId : Uuid) (d : Definition)
    (r : Option (Except RunError Walk × Context) × ω) : (conclude runId d r).2 = r.2 := by
  obtain ⟨_ | ⟨_ | _, _⟩, _⟩ := r
  all_goals rfl

def run (l : Launch) (w : World ω) (x : ω) : Except RunError RunResult × ω :=
  match l.outset with
  | .fresh specPath => start l.host w l.runId l.workflow specPath x
  | .resumed cp fromPhase => resume l.host w l.runId l.workflow cp fromPhase x

/-- What the steps of a run share, and the position that the walk begins at. -/
def beginning (l : Launch) (w : World ω) (x : ω) : Except RunError (Environment × Position ω) := do
  let first ← firstPhase l.workflow l.outset.fromPhase
  let spec ← loadSpec l.host.files (l.outset.specPath l.host)
  return (environment l.host l.workflow l.runId spec,
    ⟨[], l.workflow.phases.drop first, l.outset.context, w.within l.workflow.limit x⟩)

def acts (l : Launch) (w : World ω) (x : ω) : List (Process.Act Context) :=
  match l.beginning w x with
  | .error _ => []
  | .ok (env, p) => (walk env l.workflow.failFast p.failed p.left).acts w p.context p.outside

/-- A run is its walk from the beginning, if there is one. -/
theorem run_eq (l : Launch) (w : World ω) (x : ω) :
    l.run w x =
      match l.beginning w x with
      | .error e => (.error e, x)
      | .ok (env, p) => conclude l.runId l.workflow (p.run env l.workflow.failFast w) := by
  obtain ⟨host, runId, d, specPath | ⟨cp, fromPhase⟩⟩ := l
  · simp only [run, start, beginning, Outset.fromPhase, Outset.specPath, firstPhase]
    cases loadSpec host.files specPath with
    | error e => rfl
    | ok spec => rfl
  · simp only [run, resume, beginning, Outset.fromPhase, Outset.specPath]
    cases firstPhase d fromPhase with
    | error e => rfl
    | ok first =>
      cases loadSpec host.files host.options.specPath with
      | error e => rfl
      | ok spec => rfl

variable {l : Launch} {w : World ω} {x : ω}

theorem run_of_error {e : RunError} (h : l.beginning w x = .error e) :
    l.run w x = (.error e, x) := by
  rw [run_eq, h]

theorem run_of_ok {env : Environment} {p : Position ω} (h : l.beginning w x = .ok (env, p)) :
    l.run w x = conclude l.runId l.workflow (p.run env l.workflow.failFast w) := by
  rw [run_eq, h]

theorem exists_of_beginning {env : Environment} {p : Position ω}
    (h : l.beginning w x = .ok (env, p)) :
    ∃ first spec, firstPhase l.workflow l.outset.fromPhase = .ok first ∧
      env = environment l.host l.workflow l.runId spec ∧
      p = ⟨[], l.workflow.phases.drop first, l.outset.context, w.within l.workflow.limit x⟩ := by
  obtain ⟨first, hfirst, h⟩ := exists_of_bind_eq_ok h
  obtain ⟨spec, -, h⟩ := exists_of_bind_eq_ok h
  cases h
  exact ⟨first, spec, hfirst, rfl, rfl⟩

def Visits (l : Launch) (w : World ω) (x : ω) (env : Environment) (q : Position ω) : Prop :=
  ∃ p, l.beginning w x = .ok (env, p) ∧ Reaches env l.workflow.failFast w p q

theorem Visits.run_eq {env : Environment} {q : Position ω} (h : l.Visits w x env q) :
    l.run w x = conclude l.runId l.workflow (q.run env l.workflow.failFast w) := by
  obtain ⟨p, hp, hq⟩ := h
  rw [run_of_ok hp, hq.run_eq]

theorem exists_visits_ends {r : RunResult} {y : ω} (h : l.run w x = (.ok r, y)) :
    ∃ env q ended c, l.Visits w x env q ∧ Ends env l.workflow.failFast w q (.ok ended) c y ∧
      r = result l.runId l.workflow c ended := by
  cases hb : l.beginning w x with
  | error e =>
    rw [run_of_error hb] at h
    cases h
  | ok b =>
    obtain ⟨env, p⟩ := b
    rw [run_of_ok hb] at h
    rcases hrun : p.run env l.workflow.failFast w with ⟨_ | ⟨ended | ended, c⟩, z⟩
    · rw [hrun] at h
      cases h
    · rw [hrun] at h
      cases h
    · rw [hrun] at h
      cases h
      obtain ⟨q, hq, hend⟩ := exists_ends hrun
      exact ⟨env, q, ended, c, ⟨p, hb, hq⟩, hend, rfl⟩

/-- A run of which something is known that only a result tells has a result. -/
theorem exists_result {α : Type} {view : RunResult → α} {a : α}
    (h : (l.run w x).1.toOption.map view = some a) :
    ∃ r y, l.run w x = (.ok r, y) ∧ view r = a := by
  rcases hrun : l.run w x with ⟨e | r, y⟩
  · rw [hrun] at h
    cases h
  · rw [hrun] at h
    exact ⟨r, y, rfl, Option.some.inj h⟩

end Launch

end Workflow.Run
