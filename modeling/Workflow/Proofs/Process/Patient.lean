import Workflow.Proofs.Process.Path

/-!
# Runs that are cut off

A run that is cut off has no result, so nothing can be said of it by what it ended with. But it is
the beginning of a run that has one: `World.patient` is the world in which the time is never over,
and what would not be settled any more is cancelled. There every run comes to an end.
-/

namespace Workflow

variable {σ α ω : Type}

/-- A world without a limit on the time: where it would be over, what is waited for is cancelled. -/
def World.patient (w : World ω) : World ω :=
  { w with
    settle := fun ts x ↦
      match w.settle ts x with
      | (some r, y) => (some r, y)
      | (none, y) => (some (ts.headD 0, .cancelled), y) }

theorem World.patient_within (w : World ω) (limit : Option Nat) (x : ω) :
    w.patient.within limit x = w.within limit x := by
  cases limit with
  | none => rfl
  | some ms => rfl

variable {w : World ω} {p : Process σ α} {s t : σ} {x y : ω} {a : α}

theorem World.patient_settle_of_some {ts : List Ticket} {r : Ticket × Settlement}
    (h : w.settle ts x = (some r, y)) : w.patient.settle ts x = (some r, y) := by
  simp only [patient, h]

theorem World.patient_settle_of_none {ts : List Ticket} (h : w.settle ts x = (none, y)) :
    w.patient.settle ts x = (some (ts.headD 0, .cancelled), y) := by
  simp only [patient, h]

namespace Process

/-- Where nothing is cut off, every run comes to an end. -/
theorem exists_run_patient (w : World ω) (p : Process σ α) (s : σ) (x : ω) :
    ∃ a t y, p.run w.patient s x = (some (a, t), y) := by
  induction p generalizing s x with
  | done b => exact ⟨b, s, x, rfl⟩
  | read k ih => exact ih s s x
  | write f p ih => exact ih (f s) x
  | report e k ih => exact ih _ s _
  | clock k ih => exact ih _ s x
  | announce n c k ih => exact ih _ s _
  | call c l k ih => exact ih _ s _
  | await ts k ih =>
    rw [run]
    rcases hs : w.settle ts x with ⟨_ | ⟨u, r⟩, z⟩
    · rw [World.patient_settle_of_none hs]
      exact ih _ _ s z
    · rw [World.patient_settle_of_some hs]
      exact ih u r s z

/-- **Runs that are cut off.** What is done in a run is the beginning of what is done if nothing is
cut off. -/
theorem acts_prefix_patient (w : World ω) (p : Process σ α) (s : σ) (x : ω) :
    p.acts w s x <+: p.acts w.patient s x := by
  induction p generalizing s x with
  | done b => exact List.nil_prefix
  | read k ih => exact List.cons_prefix_cons.2 ⟨rfl, ih s s x⟩
  | write f p ih => exact List.cons_prefix_cons.2 ⟨rfl, ih (f s) x⟩
  | report e k ih => exact List.cons_prefix_cons.2 ⟨rfl, ih _ s _⟩
  | clock k ih => exact List.cons_prefix_cons.2 ⟨rfl, ih _ s x⟩
  | announce n c k ih => exact List.cons_prefix_cons.2 ⟨rfl, ih _ s _⟩
  | call c l k ih => exact List.cons_prefix_cons.2 ⟨rfl, ih _ s _⟩
  | await ts k ih =>
    rw [acts, acts]
    rcases hs : w.settle ts x with ⟨_ | ⟨u, r⟩, z⟩
    · exact List.nil_prefix
    · rw [World.patient_settle_of_some hs]
      exact List.cons_prefix_cons.2 ⟨rfl, ih u r s z⟩

theorem acts_bind {β : Type} {f : α → Process σ β} (h : p.run w s x = (some (a, t), y)) :
    (p.bind f).acts w s x = p.acts w s x ++ (f a).acts w t y := by
  induction p generalizing s x with
  | done b =>
    cases h
    rfl
  | read k ih => exact congrArg (_ :: ·) (ih s h)
  | write g p ih => exact congrArg (_ :: ·) (ih h)
  | report e k ih => exact congrArg (_ :: ·) (ih _ h)
  | clock k ih => exact congrArg (_ :: ·) (ih _ h)
  | announce n c k ih => exact congrArg (_ :: ·) (ih _ h)
  | call c l k ih => exact congrArg (_ :: ·) (ih _ h)
  | await ts k ih =>
    rw [run] at h
    rw [bind, acts, acts]
    rcases hs : w.settle ts x with ⟨_ | ⟨u, r⟩, z⟩
    · rw [hs] at h
      cases h
    · rw [hs] at h
      exact congrArg (_ :: ·) (ih u r h)

end Process

end Workflow
