import Workflow.Proofs.Process.Path

/-!
# Worlds that keep a record

A world can be made to keep what is reported to it, with the answers of its sink. That changes
nothing else: `run_recording` says that a run in the recording world is the run in the world that
records, and that its record grows by the reports on the path of the run.
-/

namespace Workflow

open Process (Report reports)

variable {σ α β ω : Type}

namespace World

/-- A world that keeps what is reported in it. -/
def recording (w : World ω) : World (ω × List Report) where
  report e x := let (r, y) := w.report e x.1; (r, y, x.2 ++ [(e, r)])
  clock x := w.clock x.1
  announce n c x := let (r, y) := w.announce n c x.1; (r, y, x.2)
  call c l x := let (b, y) := w.call c l x.1; (b, y, x.2)
  limit ms x := (w.limit ms x.1, x.2)
  settle ts x := let (r, y) := w.settle ts x.1; (r, y, x.2)

theorem recording_report {w : World ω} {e : Audit.Event} {x y : ω × List Report}
    {r : Option String} (h : w.recording.report e x = (r, y)) : y.2 = x.2 ++ [(e, r)] := by
  obtain ⟨hr, hy⟩ := Prod.mk.inj h
  rw [← hy, ← hr]

theorem recording_announce {w : World ω} {n : String} {c : Context} {x y : ω × List Report}
    {r : Option String} (h : w.recording.announce n c x = (r, y)) : y.2 = x.2 := by
  obtain ⟨-, hy⟩ := Prod.mk.inj h
  rw [← hy]

theorem recording_within (w : World ω) (limit : Option Nat) (x : ω) (log : List Report) :
    w.recording.within limit (x, log) = (w.within limit x, log) := by
  cases limit with
  | none => rfl
  | some ms => rfl

/-- The sink of a world accepts every event. -/
def Accepts (w : World ω) : Prop := ∀ e x, (w.report e x).1 = none

end World

namespace Process

theorem run_bind (w : World ω) (p : Process σ α) (f : α → Process σ β) (s : σ) (x : ω) :
    (p.bind f).run w s x =
      match p.run w s x with
      | (some (a, s), x) => (f a).run w s x
      | (none, x) => (none, x) := by
  induction p generalizing s x with
  | done a => rfl
  | read k ih => exact ih s s x
  | write f p ih => exact ih (f s) x
  | report e k ih => exact ih _ s _
  | clock k ih => exact ih _ s x
  | announce n c k ih => exact ih _ s _
  | call c l k ih => exact ih _ s _
  | await ts k ih =>
    rw [bind, run, run]
    split
    · next t r y _ => exact ih t r s y
    · rfl

theorem run_recording (w : World ω) (p : Process σ α) (s : σ) (x : ω) (log : List Report) :
    p.run w.recording s (x, log) =
      ((p.run w s x).1, (p.run w s x).2, log ++ reports (p.acts w s x)) := by
  induction p generalizing s x log with
  | done a => rw [run, run, acts, reports_nil, List.append_nil]
  | read k ih => exact ih s s x log
  | write f p ih => exact ih (f s) x log
  | report e k ih =>
    rw [run, run, acts, reports_report]
    -- the record has grown by the event, which is the first report of the path
    have h := ih (w.report e x).1 s (w.report e x).2 (log ++ [(e, (w.report e x).1)])
    rw [List.append_assoc] at h
    exact h
  | clock k ih => exact ih (w.clock x) s x log
  | announce n c k ih => exact ih _ s _ log
  | call c l k ih => exact ih _ s _ log
  | await ts k ih =>
    have hr : w.recording.settle ts (x, log) = ((w.settle ts x).1, (w.settle ts x).2, log) := rfl
    rw [run, run, acts, hr]
    rcases w.settle ts x with ⟨_ | ⟨t, r⟩, y⟩
    · rw [reports_nil, List.append_nil]
    · exact ih t r s y log

/-- Where the sink accepts everything, every report on the path of a run is accepted. -/
theorem accepted_of_mem_reports {w : World ω} (hw : w.Accepts) (p : Process σ α) (s : σ) (x : ω) :
    ∀ r ∈ reports (p.acts w s x), r.2 = none := by
  induction p generalizing s x with
  | done a => simp [acts]
  | read k ih => exact ih s s x
  | write f p ih => exact ih (f s) x
  | report e k ih =>
    rw [acts, reports_report]
    exact List.forall_mem_cons.2 ⟨hw e x, ih _ s _⟩
  | clock k ih => exact ih _ s x
  | announce n c k ih => exact ih _ s _
  | call c l k ih => exact ih _ s _
  | await ts k ih =>
    rw [acts]
    split
    · exact ih _ _ s _
    · simp

/-- A record that is empty in the beginning holds nothing but what is accepted. -/
theorem accepted_of_run_recording {w : World ω} (hw : w.Accepts) (p : Process σ α) (s : σ) (x : ω) :
    ∀ r ∈ (p.run w.recording s (x, [])).2.2, r.2 = none := by
  rw [run_recording]
  exact accepted_of_mem_reports hw p s x

end Process

end Workflow
