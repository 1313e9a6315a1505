import Workflow.Process.World
import Workflow.Proofs.Process.Interleaving

/-!
# Paths through processes

A path is all that a process does and hears on its way to an end, whoever answers it. What it reads
from its state is open as well, so that a path of a process is a path of it among others, too.

`Next` is one act. What a combinator makes of one act of its parts is proved by the cases of the
process; what it makes of a path follows by induction on the acts, without another look at them.
`Process.acts` is the path that a run in a world takes, by `path_acts`.
-/

namespace Workflow.Process

variable {σ τ α β ω : Type}

/-- What a process does next, with what it hears. -/
inductive Act (σ : Type) where
  | read (s : σ)
  | write (f : σ → σ)
  | report (e : Audit.Event) (answer : Option String)
  | clock (time : Nat)
  | announce (phase : String) (c : Context) (answer : Option String)
  | call (c : Call) (limit : Option Nat) (b : Beginning)
  | settle (t : Ticket) (s : Settlement)

/-- The first act of a process, and what it goes on with. -/
inductive Next : Process σ α → Act σ → Process σ α → Prop where
  | read (k : σ → Process σ α) (s : σ) : Next (.read k) (.read s) (k s)
  | write (f : σ → σ) (p : Process σ α) : Next (.write f p) (.write f) p
  | report (e : Audit.Event) (k : Option String → Process σ α) (r : Option String) :
      Next (.report e k) (.report e r) (k r)
  | clock (k : Nat → Process σ α) (t : Nat) : Next (.clock k) (.clock t) (k t)
  | announce (n : String) (c : Context) (k : Option String → Process σ α) (r : Option String) :
      Next (.announce n c k) (.announce n c r) (k r)
  | call (c : Call) (l : Option Nat) (k : Beginning → Process σ α) (b : Beginning) :
      Next (.call c l k) (.call c l b) (k b)
  | await (ts : List Ticket) (k : Ticket → Settlement → Process σ α) (t : Ticket)
      (r : Settlement) : Next (.await ts k) (.settle t r) (k t r)

/-- The acts on a way through a process, and the result at its end. -/
inductive Path : Process σ α → List (Act σ) → α → Prop where
  | done (a : α) : Path (.done a) [] a
  | next {p q : Process σ α} {b : Act σ} {as : List (Act σ)} {a : α} :
      Next p b q → Path q as a → Path p (b :: as) a

theorem Path.eq_done {p : Process σ α} {a : α} (h : Path p [] a) : p = .done a := by
  cases h
  rfl

theorem Path.of_cons {p : Process σ α} {b : Act σ} {as : List (Act σ)} {a : α}
    (h : Path p (b :: as) a) : ∃ q, Next p b q ∧ Path q as a := by
  cases h with
  | next hn h => exact ⟨_, hn, h⟩

/-! ## How a path begins -/

theorem Path.of_done {a b : α} {as : List (Act σ)} (h : Path (.done b) as a) :
    as = [] ∧ a = b := by
  cases h with
  | done _ => exact ⟨rfl, rfl⟩
  | next hn _ => cases hn

theorem Path.of_read {k : σ → Process σ α} {as : List (Act σ)} {a : α}
    (h : Path (.read k) as a) : ∃ s bs, as = .read s :: bs ∧ Path (k s) bs a := by
  cases h with
  | next hn h =>
    cases hn with
    | read _ s => exact ⟨s, _, rfl, h⟩

theorem Path.of_write {f : σ → σ} {p : Process σ α} {as : List (Act σ)} {a : α}
    (h : Path (.write f p) as a) : ∃ bs, as = .write f :: bs ∧ Path p bs a := by
  cases h with
  | next hn h =>
    cases hn
    exact ⟨_, rfl, h⟩

theorem Path.of_report {e : Audit.Event} {k : Option String → Process σ α} {as : List (Act σ)}
    {a : α} (h : Path (.report e k) as a) :
    ∃ r bs, as = .report e r :: bs ∧ Path (k r) bs a := by
  cases h with
  | next hn h =>
    cases hn with
    | report _ _ r => exact ⟨r, _, rfl, h⟩

theorem Path.of_clock {k : Nat → Process σ α} {as : List (Act σ)} {a : α}
    (h : Path (.clock k) as a) : ∃ t bs, as = .clock t :: bs ∧ Path (k t) bs a := by
  cases h with
  | next hn h =>
    cases hn with
    | clock _ t => exact ⟨t, _, rfl, h⟩

theorem Path.of_announce {n : String} {c : Context} {k : Option String → Process σ α}
    {as : List (Act σ)} {a : α} (h : Path (.announce n c k) as a) :
    ∃ r bs, as = .announce n c r :: bs ∧ Path (k r) bs a := by
  cases h with
  | next hn h =>
    cases hn with
    | announce _ _ _ r => exact ⟨r, _, rfl, h⟩

theorem Path.of_call {c : Call} {l : Option Nat} {k : Beginning → Process σ α}
    {as : List (Act σ)} {a : α} (h : Path (.call c l k) as a) :
    ∃ b bs, as = .call c l b :: bs ∧ Path (k b) bs a := by
  cases h with
  | next hn h =>
    cases hn with
    | call _ _ _ b => exact ⟨b, _, rfl, h⟩

theorem Path.of_await {ts : List Ticket} {k : Ticket → Settlement → Process σ α}
    {as : List (Act σ)} {a : α} (h : Path (.await ts k) as a) :
    ∃ t r bs, as = .settle t r :: bs ∧ Path (k t r) bs a := by
  cases h with
  | next hn h =>
    cases hn with
    | await _ _ t r => exact ⟨t, r, _, rfl, h⟩

/-! ## Reports on a path -/

/-- An event with the answer of the sink: the reason why it was refused, if it was. -/
abbrev Report := Audit.Event × Option String

def Act.report? : Act σ → Option Report
  | .report e r => some (e, r)
  | _ => none

/-- The reports among some acts. -/
def reports (as : List (Act σ)) : List Report := as.filterMap Act.report?

@[simp] theorem reports_nil : reports ([] : List (Act σ)) = [] := rfl

@[simp] theorem reports_append (as bs : List (Act σ)) :
    reports (as ++ bs) = reports as ++ reports bs := List.filterMap_append

@[simp] theorem reports_report (e : Audit.Event) (r : Option String) (as : List (Act σ)) :
    reports (.report e r :: as) = (e, r) :: reports as := rfl

@[simp] theorem reports_read (s : σ) (as : List (Act σ)) :
    reports (.read s :: as) = reports as := rfl

@[simp] theorem reports_write (f : σ → σ) (as : List (Act σ)) :
    reports (.write f :: as) = reports as := rfl

@[simp] theorem reports_clock (t : Nat) (as : List (Act σ)) :
    reports (.clock t :: as) = reports as := rfl

@[simp] theorem reports_announce (n : String) (c : Context) (r : Option String)
    (as : List (Act σ)) : reports (.announce n c r :: as) = reports as := rfl

@[simp] theorem reports_call (c : Call) (l : Option Nat) (b : Beginning) (as : List (Act σ)) :
    reports (.call c l b :: as) = reports as := rfl

@[simp] theorem reports_settle (t : Ticket) (r : Settlement) (as : List (Act σ)) :
    reports (.settle t r :: as) = reports as := rfl

/-! ## Writes and settlements on a path -/

def Act.write? : Act σ → Option (σ → σ)
  | .write f => some f
  | _ => none

/-- The changes of the state among some acts. -/
def writes (as : List (Act σ)) : List (σ → σ) := as.filterMap Act.write?

def Act.settlement? : Act σ → Option Settlement
  | .call _ _ (.settled s) => some s
  | .settle _ s => some s
  | _ => none

/-- How the calls ended whose ends are heard in some acts. -/
def settlements (as : List (Act σ)) : List Settlement := as.filterMap Act.settlement?

@[simp] theorem writes_append (as bs : List (Act σ)) : writes (as ++ bs) = writes as ++ writes bs :=
  List.filterMap_append

@[simp] theorem settlements_append (as bs : List (Act σ)) :
    settlements (as ++ bs) = settlements as ++ settlements bs := List.filterMap_append

theorem writes_map_write (fs : List (σ → σ)) : writes (fs.map Act.write) = fs := by
  rw [writes, List.filterMap_map]
  exact List.filterMap_some

theorem settlements_map_write (fs : List (σ → σ)) : settlements (fs.map Act.write) = [] := by
  induction fs with
  | nil => rfl
  | cons f fs ih => exact ih

/-! ## One after the other -/

/-- The first act of two processes one after the other is that of the first one, unless this has
ended. -/
theorem Next.of_bind {p : Process σ α} {f : α → Process σ β} {b : Act σ} {q : Process σ β}
    (h : Next (p.bind f) b q) :
    (∃ a, p = .done a ∧ Next (f a) b q) ∨ ∃ p', Next p b p' ∧ q = p'.bind f := by
  cases p with
  | done a => exact .inl ⟨a, rfl, h⟩
  | read k =>
    cases h with
    | read _ s => exact .inr ⟨_, .read k s, rfl⟩
  | write g p =>
    cases h
    exact .inr ⟨_, .write g p, rfl⟩
  | report e k =>
    cases h with
    | report _ _ r => exact .inr ⟨_, .report e k r, rfl⟩
  | clock k =>
    cases h with
    | clock _ t => exact .inr ⟨_, .clock k t, rfl⟩
  | announce n c k =>
    cases h with
    | announce _ _ _ r => exact .inr ⟨_, .announce n c k r, rfl⟩
  | call c l k =>
    cases h with
    | call _ _ _ b => exact .inr ⟨_, .call c l k b, rfl⟩
  | await ts k =>
    cases h with
    | await _ _ t r => exact .inr ⟨_, .await ts k t r, rfl⟩

theorem Path.of_bind {p : Process σ α} {f : α → Process σ β} {as : List (Act σ)} {b : β}
    (h : Path (p.bind f) as b) :
    ∃ bs a cs, as = bs ++ cs ∧ Path p bs a ∧ Path (f a) cs b := by
  induction as generalizing p with
  | nil =>
    have hdone := h.eq_done
    cases p with
    | done a => exact ⟨[], a, [], rfl, .done a, h⟩
    | _ => cases hdone
  | cons c as ih =>
    obtain ⟨q, hq, hrest⟩ := h.of_cons
    rcases hq.of_bind with ⟨a, rfl, -⟩ | ⟨p', hp, rfl⟩
    · exact ⟨[], a, c :: as, rfl, .done a, h⟩
    · obtain ⟨bs, a, cs, rfl, hp', hf⟩ := ih hrest
      exact ⟨c :: bs, a, cs, rfl, .next hp hp', hf⟩

/-! ## The path of a run -/

/-- The acts of a run, up to its end or to where it is cut off. -/
def acts (w : World ω) : Process σ α → σ → ω → List (Act σ)
  | done _, _, _ => []
  | read k, s, x => .read s :: (k s).acts w s x
  | write f p, s, x => .write f :: p.acts w (f s) x
  | report e k, s, x => let (r, x) := w.report e x; .report e r :: (k r).acts w s x
  | clock k, s, x => .clock (w.clock x) :: (k (w.clock x)).acts w s x
  | announce n c k, s, x => let (r, x) := w.announce n c x; .announce n c r :: (k r).acts w s x
  | call c l k, s, x => let (b, x) := w.call c l x; .call c l b :: (k b).acts w s x
  | await ts k, s, x =>
    match w.settle ts x with
    | (some (t, r), x) => .settle t r :: (k t r).acts w s x
    | (none, _) => []

theorem path_acts {w : World ω} {p : Process σ α} {s s' : σ} {x x' : ω} {a : α}
    (h : p.run w s x = (some (a, s'), x')) : Path p (p.acts w s x) a := by
  induction p generalizing s x with
  | done b =>
    rw [run] at h
    obtain ⟨rfl, rfl⟩ : b = a ∧ s = s' := by simpa using congrArg Prod.fst h
    exact .done b
  | read k ih => exact .next (.read k s) (ih s h)
  | write f p ih => exact .next (.write f p) (ih h)
  | report e k ih => exact .next (.report e k _) (ih _ h)
  | clock k ih => exact .next (.clock k _) (ih _ h)
  | announce n c k ih => exact .next (.announce n c k _) (ih _ h)
  | call c l k ih => exact .next (.call c l k _) (ih _ h)
  | await ts k ih =>
    rw [run] at h
    rw [acts]
    rcases hs : w.settle ts x with ⟨_ | ⟨t, r⟩, y⟩
    · simp [hs] at h
    · rw [hs] at h
      exact .next (.await ts k t r) (ih t r h)

theorem state_eq {w : World ω} {p : Process σ α} {s s' : σ} {x y : ω} {a : α}
    (h : p.run w s x = (some (a, s'), y)) :
    s' = (writes (p.acts w s x)).foldl (fun s f ↦ f s) s := by
  induction p generalizing s x with
  | done b =>
    cases h
    rfl
  | read k ih => exact ih s h
  | write f p ih => exact ih h
  | report e k ih => exact ih _ h
  | clock k ih => exact ih _ h
  | announce n c k ih => exact ih _ h
  | call c l k ih =>
    have hrest := ih _ h
    rw [acts]
    exact hrest
  | await ts k ih =>
    rw [run] at h
    rw [acts]
    rcases hs : w.settle ts x with ⟨_ | ⟨t, r⟩, y'⟩
    · rw [hs] at h
      cases h
    · rw [hs] at h
      exact ih t r h

end Workflow.Process
