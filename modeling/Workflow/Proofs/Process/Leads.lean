import Workflow.Proofs.Process.Arrivals
import Workflow.Proofs.Process.Discipline

/-!
# Processes in a state that others change

`Leads` is a path of a process together with the states that it leads through. Between two waits
nobody else runs, so there the process finds the state as it left it; while it waits, others may
change the state, and a relation tells how. Nothing else is known of the others, so what a process
does among others and what it does by itself are two cases of the same thing: by itself, the state
after a wait is the one before, and then the path is one of a run (`Follows.leads`).

Every change that the process makes itself is one that a discipline allows. This is part of the
relation because a process beside it relies on that: `Leads.later`.

`deeds` is what is left of a path without the state: what is said to the sink, to agents and to
handlers, and what they answer. It is the same from within a state of one's own and from without.
-/

namespace Workflow

namespace Process

variable {σ τ α β ε δ ω : Type}

/-! ## Deeds -/

/-- What a process has to do with the outside, apart from the time. -/
inductive Deed where
  | report (e : Audit.Event) (answer : Option String)
  | call (c : Call) (limit : Option Nat) (b : Beginning)
  | settle (t : Ticket) (s : Settlement)

def Act.deed? : Act σ → Option Deed
  | .report e r => some (.report e r)
  | .call c l b => some (.call c l b)
  | .settle t s => some (.settle t s)
  | _ => none

/-- The deeds among some acts. -/
def deeds (as : List (Act σ)) : List Deed := as.filterMap Act.deed?

@[simp] theorem deeds_nil : deeds ([] : List (Act σ)) = [] := rfl

@[simp] theorem deeds_append (as bs : List (Act σ)) : deeds (as ++ bs) = deeds as ++ deeds bs :=
  List.filterMap_append

@[simp] theorem deeds_read (s : σ) (as : List (Act σ)) : deeds (.read s :: as) = deeds as := rfl

@[simp] theorem deeds_write (f : σ → σ) (as : List (Act σ)) :
    deeds (.write f :: as) = deeds as := rfl

theorem deeds_map_write (fs : List (σ → σ)) : deeds (fs.map Act.write) = [] := by
  induction fs with
  | nil => rfl
  | cons f fs ih => exact ih

@[simp] theorem deeds_clock (t : Nat) (as : List (Act σ)) : deeds (.clock t :: as) = deeds as := rfl

@[simp] theorem deeds_announce (n : String) (c : Context) (r : Option String)
    (as : List (Act σ)) : deeds (.announce n c r :: as) = deeds as := rfl

@[simp] theorem deeds_report (e : Audit.Event) (r : Option String) (as : List (Act σ)) :
    deeds (.report e r :: as) = .report e r :: deeds as := rfl

@[simp] theorem deeds_call (c : Call) (l : Option Nat) (b : Beginning) (as : List (Act σ)) :
    deeds (.call c l b :: as) = .call c l b :: deeds as := rfl

@[simp] theorem deeds_settle (t : Ticket) (r : Settlement) (as : List (Act σ)) :
    deeds (.settle t r :: as) = .settle t r :: deeds as := rfl

def Deed.settlement? : Deed → Option Settlement
  | .call _ _ (.settled s) => some s
  | .settle _ s => some s
  | _ => none

def Deed.report? : Deed → Option Report
  | .report e r => some (e, r)
  | _ => none

theorem settlements_eq (as : List (Act σ)) :
    settlements as = (deeds as).filterMap Deed.settlement? := by
  rw [settlements, deeds, List.filterMap_filterMap]
  congr 1
  funext b
  rcases b with _ | _ | _ | _ | _ | ⟨_, _, _ | _⟩ | _
  all_goals rfl

theorem reports_eq (as : List (Act σ)) : reports as = (deeds as).filterMap Deed.report? := by
  rw [reports, deeds, List.filterMap_filterMap]
  congr 1
  funext b
  cases b <;> rfl

theorem mem_reports_iff {as : List (Act σ)} {e : Audit.Event} {answer : Option String} :
    (e, answer) ∈ reports as ↔ .report e answer ∈ deeds as := by
  rw [reports_eq, List.mem_filterMap]
  constructor
  · rintro ⟨x, hx, heq⟩
    cases x with
    | report e' answer' =>
      cases heq
      exact hx
    | _ => cases heq
  · exact fun h ↦ ⟨_, h, rfl⟩

/-! ## Paths with their states -/

variable [SemilatticeSup ε] [OrderBot ε] [SemilatticeSup δ] [OrderBot δ]

/-- A process leads from a state through some acts to a result and a state. While it waits the state
is changed as `R` tells; its own changes are those of a discipline. -/
inductive Leads (D : Discipline σ ε) (R : σ → σ → Prop) :
    Process σ α → σ → List (Act σ) → α → σ → Prop where
  | done (a : α) (s : σ) : Leads D R (.done a) s [] a s
  | read {k : σ → Process σ α} {s t : σ} {as : List (Act σ)} {a : α} :
      Leads D R (k s) s as a t → Leads D R (.read k) s (.read s :: as) a t
  | write {f : σ → σ} {p : Process σ α} {s t : σ} {as : List (Act σ)} {a : α} :
      D.Later s (f s) → Leads D R p (f s) as a t → Leads D R (.write f p) s (.write f :: as) a t
  | report {e : Audit.Event} {k : Option String → Process σ α} {r : Option String} {s t : σ}
      {as : List (Act σ)} {a : α} :
      Leads D R (k r) s as a t → Leads D R (.report e k) s (.report e r :: as) a t
  | clock {k : Nat → Process σ α} {n : Nat} {s t : σ} {as : List (Act σ)} {a : α} :
      Leads D R (k n) s as a t → Leads D R (.clock k) s (.clock n :: as) a t
  | announce {n : String} {c : Context} {k : Option String → Process σ α} {r : Option String}
      {s t : σ} {as : List (Act σ)} {a : α} :
      Leads D R (k r) s as a t → Leads D R (.announce n c k) s (.announce n c r :: as) a t
  | call {c : Call} {l : Option Nat} {k : Beginning → Process σ α} {b : Beginning} {s t : σ}
      {as : List (Act σ)} {a : α} :
      Leads D R (k b) s as a t → Leads D R (.call c l k) s (.call c l b :: as) a t
  | await {ts : List Ticket} {k : Ticket → Settlement → Process σ α} {u : Ticket} {r : Settlement}
      {s s' t : σ} {as : List (Act σ)} {a : α} :
      R s s' → Leads D R (k u r) s' as a t → Leads D R (.await ts k) s (.settle u r :: as) a t

variable {D : Discipline σ ε} {R R' : σ → σ → Prop} {p : Process σ α} {s s' t : σ}
  {as : List (Act σ)} {a : α}

namespace Leads

theorem path (h : Leads D R p s as a t) : Path p as a := by
  induction h with
  | done a s => exact .done a
  | read _ ih => exact .next (.read _ _) ih
  | write _ _ ih => exact .next (.write _ _) ih
  | report _ ih => exact .next (.report _ _ _) ih
  | clock _ ih => exact .next (.clock _ _) ih
  | announce _ ih => exact .next (.announce _ _ _ _) ih
  | call _ ih => exact .next (.call _ _ _ _) ih
  | await _ _ ih => exact .next (.await _ _ _ _) ih

theorem mono (hR : ∀ u v, R u v → R' u v) (h : Leads D R p s as a t) : Leads D R' p s as a t := by
  induction h with
  | done a s => exact .done a s
  | read _ ih => exact .read ih
  | write hf _ ih => exact .write hf ih
  | report _ ih => exact .report ih
  | clock _ ih => exact .clock ih
  | announce _ ih => exact .announce ih
  | call _ ih => exact .call ih
  | await hs _ ih => exact .await (hR _ _ hs) ih

/-- If the others change the state as the discipline allows, it is a later one in the end. -/
theorem later (hR : ∀ u v, R u v → D.Later u v) (h : Leads D R p s as a t) : D.Later s t := by
  induction h with
  | done a s => exact .refl s
  | read _ ih | report _ ih | clock _ ih | announce _ ih | call _ ih => exact ih
  | write hf _ ih => exact hf.trans ih
  | await hs _ ih => exact (hR _ _ hs).trans ih

theorem state_eq (hR : ∀ u v, R u v → u = v) (h : Leads D R p s as a t) :
    t = (writes as).foldl (fun s f ↦ f s) s := by
  induction h with
  | done a s => rfl
  | read _ ih | write _ _ ih | report _ ih | clock _ ih | announce _ ih | call _ ih => exact ih
  | await hs _ ih =>
    rw [hR _ _ hs]
    exact ih

/-- If a process ends with some writes, it leaves what they make of the state before them. -/
theorem exists_eq_foldl {fs : List (σ → σ)} (h : Leads D R p s (as ++ fs.map Act.write) a t) :
    ∃ u, t = fs.foldl (fun s f ↦ f s) u := by
  induction as generalizing p s with
  | nil =>
    rw [List.nil_append] at h
    refine ⟨s, ?_⟩
    induction fs generalizing p s with
    | nil =>
      cases h with
      | done _ _ => rfl
    | cons f fs ih =>
      cases h with
      | write _ h => exact ih h
  | cons b as ih =>
    cases h with
    | read h | report h | clock h | announce h | call h => exact ih h
    | write _ h | await _ h => exact ih h

/-- A process that waits does not see from which state on. -/
theorem of_later {ts : List Ticket} {k : Ticket → Settlement → Process σ α} (hs : D.Later s s')
    (h : Leads D D.Later (.await ts k) s' as a t) : Leads D D.Later (.await ts k) s as a t := by
  cases h with
  | await hs' h => exact .await (hs.trans hs') h

/-! ## One after the other -/

theorem of_bind {f : α → Process σ β} {b : β} (h : Leads D R (p.bind f) s as b t) :
    ∃ bs a u cs, as = bs ++ cs ∧ Leads D R p s bs a u ∧ Leads D R (f a) u cs b t := by
  induction p generalizing s as with
  | done a => exact ⟨[], a, s, as, rfl, .done a s, h⟩
  | read k ih =>
    cases h with
    | read h =>
      obtain ⟨bs, a, u, cs, rfl, hp, hf⟩ := ih s h
      exact ⟨_ :: bs, a, u, cs, rfl, .read hp, hf⟩
  | write g p ih =>
    cases h with
    | write hg h =>
      obtain ⟨bs, a, u, cs, rfl, hp, hf⟩ := ih h
      exact ⟨_ :: bs, a, u, cs, rfl, .write hg hp, hf⟩
  | report e k ih =>
    cases h with
    | report h =>
      obtain ⟨bs, a, u, cs, rfl, hp, hf⟩ := ih _ h
      exact ⟨_ :: bs, a, u, cs, rfl, .report hp, hf⟩
  | clock k ih =>
    cases h with
    | clock h =>
      obtain ⟨bs, a, u, cs, rfl, hp, hf⟩ := ih _ h
      exact ⟨_ :: bs, a, u, cs, rfl, .clock hp, hf⟩
  | announce n c k ih =>
    cases h with
    | announce h =>
      obtain ⟨bs, a, u, cs, rfl, hp, hf⟩ := ih _ h
      exact ⟨_ :: bs, a, u, cs, rfl, .announce hp, hf⟩
  | call c l k ih =>
    cases h with
    | call h =>
      obtain ⟨bs, a, u, cs, rfl, hp, hf⟩ := ih _ h
      exact ⟨_ :: bs, a, u, cs, rfl, .call hp, hf⟩
  | await ts k ih =>
    cases h with
    | await hs h =>
      obtain ⟨bs, a, u, cs, rfl, hp, hf⟩ := ih _ _ h
      exact ⟨_ :: bs, a, u, cs, rfl, .await hs hp, hf⟩

end Leads

/-! ## Runs -/

/-- A run leads through its acts, and nobody else changes the state. -/
theorem Follows.leads {Q : ε → σ → α → Prop} (h : p.Follows D Q s) {w : World ω} {x y : ω}
    (hrun : p.run w s x = (some (a, t), y)) : Leads D Eq p s (p.acts w s x) a t := by
  induction p generalizing s x Q with
  | done b =>
    cases hrun
    exact .done _ _
  | read k ih => exact .read (ih s h hrun)
  | write f p ih =>
    obtain ⟨I, hI, hp⟩ := h
    exact .write ⟨I, hI⟩ (ih hp hrun)
  | report e k ih => exact .report (ih _ (h _) hrun)
  | clock k ih => exact .clock (ih _ (h _) hrun)
  | announce n c k ih => exact .announce (ih _ (h _) hrun)
  | call c l k ih => exact .call (ih _ (h _) hrun)
  | await ts k ih =>
    rw [Process.run] at hrun
    rw [acts]
    rcases hs : w.settle ts x with ⟨_ | ⟨u, r⟩, z⟩
    · rw [hs] at hrun
      cases hrun
    · rw [hs] at hrun
      exact .await rfl (ih u r (h u r s (.refl s)) hrun)

/-! ## A state of one's own -/

/-- A process with a state of its own leads through it by itself, whatever becomes of the outer one;
and what it has to do with the outside is the same from without. -/
theorem Leads.of_isolated {E : Discipline τ δ} {q : Process τ α} {Q : δ → τ → α → Prop} {x y : τ}
    (hq : q.Follows E Q x) (h : Leads D R (isolated x q) s as (a, y) t) :
    ∃ bs, Leads E Eq q x bs a y ∧ deeds bs = deeds as := by
  unfold isolated onSecond at h
  induction q generalizing x s as Q with
  | done b =>
    cases h with
    | done _ _ => exact ⟨[], .done _ _, rfl⟩
  | read k ih =>
    cases h with
    | read h =>
      obtain ⟨bs, hbs, heq⟩ := ih x hq h
      exact ⟨_ :: bs, .read hbs, heq⟩
  | write f q ih =>
    obtain ⟨I, hI, hq⟩ := hq
    cases h with
    | read h =>
      cases h with
      | write _ h =>
        obtain ⟨bs, hbs, heq⟩ := ih hq h
        exact ⟨_ :: bs, .write ⟨I, hI⟩ hbs, heq⟩
  | report e k ih =>
    cases h with
    | report h =>
      obtain ⟨bs, hbs, heq⟩ := ih _ (hq _) h
      exact ⟨_ :: bs, .report hbs, by rw [deeds_report, deeds_report, heq]⟩
  | clock k ih =>
    cases h with
    | clock h =>
      obtain ⟨bs, hbs, heq⟩ := ih _ (hq _) h
      exact ⟨_ :: bs, .clock hbs, heq⟩
  | announce n c k ih =>
    cases h with
    | announce h =>
      obtain ⟨bs, hbs, heq⟩ := ih _ (hq _) h
      exact ⟨_ :: bs, .announce hbs, heq⟩
  | call c l k ih =>
    cases h with
    | call h =>
      obtain ⟨bs, hbs, heq⟩ := ih _ (hq _) h
      exact ⟨_ :: bs, .call hbs, by rw [deeds_call, deeds_call, heq]⟩
  | await ts k ih =>
    cases h with
    | await _ h =>
      obtain ⟨bs, hbs, heq⟩ := ih _ _ (hq _ _ x (.refl x)) h
      exact ⟨_ :: bs, .await rfl hbs, by rw [deeds_settle, deeds_settle, heq]⟩

end Process

end Workflow
