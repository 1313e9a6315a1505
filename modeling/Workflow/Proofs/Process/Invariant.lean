import Workflow.Proofs.Process.Patient

/-!
# Invariants of processes

`Process.Upholds` says of a process that each of its writes keeps an invariant of the state,
provided that all it hears of its calls is of a certain kind. What it reads satisfies the invariant
then, whoever else has changed the state meanwhile, as long as they uphold the invariant as well. So
processes side by side need to know nothing else of each other, and nothing has to be said of the
state in which a process begins.

In a world that answers calls in that way only, the invariant holds at all points of a run, also of
one that is cut off: `Upholds.of_mem_states`.
-/

namespace Workflow

variable {σ τ α β ω : Type}

/-- All that a world says of calls is of a certain kind. -/
structure World.AnswersBy (w : World ω) (H : Settlement → Prop) : Prop where
  call : ∀ c limit x r, (w.call c limit x).1 = .settled r → H r
  settle : ∀ ts x t r, (w.settle ts x).1 = some (t, r) → H r

/-- If runs are not cut off, some calls are cancelled instead. -/
theorem World.AnswersBy.patient {w : World ω} {H : Settlement → Prop} (hw : w.AnswersBy H)
    (hcancelled : H .cancelled) : w.patient.AnswersBy H where
  call := hw.call
  settle := by
    intro ts x t r h
    rcases hsettle : w.settle ts x with ⟨_ | ⟨u, q⟩, y⟩
    · rw [World.patient_settle_of_none hsettle] at h
      cases h
      exact hcancelled
    · rw [World.patient_settle_of_some hsettle] at h
      exact hw.settle ts x t r ((congrArg Prod.fst hsettle).trans h)

namespace Process

/-- The states that a run goes through, up to its end or to where it is cut off. -/
def states (w : World ω) : Process σ α → σ → ω → List σ
  | done _, s, _ => [s]
  | read k, s, x => (k s).states w s x
  | write f p, s, x => s :: p.states w (f s) x
  | report e k, s, x => let (r, x) := w.report e x; (k r).states w s x
  | clock k, s, x => (k (w.clock x)).states w s x
  | announce n c k, s, x => let (r, x) := w.announce n c x; (k r).states w s x
  | call c l k, s, x => let (b, x) := w.call c l x; (k b).states w s x
  | await ts k, s, x =>
    match w.settle ts x with
    | (some (t, r), x) => (k t r).states w s x
    | (none, _) => [s]

/-- A process keeps an invariant of its state as long as what it hears of calls is of a certain
kind, and something holds of its result then. -/
def Upholds (I : σ → Prop) (H : Settlement → Prop) : Process σ α → (α → Prop) → Prop
  | done a, Q => Q a
  | read k, Q => ∀ s, I s → (k s).Upholds I H Q
  | write f p, Q => (∀ s, I s → I (f s)) ∧ p.Upholds I H Q
  | report _ k, Q => ∀ r, (k r).Upholds I H Q
  | clock k, Q => ∀ t, (k t).Upholds I H Q
  | announce _ _ k, Q => ∀ r, (k r).Upholds I H Q
  | call _ _ k, Q => ∀ b, (∀ r, b = .settled r → H r) → (k b).Upholds I H Q
  | await _ k, Q => ∀ t r, H r → (k t r).Upholds I H Q

namespace Upholds

variable {I : σ → Prop} {J : τ → Prop} {H : Settlement → Prop}

theorem mono {p : Process σ α} {Q Q' : α → Prop} (h : p.Upholds I H Q) (hQ : ∀ a, Q a → Q' a) :
    p.Upholds I H Q' := by
  induction p with
  | done a => exact hQ a h
  | read k ih => exact fun s hs ↦ ih s (h s hs)
  | write f p ih => exact ⟨h.1, ih h.2⟩
  | report e k ih => exact fun r ↦ ih r (h r)
  | clock k ih => exact fun t ↦ ih t (h t)
  | announce n c k ih => exact fun r ↦ ih r (h r)
  | call c l k ih => exact fun b hb ↦ ih b (h b hb)
  | await ts k ih => exact fun t r hr ↦ ih t r (h t r hr)

/-! ## Runs -/

variable {w : World ω} {s t : σ} {x y : ω} {a : α}

/-- **Invariants.** The invariant holds at all points of a run that begins with it. -/
theorem of_mem_states {p : Process σ α} {Q : α → Prop} (h : p.Upholds I H Q) (hw : w.AnswersBy H)
    (hs : I s) (ht : t ∈ p.states w s x) : I t := by
  induction p generalizing s x with
  | done b =>
    rw [states, List.mem_singleton] at ht
    exact ht ▸ hs
  | read k ih => exact ih s (h s hs) hs ht
  | write f p ih =>
    rcases List.mem_cons.1 ht with rfl | ht
    · exact hs
    · exact ih h.2 (h.1 s hs) ht
  | report e k ih => exact ih _ (h _) hs ht
  | clock k ih => exact ih _ (h _) hs ht
  | announce n c k ih => exact ih _ (h _) hs ht
  | call c l k ih => exact ih _ (h _ fun r ↦ hw.call c l x r) hs ht
  | await ts k ih =>
    rw [states] at ht
    rcases hsettle : w.settle ts x with ⟨_ | ⟨u, r⟩, y⟩
    · rw [hsettle] at ht
      exact List.mem_singleton.1 ht ▸ hs
    · rw [hsettle] at ht
      exact ih u r (h u r (hw.settle ts x u r (congrArg Prod.fst hsettle))) hs ht

theorem run {p : Process σ α} {Q : α → Prop} (h : p.Upholds I H Q) (hw : w.AnswersBy H) (hs : I s)
    (hrun : p.run w s x = (some (a, t), y)) : I t ∧ Q a := by
  induction p generalizing s x with
  | done b =>
    cases hrun
    exact ⟨hs, h⟩
  | read k ih => exact ih s (h s hs) hs hrun
  | write f p ih => exact ih h.2 (h.1 s hs) hrun
  | report e k ih => exact ih _ (h _) hs hrun
  | clock k ih => exact ih _ (h _) hs hrun
  | announce n c k ih => exact ih _ (h _) hs hrun
  | call c l k ih => exact ih _ (h _ fun r ↦ hw.call c l x r) hs hrun
  | await ts k ih =>
    rw [Process.run] at hrun
    rcases hsettle : w.settle ts x with ⟨_ | ⟨u, r⟩, z⟩
    · rw [hsettle] at hrun
      cases hrun
    · rw [hsettle] at hrun
      exact ih u r (h u r (hw.settle ts x u r (congrArg Prod.fst hsettle))) hs hrun

/-! ## One after the other -/

theorem bind {p : Process σ α} {f : α → Process σ β} {P : α → Prop} {Q : β → Prop}
    (hp : p.Upholds I H P) (hf : ∀ a, P a → (f a).Upholds I H Q) : (p.bind f).Upholds I H Q := by
  induction p with
  | done a => exact hf a hp
  | read k ih => exact fun s hs ↦ ih s (hp s hs)
  | write g p ih => exact ⟨hp.1, ih hp.2⟩
  | report e k ih => exact fun r ↦ ih r (hp r)
  | clock k ih => exact fun t ↦ ih t (hp t)
  | announce n c k ih => exact fun r ↦ ih r (hp r)
  | call c l k ih => exact fun b hb ↦ ih b (hp b hb)
  | await ts k ih => exact fun t r hr ↦ ih t r (hp t r hr)

theorem settle (c : Call) (limit : Option Nat) : (settle c limit).Upholds I H H := by
  intro b hb
  cases b with
  | settled r => exact hb r rfl
  | pending t => exact fun _ r hr ↦ hr

theorem inOrder {ε : Type} (failure : α → Option ε) {Q : α → Prop} {ps : List (Process σ α)}
    (hps : ∀ p ∈ ps, p.Upholds I H Q) {so : List α} (hso : ∀ a ∈ so, Q a) :
    (inOrder failure ps so).Upholds I H fun r ↦ ∀ a ∈ r.1, Q a := by
  induction ps generalizing so with
  | nil => exact hso
  | cons p ps ih =>
    obtain ⟨hp, hps⟩ := List.forall_mem_cons.1 hps
    refine hp.bind fun a ha ↦ ?_
    have hmore : ∀ b ∈ so ++ [a], Q b := List.forall_mem_append.2 ⟨hso, by simpa using ha⟩
    split
    · exact hmore
    · exact ih hps hmore

/-! ## States beside states -/

theorem onFirst {p : Process σ α} {Q : α → Prop} (h : p.Upholds I H Q) (J : τ → Prop) :
    p.onFirst.Upholds (fun t ↦ I t.1 ∧ J t.2) H Q := by
  induction p with
  | done a => exact h
  | read k ih => exact fun t ht ↦ ih t.1 (h t.1 ht.1)
  | write f p ih => exact ⟨fun t ht ↦ ⟨h.1 t.1 ht.1, ht.2⟩, ih h.2⟩
  | report e k ih => exact fun r ↦ ih r (h r)
  | clock k ih => exact fun t ↦ ih t (h t)
  | announce n c k ih => exact fun r ↦ ih r (h r)
  | call c l k ih => exact fun b hb ↦ ih b (h b hb)
  | await ts k ih => exact fun t r hr ↦ ih t r (h t r hr)

theorem withLocal {p : Process (σ × τ) α} {Q : α → Prop} {x : τ}
    (h : p.Upholds (fun t ↦ I t.1 ∧ J t.2) H Q) (hx : J x) :
    (withLocal x p).Upholds I H fun r ↦ Q r.1 ∧ J r.2 := by
  induction p generalizing x with
  | done a => exact ⟨h, hx⟩
  | read k ih => exact fun s hs ↦ ih (s, x) (h (s, x) ⟨hs, hx⟩) hx
  | write f p ih =>
    exact fun s hs ↦ ⟨fun s' hs' ↦ (h.1 (s', x) ⟨hs', hx⟩).1, ih h.2 (h.1 (s, x) ⟨hs, hx⟩).2⟩
  | report e k ih => exact fun r ↦ ih r (h r) hx
  | clock k ih => exact fun t ↦ ih t (h t) hx
  | announce n c k ih => exact fun r ↦ ih r (h r) hx
  | call c l k ih => exact fun b hb ↦ ih b (h b hb) hx
  | await ts k ih => exact fun t r hr ↦ ih t r (h t r hr) hx

/-! ## Side by side -/

theorem besides {tickets : List Ticket}
    {first : Ticket → Settlement → Process σ Unit → Process σ Unit} {Q R : Unit → Prop}
    (hfirst : ∀ t r (q : Process σ Unit), H r → q.Upholds I H Q → (first t r q).Upholds I H R)
    {q : Process σ Unit} (hq : q.Upholds I H Q) : (besides tickets first q).Upholds I H R := by
  induction q with
  | done a => exact fun t r hr ↦ hfirst t r _ hr hq
  | read k ih => exact fun s hs ↦ ih s (hq s hs)
  | write f q ih => exact ⟨hq.1, ih hq.2⟩
  | report e k ih => exact fun r ↦ ih r (hq r)
  | clock k ih => exact fun t ↦ ih t (hq t)
  | announce n c k ih => exact fun r ↦ ih r (hq r)
  | call c l k ih => exact fun b hb ↦ ih b (hq b hb)
  | await ts k ih =>
    intro t r hr
    dsimp only
    split
    · exact hfirst t r _ hr hq
    · exact ih t r (hq t r hr)

theorem both {p q : Process σ Unit} {P Q : Unit → Prop} (hp : p.Upholds I H P)
    (hq : q.Upholds I H Q) : (both p q).Upholds I H Q := by
  induction p generalizing q with
  | done a => exact hq
  | read k ih => exact fun s hs ↦ ih s (hp s hs) hq
  | write f p ih => exact ⟨hp.1, ih hp.2 hq⟩
  | report e k ih => exact fun r ↦ ih r (hp r) hq
  | clock k ih => exact fun t ↦ ih t (hp t) hq
  | announce n c k ih => exact fun r ↦ ih r (hp r) hq
  | call c l k ih => exact fun b hb ↦ ih b (hp b hb) hq
  | await ts k ih => exact besides (fun t r q hr hq ↦ ih t r (hp t r hr) hq) hq

theorem all {Q : Unit → Prop} {ps : List (Process σ Unit)} (hps : ∀ p ∈ ps, p.Upholds I H Q)
    (hQ : Q ()) : (all ps).Upholds I H Q := by
  induction ps with
  | nil => exact hQ
  | cons p ps ih =>
    obtain ⟨hp, hps⟩ := List.forall_mem_cons.1 hps
    exact hp.both (ih hps)

theorem noting {p : Process σ α} {Q : α → Prop} (h : p.Upholds I H Q) :
    (noting p).Upholds (fun t ↦ I t.1 ∧ ∀ a ∈ t.2, Q a) H fun _ ↦ True := by
  refine (h.onFirst fun as ↦ ∀ a ∈ as, Q a).bind fun a ha ↦ ⟨fun t ht ↦ ⟨ht.1, ?_⟩, trivial⟩
  exact List.forall_mem_append.2 ⟨ht.2, by simpa using ha⟩

/-- What holds of the result of each of several processes side by side holds of all results in the
order in which they come. -/
theorem arrivals {ps : List (Process σ α)} {Q : α → Prop} (hps : ∀ p ∈ ps, p.Upholds I H Q) :
    (arrivals ps).Upholds I H fun as ↦ ∀ a ∈ as, Q a := by
  have hall : (Process.all (ps.map Process.noting)).Upholds
      (fun t ↦ I t.1 ∧ ∀ a ∈ t.2, Q a) H fun _ ↦ True := by
    refine all (fun q hq ↦ ?_) trivial
    obtain ⟨p, hp, rfl⟩ := List.mem_map.1 hq
    exact noting (hps p hp)
  have hlocal := hall.withLocal (J := fun as ↦ ∀ a ∈ as, Q a) (x := []) nofun
  exact hlocal.bind fun r hr ↦ hr.2

end Upholds

end Process

end Workflow
