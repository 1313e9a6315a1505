import Mathlib.Data.Set.Lattice
import Mathlib.Order.CompletePartialOrder
import Mathlib.Order.ConditionallyCompleteLattice.Basic
import Workflow.Process.World

/-!
# Disciplines

Processes that run side by side share a state, and whenever one of them has waited, it finds that
the others have changed it. A discipline tells how any of them may change it. `Process.Follows` says
of a process that, from a state on, each of its writes is such a change, provided that whatever
happens while it waits is one too; and what holds of its result then.

A change leaves marks, and what is left on the way is collected: a process follows a discipline up
to an end at which something holds of the marks that it left, the state and the result. The marks of
processes that run side by side are those of all of them together, in whatever order they ran.

The laws below are those of the combinators that processes are made of. Between two waits nobody
else runs, so there a process knows the state that it is in, and not only that it is a later one.
-/

namespace Workflow

/-- How processes may change a state that they share, and which marks a change leaves. -/
structure Discipline (σ ε : Type) [SemilatticeSup ε] [OrderBot ε] where
  Change : ε → σ → σ → Prop
  refl : ∀ s, Change ⊥ s s
  trans : ∀ {I J : ε} {s t u : σ}, Change I s t → Change J t u → Change (I ⊔ J) s u

namespace Discipline

variable {σ τ ε δ : Type} [SemilatticeSup ε] [OrderBot ε] [SemilatticeSup δ] [OrderBot δ]

/-- One state comes from another one by changes, whatever marks they left. -/
def Later (D : Discipline σ ε) (s t : σ) : Prop := ∃ I, D.Change I s t

variable {D : Discipline σ ε} {E : Discipline τ δ} {s t u : σ}

theorem Later.refl (s : σ) : D.Later s s := ⟨⊥, D.refl s⟩

theorem Later.trans (h : D.Later s t) (h' : D.Later t u) : D.Later s u :=
  have ⟨_, h⟩ := h
  have ⟨_, h'⟩ := h'
  ⟨_, D.trans h h'⟩

/-- Two states beside each other, each with its own discipline. -/
def beside (D : Discipline σ ε) (E : Discipline τ δ) : Discipline (σ × τ) (ε × δ) where
  Change I s t := D.Change I.1 s.1 t.1 ∧ E.Change I.2 s.2 t.2
  refl s := ⟨D.refl s.1, E.refl s.2⟩
  trans h h' := ⟨D.trans h.1 h'.1, E.trans h.2 h'.2⟩

/-- A list to which items are added, and the marks are the items. -/
def items (α : Type) : Discipline (List α) (Set α) where
  Change I s t := ∃ more, t = s ++ more ∧ I = {a | a ∈ more}
  refl s := ⟨[], (List.append_nil s).symm, by simp⟩
  trans := by
    rintro _ _ s _ _ ⟨more, rfl, rfl⟩ ⟨more', rfl, rfl⟩
    exact ⟨more ++ more', List.append_assoc .., by ext a; simp⟩

end Discipline

namespace Process

variable {σ τ α β ε δ ω : Type} [SemilatticeSup ε] [OrderBot ε] [SemilatticeSup δ] [OrderBot δ]

/-- From a state on, a process changes the state as a discipline allows, provided that the state is
changed only so while it waits; and something holds at its end of the marks that it left, the state
and its result. -/
def Follows (D : Discipline σ ε) : Process σ α → (ε → σ → α → Prop) → σ → Prop
  | done a, Q, s => Q ⊥ s a
  | read k, Q, s => (k s).Follows D Q s
  | write f p, Q, s => ∃ I, D.Change I s (f s) ∧ p.Follows D (fun J ↦ Q (I ⊔ J)) (f s)
  | report _ k, Q, s => ∀ r, (k r).Follows D Q s
  | clock k, Q, s => ∀ t, (k t).Follows D Q s
  | announce _ _ k, Q, s => ∀ r, (k r).Follows D Q s
  | call _ _ k, Q, s => ∀ b, (k b).Follows D Q s
  | await _ k, Q, s => ∀ t r s', D.Later s s' → (k t r).Follows D Q s'

namespace Follows

variable {D : Discipline σ ε} {E : Discipline τ δ} {s : σ}

theorem mono {p : Process σ α} {Q Q' : ε → σ → α → Prop} (h : p.Follows D Q s)
    (hQ : ∀ I t a, Q I t a → Q' I t a) : p.Follows D Q' s := by
  induction p generalizing s Q Q' with
  | done a => exact hQ _ _ _ h
  | read k ih => exact ih s h hQ
  | write f p ih =>
    obtain ⟨I, hI, hp⟩ := h
    exact ⟨I, hI, ih hp fun J ↦ hQ (I ⊔ J)⟩
  | report e k ih => exact fun r ↦ ih r (h r) hQ
  | clock k ih => exact fun t ↦ ih t (h t) hQ
  | announce n c k ih => exact fun r ↦ ih r (h r) hQ
  | call c l k ih => exact fun b ↦ ih b (h b) hQ
  | await ts k ih => exact fun t r s' hs ↦ ih t r (h t r s' hs) hQ

theorem later {p : Process σ α} {Q : ε → σ → α → Prop} (h : p.Follows D Q s) :
    p.Follows D (fun I t a ↦ D.Later s t ∧ Q I t a) s := by
  induction p generalizing s Q with
  | done a => exact ⟨.refl s, h⟩
  | read k ih => exact ih s h
  | write f p ih =>
    obtain ⟨I, hI, hp⟩ := h
    refine ⟨I, hI, (ih hp).mono fun J t a hJ ↦ ⟨?_, hJ.2⟩⟩
    exact Discipline.Later.trans ⟨I, hI⟩ hJ.1
  | report e k ih => exact fun r ↦ ih r (h r)
  | clock k ih => exact fun t ↦ ih t (h t)
  | announce n c k ih => exact fun r ↦ ih r (h r)
  | call c l k ih => exact fun b ↦ ih b (h b)
  | await ts k ih =>
    exact fun t r s' hs ↦ (ih t r (h t r s' hs)).mono fun J t a hJ ↦ ⟨hs.trans hJ.1, hJ.2⟩

/-- A run by itself changes the state as a discipline allows that the process follows. -/
theorem run {p : Process σ α} {Q : ε → σ → α → Prop} (h : p.Follows D Q s) {w : World ω}
    {t : σ} {x y : ω} {a : α} (hrun : p.run w s x = (some (a, t), y)) :
    ∃ I, D.Change I s t ∧ Q I t a := by
  induction p generalizing s x Q with
  | done b =>
    cases hrun
    exact ⟨⊥, D.refl _, h⟩
  | read k ih => exact ih s h hrun
  | write f p ih =>
    obtain ⟨I, hI, hp⟩ := h
    obtain ⟨J, hJ, ha⟩ := ih hp hrun
    exact ⟨I ⊔ J, D.trans hI hJ, ha⟩
  | report e k ih => exact ih _ (h _) hrun
  | clock k ih => exact ih _ (h _) hrun
  | announce n c k ih => exact ih _ (h _) hrun
  | call c l k ih => exact ih _ (h _) hrun
  | await ts k ih =>
    rw [Process.run] at hrun
    split at hrun
    · exact ih _ _ (h _ _ s (.refl s)) hrun
    · cases hrun

/-! ## One after the other -/

theorem bind {p : Process σ α} {f : α → Process σ β} {Q : ε → σ → β → Prop}
    (h : p.Follows D (fun I t a ↦ (f a).Follows D (fun J ↦ Q (I ⊔ J)) t) s) :
    (p.bind f).Follows D Q s := by
  induction p generalizing s Q with
  | done a => exact mono h fun J _ _ hJ ↦ by rwa [bot_sup_eq] at hJ
  | read k ih => exact ih s h
  | write g p ih =>
    obtain ⟨I, hI, hp⟩ := h
    refine ⟨I, hI, ih (hp.mono fun J t a hJ ↦ hJ.mono fun K _ _ hK ↦ ?_)⟩
    rwa [sup_assoc] at hK
  | report e k ih => exact fun r ↦ ih r (h r)
  | clock k ih => exact fun t ↦ ih t (h t)
  | announce n c k ih => exact fun r ↦ ih r (h r)
  | call c l k ih => exact fun b ↦ ih b (h b)
  | await ts k ih => exact fun t r s' hs ↦ ih t r (h t r s' hs)

theorem settle (c : Call) (limit : Option Nat) {Q : ε → σ → Settlement → Prop}
    (h : ∀ t r, D.Later s t → Q ⊥ t r) : (settle c limit).Follows D Q s := by
  intro b
  cases b with
  | settled r => exact h s r (.refl s)
  | pending t => exact fun _ r t ht ↦ h t r ht

/-! ## States inside states -/

theorem onFirst {p : Process σ α} {Q : ε → σ → α → Prop} (h : p.Follows D Q s) (x : τ) :
    p.onFirst.Follows (D.beside E) (fun I t a ↦ I.2 = ⊥ ∧ Q I.1 t.1 a) (s, x) := by
  induction p generalizing s x Q with
  | done a => exact ⟨rfl, h⟩
  | read k ih => exact ih s h x
  | write f p ih =>
    obtain ⟨I, hI, hp⟩ := h
    refine ⟨(I, ⊥), ⟨hI, E.refl x⟩, mono (ih hp x) fun J t a hJ ↦ ⟨?_, hJ.2⟩⟩
    exact (bot_sup_eq J.2).trans hJ.1
  | report e k ih => exact fun r ↦ ih r (h r) x
  | clock k ih => exact fun t ↦ ih t (h t) x
  | announce n c k ih => exact fun r ↦ ih r (h r) x
  | call c l k ih => exact fun b ↦ ih b (h b) x
  | await ts k ih =>
    rintro t r ⟨s', x'⟩ ⟨I, hI⟩
    exact ih t r (h t r s' ⟨I.1, hI.1⟩) x'

theorem onSecond {p : Process τ α} {Q : δ → τ → α → Prop} {x : τ} (h : p.Follows E Q x) (s : σ) :
    p.onSecond.Follows (D.beside E) (fun I t a ↦ I.1 = ⊥ ∧ Q I.2 t.2 a) (s, x) := by
  induction p generalizing s x Q with
  | done a => exact ⟨rfl, h⟩
  | read k ih => exact ih x h s
  | write f p ih =>
    obtain ⟨I, hI, hp⟩ := h
    refine ⟨(⊥, I), ⟨D.refl s, hI⟩, mono (ih hp s) fun J t a hJ ↦ ⟨?_, hJ.2⟩⟩
    exact (bot_sup_eq J.1).trans hJ.1
  | report e k ih => exact fun r ↦ ih r (h r) s
  | clock k ih => exact fun t ↦ ih t (h t) s
  | announce n c k ih => exact fun r ↦ ih r (h r) s
  | call c l k ih => exact fun b ↦ ih b (h b) s
  | await ts k ih =>
    rintro t r ⟨s', x'⟩ ⟨I, hI⟩
    exact ih t r (h t r x' ⟨I.2, hI.2⟩) s'

/-- Nobody else changes a state of its own, so at its end it comes from what it was in the beginning
by the changes of the process alone. -/
theorem withLocal {p : Process (σ × τ) α} {Q : ε × δ → σ × τ → α → Prop} {x : τ}
    (h : p.Follows (D.beside E) Q (s, x)) :
    (withLocal x p).Follows D
      (fun I t r ↦ ∃ J, E.Change J x r.2 ∧ Q (I, J) (t, r.2) r.1) s := by
  induction p generalizing s x Q with
  | done a => exact ⟨⊥, E.refl x, h⟩
  | read k ih => exact ih (s, x) h
  | write f p ih =>
    obtain ⟨I, hI, hp⟩ := h
    refine ⟨I.1, hI.1, (ih hp).mono fun J t r hJ ↦ ?_⟩
    obtain ⟨K, hK, hQ⟩ := hJ
    exact ⟨I.2 ⊔ K, E.trans hI.2 hK, hQ⟩
  | report e k ih => exact fun r ↦ ih r (h r)
  | clock k ih => exact fun t ↦ ih t (h t)
  | announce n c k ih => exact fun r ↦ ih r (h r)
  | call c l k ih => exact fun b ↦ ih b (h b)
  | await ts k ih =>
    rintro t r s' ⟨I, hI⟩
    exact ih t r (h t r (s', x) ⟨(I, ⊥), hI, E.refl x⟩)

/-- A process on a state of its own leaves no mark on the outer one. -/
theorem isolated {p : Process τ α} {Q : δ → τ → α → Prop} {x : τ} (h : p.Follows E Q x) (s : σ) :
    (isolated x p).Follows D
      (fun I t r ↦ I = ⊥ ∧ D.Later s t ∧ ∃ J, E.Change J x r.2 ∧ Q J r.2 r.1) s := by
  refine (later (withLocal (onSecond h s))).mono fun I t r hr ↦ ?_
  obtain ⟨hlater, J, hJ, hI, hQ⟩ := hr
  exact ⟨hI, hlater, J, hJ, hQ⟩

/-! ## Side by side -/

variable {P Q R : ε → Prop}

/-- The process that runs while another one waits does what it may do by itself. -/
theorem besides {tickets : List Ticket}
    {first : Ticket → Settlement → Process σ Unit → Process σ Unit}
    (hfirst : ∀ t r (q : Process σ Unit) (Q R : ε → Prop) u, D.Later s u →
      (∀ I J, P I → Q J → R (I ⊔ J)) →
        (∀ v, D.Later u v → q.Follows D (fun J _ _ ↦ Q J) v) →
          (first t r q).Follows D (fun J _ _ ↦ R J) u)
    (hR : ∀ I J, P I → Q J → R (I ⊔ J)) {q : Process σ Unit} {u : σ} (hu : D.Later s u)
    (hq : q.Follows D (fun J _ _ ↦ Q J) u) :
    (besides tickets first q).Follows D (fun J _ _ ↦ R J) u := by
  induction q generalizing u Q R with
  | done a => exact fun t r v hv ↦ hfirst t r _ Q R v (hu.trans hv) hR fun _ _ ↦ hq
  | read k ih => exact ih u hR hu hq
  | write f q ih =>
    obtain ⟨I, hI, hq⟩ := hq
    refine ⟨I, hI, ih (fun K J hK hJ ↦ ?_) (hu.trans ⟨I, hI⟩) hq⟩
    rw [sup_left_comm]
    exact hR _ _ hK hJ
  | report e k ih => exact fun r ↦ ih r hR hu (hq r)
  | clock k ih => exact fun t ↦ ih t hR hu (hq t)
  | announce n c k ih => exact fun r ↦ ih r hR hu (hq r)
  | call c l k ih => exact fun b ↦ ih b hR hu (hq b)
  | await ts k ih =>
    intro t r v hv
    dsimp only
    split
    · -- the other process goes on, and this one waits for as long
      exact hfirst t r _ Q R v (hu.trans hv) hR fun v' hv' t r u' hu' ↦
        hq t r u' ((hv.trans hv').trans hu')
    · exact ih t r hR (hu.trans hv) (hq t r v hv)

/-- The second of two processes side by side begins in a later state. -/
theorem both {p q : Process σ Unit} (hR : ∀ I J, P I → Q J → R (I ⊔ J))
    (hp : p.Follows D (fun I _ _ ↦ P I) s)
    (hq : ∀ t, D.Later s t → q.Follows D (fun J _ _ ↦ Q J) t) :
    (both p q).Follows D (fun I _ _ ↦ R I) s := by
  induction p generalizing s P Q R q with
  | done a =>
    refine (hq s (.refl s)).mono fun J _ _ hJ ↦ ?_
    rw [← bot_sup_eq J]
    exact hR _ _ hp hJ
  | read k ih => exact ih s hR hp hq
  | write f p ih =>
    obtain ⟨I, hI, hp⟩ := hp
    refine ⟨I, hI, ih (fun K J hK hJ ↦ ?_) hp fun t ht ↦ hq t (.trans ⟨I, hI⟩ ht)⟩
    rw [← sup_assoc]
    exact hR _ _ hK hJ
  | report e k ih => exact fun r ↦ ih r hR (hp r) hq
  | clock k ih => exact fun t ↦ ih t hR (hp t) hq
  | announce n c k ih => exact fun r ↦ ih r hR (hp r) hq
  | call c l k ih => exact fun b ↦ ih b hR (hp b) hq
  | await ts k ih =>
    refine besides (fun t r q Q R u hu hR hq ↦ ?_) hR (.refl s) (hq s (.refl s))
    exact ih t r hR (hp t r u hu) hq

/-- What holds of the marks of each of several processes, and of all marks together if it holds of
some and of others, holds of those that they leave side by side. -/
theorem all (hbot : P ⊥) (hsup : ∀ I J, P I → P J → P (I ⊔ J)) {ps : List (Process σ Unit)}
    (hps : ∀ p ∈ ps, ∀ t, D.Later s t → p.Follows D (fun I _ _ ↦ P I) t) :
    (all ps).Follows D (fun I _ _ ↦ P I) s := by
  induction ps generalizing s with
  | nil => exact hbot
  | cons p ps ih =>
    refine both hsup (hps p List.mem_cons_self s (.refl s)) fun t ht ↦ ih fun q hq u hu ↦ ?_
    exact hps q (List.mem_cons_of_mem _ hq) u (ht.trans hu)

theorem noting {p : Process σ α} {Q : ε → α → Prop} (h : p.Follows D (fun I _ a ↦ Q I a) s)
    (so : List α) :
    (noting p).Follows (D.beside (.items α)) (fun I _ _ ↦ ∃ a, I.2 = {a} ∧ Q I.1 a) (s, so) := by
  refine bind ((onFirst h so).mono fun I t a hI ↦ ?_)
  obtain ⟨hbot, hQ⟩ := hI
  refine ⟨(⊥, {a}), ⟨D.refl t.1, [a], rfl, by simp⟩, a, ?_, ?_⟩
  · change I.2 ⊔ ({a} ⊔ ⊥) = {a}
    rw [hbot, bot_sup_eq, sup_bot_eq]
  · change Q (I.1 ⊔ (⊥ ⊔ ⊥)) a
    rwa [bot_sup_eq, sup_bot_eq]

end Follows

end Process

/-! ## Results and their marks -/

section

variable {σ α ι : Type}

/-- The marks of several items together. -/
def marksOf (marks : α → Set ι) (as : List α) : Set ι := {i | ∃ a ∈ as, i ∈ marks a}

/-- Some marks are those of some items, and something holds of each of the items. -/
def Accord (marks : α → Set ι) (P : α → Prop) (I : Set ι × Set α) : Prop :=
  I.1 = {i | ∃ a ∈ I.2, i ∈ marks a} ∧ ∀ a ∈ I.2, P a

variable {marks : α → Set ι} {P : α → Prop}

theorem accord_bot : Accord marks P ⊥ := ⟨by simp, by simp⟩

theorem Accord.sup {I J : Set ι × Set α} (hI : Accord marks P I) (hJ : Accord marks P J) :
    Accord marks P (I ⊔ J) := by
  refine ⟨?_, fun a ha ↦ ha.elim (hI.2 a) (hJ.2 a)⟩
  change I.1 ∪ J.1 = _
  rw [hI.1, hJ.1]
  ext i
  simp [or_and_right, exists_or]

theorem accord_singleton {a : α} {I : Set ι × Set α} (hmarks : I.1 = marks a) (ha : I.2 = {a})
    (hP : P a) : Accord marks P I := by
  refine ⟨?_, ?_⟩
  · rw [hmarks, ha]
    simp
  · rw [ha]
    simpa using hP

namespace Process.Follows

variable {D : Discipline σ (Set ι)} {s : σ}

/-- Processes side by side leave the marks that go with their results, all of them together. -/
theorem arrivals {ps : List (Process σ α)}
    (hps : ∀ p ∈ ps, ∀ t, D.Later s t → p.Follows D (fun I _ a ↦ I = marks a ∧ P a) t) :
    (arrivals ps).Follows D (fun I _ as ↦ I = marksOf marks as ∧ ∀ a ∈ as, P a) s := by
  have hall : (Process.all (ps.map Process.noting)).Follows (D.beside (.items α))
      (fun I _ _ ↦ Accord marks P I) (s, []) := by
    refine all accord_bot (fun _ _ ↦ Accord.sup) fun q hq t ht ↦ ?_
    obtain ⟨p, hp, rfl⟩ := List.mem_map.1 hq
    obtain ⟨I, hI, -⟩ := ht
    refine (noting (hps p hp t.1 ⟨I.1, hI⟩) t.2).mono fun J _ _ hJ ↦ ?_
    obtain ⟨a, ha, hmarks, hP⟩ := hJ
    exact accord_singleton hmarks ha hP
  refine bind ((withLocal hall).mono fun I t r hr ↦ ?_)
  -- the list was empty in the beginning, so in the end it holds what was noted
  obtain ⟨J, ⟨more, hmore, rfl⟩, hI, hP⟩ := hr
  rw [List.nil_append] at hmore
  subst hmore
  exact ⟨by rw [sup_bot_eq]; exact hI, hP⟩

end Process.Follows

end

end Workflow
