import Mathlib.Data.List.Forall2
import Workflow.Proofs.Process.Path

/-!
# Similar processes

Two processes are similar if they do the same in the same order, whatever they are answered. They
may tell different reasons why a step is skipped, they may keep different things in states of their
own, and they may end with different results, as long as a relation holds between these. All that
processes are made of takes similar parts to similar wholes.

In a world that overlooks the reasons, runs of similar processes cannot be told apart: `Similar.run`
and `Similar.acts` say so of the results, of what is left of the world, and of everything that was
done on the way.
-/

namespace Workflow

/-- Two events that differ at most in the reason why a step was skipped. -/
inductive Audit.Event.Alike : Audit.Event → Audit.Event → Prop where
  | refl (e : Audit.Event) : Alike e e
  | skipped (step reason reason' : String) :
      Alike (.make step .skipped [("reason", .string reason)])
        (.make step .skipped [("reason", .string reason')])

namespace Process

variable {σ σ' τ τ' α α' β β' ω : Type}

/-- Two processes do the same in the same order, over states that are related, and end with results
that are related. -/
inductive Similar (S : σ → σ' → Prop) (Q : α → α' → Prop) : Process σ α → Process σ' α' → Prop where
  | done {a : α} {b : α'} : Q a b → Similar S Q (.done a) (.done b)
  | read {k : σ → Process σ α} {l : σ' → Process σ' α'} :
      (∀ s t, S s t → Similar S Q (k s) (l t)) → Similar S Q (.read k) (.read l)
  | write {f : σ → σ} {g : σ' → σ'} {p : Process σ α} {q : Process σ' α'} :
      (∀ s t, S s t → S (f s) (g t)) → Similar S Q p q → Similar S Q (.write f p) (.write g q)
  | report {e e' : Audit.Event} {k : Option String → Process σ α}
      {l : Option String → Process σ' α'} :
      e.Alike e' → (∀ r, Similar S Q (k r) (l r)) → Similar S Q (.report e k) (.report e' l)
  | clock {k : Nat → Process σ α} {l : Nat → Process σ' α'} :
      (∀ t, Similar S Q (k t) (l t)) → Similar S Q (.clock k) (.clock l)
  | announce {n : String} {c : Context} {k : Option String → Process σ α}
      {l : Option String → Process σ' α'} :
      (∀ r, Similar S Q (k r) (l r)) → Similar S Q (.announce n c k) (.announce n c l)
  | call {c : Call} {limit : Option Nat} {k : Beginning → Process σ α}
      {l : Beginning → Process σ' α'} :
      (∀ b, Similar S Q (k b) (l b)) → Similar S Q (.call c limit k) (.call c limit l)
  | await {ts : List Ticket} {k : Ticket → Settlement → Process σ α}
      {l : Ticket → Settlement → Process σ' α'} :
      (∀ t r, Similar S Q (k t r) (l t r)) → Similar S Q (.await ts k) (.await ts l)

/-- Both parts of two pairs are related. -/
def Pairs (S : σ → σ' → Prop) (X : τ → τ' → Prop) (s : σ × τ) (t : σ' × τ') : Prop :=
  S s.1 t.1 ∧ X s.2 t.2

namespace Similar

variable {S : σ → σ' → Prop} {X : τ → τ' → Prop} {Q : α → α' → Prop} {P : β → β' → Prop}

theorem refl (p : Process σ α) : Similar Eq Eq p p := by
  induction p with
  | done a => exact .done rfl
  | read k ih => exact .read fun s t h ↦ h ▸ ih s
  | write f p ih => exact .write (fun s t h ↦ congrArg f h) ih
  | report e k ih => exact .report (.refl e) ih
  | clock k ih => exact .clock ih
  | announce n c k ih => exact .announce ih
  | call c l k ih => exact .call ih
  | await ts k ih => exact .await ih

theorem mono {Q' : α → α' → Prop} {p : Process σ α} {q : Process σ' α'} (h : Similar S Q p q)
    (hQ : ∀ a b, Q a b → Q' a b) : Similar S Q' p q := by
  induction h with
  | done hab => exact .done (hQ _ _ hab)
  | read _ ih => exact .read ih
  | write hw _ ih => exact .write hw ih
  | report he _ ih => exact .report he ih
  | clock _ ih => exact .clock ih
  | announce _ ih => exact .announce ih
  | call _ ih => exact .call ih
  | await _ ih => exact .await ih

/-! ## One after the other -/

theorem bind {p : Process σ α} {q : Process σ' α'} (h : Similar S Q p q) {f : α → Process σ β}
    {g : α' → Process σ' β'} (hfg : ∀ a b, Q a b → Similar S P (f a) (g b)) :
    Similar S P (p.bind f) (q.bind g) := by
  induction h with
  | done hab => exact hfg _ _ hab
  | read _ ih => exact .read ih
  | write hw _ ih => exact .write hw ih
  | report he _ ih => exact .report he ih
  | clock _ ih => exact .clock ih
  | announce _ ih => exact .announce ih
  | call _ ih => exact .call ih
  | await _ ih => exact .await ih

/-- Processes one after the other end with results that are related in pairs, and with the same
failure if failures are recognised in the same way. -/
theorem inOrder {ε : Type} {failure : α → Option ε} {failure' : α' → Option ε}
    (hf : ∀ a b, Q a b → failure a = failure' b) {ps : List (Process σ α)}
    {qs : List (Process σ' α')} (h : List.Forall₂ (Similar S Q) ps qs) {so : List α}
    {so' : List α'} (hso : List.Forall₂ Q so so') :
    Similar S (fun x y ↦ List.Forall₂ Q x.1 y.1 ∧ x.2 = y.2) (inOrder failure ps so)
      (inOrder failure' qs so') := by
  induction h generalizing so so' with
  | nil => exact .done ⟨hso, rfl⟩
  | cons hp _ ih =>
    refine hp.bind fun a b hab ↦ ?_
    have hmore := List.rel_append hso (.cons hab .nil)
    rw [hf a b hab]
    cases failure' b with
    | some e => exact .done ⟨hmore, rfl⟩
    | none => exact ih hmore

/-! ## States inside states -/

theorem zoom {T : τ → τ' → Prop} {view : τ → σ} {view' : τ' → σ'} {lift : (σ → σ) → τ → τ}
    {lift' : (σ' → σ') → τ' → τ'} (hview : ∀ t u, T t u → S (view t) (view' u))
    (hlift : ∀ f g, (∀ s t, S s t → S (f s) (g t)) → ∀ t u, T t u → T (lift f t) (lift' g u))
    {p : Process σ α} {q : Process σ' α'} (h : Similar S Q p q) :
    Similar T Q (p.zoom view lift) (q.zoom view' lift') := by
  induction h with
  | done hab => exact .done hab
  | read _ ih => exact .read fun t u h ↦ ih _ _ (hview t u h)
  | write hw _ ih => exact .write (hlift _ _ hw) ih
  | report he _ ih => exact .report he ih
  | clock _ ih => exact .clock ih
  | announce _ ih => exact .announce ih
  | call _ ih => exact .call ih
  | await _ ih => exact .await ih

theorem onFirst {p : Process σ α} {q : Process σ' α'} (h : Similar S Q p q) :
    Similar (Pairs S X) Q p.onFirst q.onFirst :=
  h.zoom (fun _ _ h ↦ h.1) fun _ _ hfg _ _ h ↦ ⟨hfg _ _ h.1, h.2⟩

theorem onSecond {p : Process τ α} {q : Process τ' α'} (h : Similar X Q p q) :
    Similar (Pairs S X) Q p.onSecond q.onSecond :=
  h.zoom (fun _ _ h ↦ h.2) fun _ _ hfg _ _ h ↦ ⟨h.1, hfg _ _ h.2⟩

theorem withLocal {p : Process (σ × τ) α} {q : Process (σ' × τ') α'}
    (h : Similar (Pairs S X) Q p q) {x : τ} {y : τ'} (hxy : X x y) :
    Similar S (Pairs Q X) (withLocal x p) (withLocal y q) := by
  induction h generalizing x y with
  | done hab => exact .done ⟨hab, hxy⟩
  | read _ ih => exact .read fun s t hst ↦ ih (s, x) (t, y) ⟨hst, hxy⟩ hxy
  | write hw _ ih =>
    refine .read fun s t hst ↦ .write (fun s t hst ↦ ?_) ?_
    · exact (hw (s, x) (t, y) ⟨hst, hxy⟩).1
    · exact ih (hw (s, x) (t, y) ⟨hst, hxy⟩).2
  | report he _ ih => exact .report he fun r ↦ ih r hxy
  | clock _ ih => exact .clock fun t ↦ ih t hxy
  | announce _ ih => exact .announce fun r ↦ ih r hxy
  | call _ ih => exact .call fun b ↦ ih b hxy
  | await _ ih => exact .await fun t r ↦ ih t r hxy

theorem isolated {p : Process τ α} {q : Process τ' α'} (h : Similar X Q p q) {x : τ} {y : τ'}
    (hxy : X x y) : Similar S (Pairs Q X) (isolated x p) (isolated y q) :=
  h.onSecond.withLocal hxy

/-! ## Side by side -/

theorem besides {tickets : List Ticket}
    {first : Ticket → Settlement → Process σ Unit → Process σ Unit}
    {first' : Ticket → Settlement → Process σ' Unit → Process σ' Unit}
    (hfirst : ∀ t r q q', Similar S Eq q q' → Similar S Eq (first t r q) (first' t r q'))
    {q : Process σ Unit} {q' : Process σ' Unit} (h : Similar S Eq q q') :
    Similar S Eq (besides tickets first q) (besides tickets first' q') := by
  induction h with
  | done _ => exact .await fun t r ↦ hfirst t r _ _ (.done rfl)
  | read _ ih => exact .read ih
  | write hw _ ih => exact .write hw ih
  | report he _ ih => exact .report he ih
  | clock _ ih => exact .clock ih
  | announce _ ih => exact .announce ih
  | call _ ih => exact .call ih
  | @await ts k l hkl ih =>
    refine .await fun t r ↦ ?_
    split
    · exact hfirst t r _ _ (.await hkl)
    · exact ih t r

theorem both {p q : Process σ Unit} {p' q' : Process σ' Unit} (hp : Similar S Eq p p')
    (hq : Similar S Eq q q') : Similar S Eq (both p q) (both p' q') := by
  induction hp generalizing q q' with
  | done _ => exact hq
  | read _ ih => exact .read fun s t h ↦ ih s t h hq
  | write hw _ ih => exact .write hw (ih hq)
  | report he _ ih => exact .report he fun r ↦ ih r hq
  | clock _ ih => exact .clock fun t ↦ ih t hq
  | announce _ ih => exact .announce fun r ↦ ih r hq
  | call _ ih => exact .call fun b ↦ ih b hq
  | await _ ih => exact hq.besides fun t r q q' h ↦ ih t r h

theorem all {ps : List (Process σ Unit)} {qs : List (Process σ' Unit)}
    (h : List.Forall₂ (Similar S Eq) ps qs) : Similar S Eq (all ps) (all qs) := by
  induction h with
  | nil => exact .done rfl
  | cons hp _ ih => exact hp.both ih

theorem noting {p : Process σ α} {q : Process σ' α'} (h : Similar S Q p q) :
    Similar (Pairs S (List.Forall₂ Q)) Eq (noting p) (noting q) := by
  refine h.onFirst.bind fun a b hab ↦ .write (fun s t hst ↦ ?_) (.done rfl)
  exact ⟨hst.1, List.rel_append hst.2 (.cons hab .nil)⟩

theorem arrivals {ps : List (Process σ α)} {qs : List (Process σ' α')}
    (h : List.Forall₂ (Similar S Q) ps qs) :
    Similar S (List.Forall₂ Q) (arrivals ps) (arrivals qs) := by
  have hnotings : List.Forall₂ (Similar (Pairs S (List.Forall₂ Q)) Eq) (ps.map Process.noting)
      (qs.map Process.noting) := by
    rw [List.forall₂_map_left_iff, List.forall₂_map_right_iff]
    exact h.imp fun _ _ hpq ↦ hpq.noting
  exact ((all hnotings).withLocal .nil).bind fun _ _ hr ↦ .done hr.2

end Similar

/-! ## Runs -/

/-- Two acts that are the same, but for the reason why a step is reported as skipped. -/
inductive Act.Alike : Act σ → Act σ → Prop where
  | refl (b : Act σ) : Alike b b
  | report {e e' : Audit.Event} (r : Option String) :
      e.Alike e' → Alike (.report e r) (.report e' r)

end Process

/-- The answers of a world do not depend on the reasons why steps are skipped. Its states may hold
them, so states are taken as related that differ in nothing that matters. -/
structure World.Overlooks {ω : Type} (w : World ω) (R : ω → ω → Prop) : Prop where
  report : ∀ {e e' x y}, e.Alike e' → R x y →
    (w.report e x).1 = (w.report e' y).1 ∧ R (w.report e x).2 (w.report e' y).2
  clock : ∀ {x y}, R x y → w.clock x = w.clock y
  announce : ∀ {x y} n c, R x y →
    (w.announce n c x).1 = (w.announce n c y).1 ∧ R (w.announce n c x).2 (w.announce n c y).2
  call : ∀ {x y} c l, R x y →
    (w.call c l x).1 = (w.call c l y).1 ∧ R (w.call c l x).2 (w.call c l y).2
  limit : ∀ {x y} ms, R x y → R (w.limit ms x) (w.limit ms y)
  settle : ∀ {x y} ts, R x y →
    (w.settle ts x).1 = (w.settle ts y).1 ∧ R (w.settle ts x).2 (w.settle ts y).2

namespace Process.Similar

variable {σ α ω : Type} {w : World ω} {R : ω → ω → Prop}

theorem run (hw : w.Overlooks R) {p q : Process σ α} (h : Similar Eq Eq p q) (s : σ) {x y : ω}
    (hxy : R x y) :
    (p.run w s x).1 = (q.run w s y).1 ∧ R (p.run w s x).2 (q.run w s y).2 := by
  induction h generalizing s x y with
  | done hab =>
    cases hab
    exact ⟨rfl, hxy⟩
  | read _ ih => exact ih s s rfl s hxy
  | @write f g _ _ hfg _ ih =>
    have hs : f s = g s := hfg s s rfl
    rw [Process.run, Process.run, hs]
    exact ih (g s) hxy
  | report he _ ih =>
    obtain ⟨hr, hstep⟩ := hw.report he hxy
    rw [Process.run, Process.run]
    dsimp only
    rw [hr]
    exact ih _ s hstep
  | clock _ ih =>
    rw [Process.run, Process.run, hw.clock hxy]
    exact ih _ s hxy
  | announce _ ih =>
    obtain ⟨hr, hstep⟩ := hw.announce _ _ hxy
    rw [Process.run, Process.run]
    dsimp only
    rw [hr]
    exact ih _ s hstep
  | call _ ih =>
    obtain ⟨hr, hstep⟩ := hw.call _ _ hxy
    rw [Process.run, Process.run]
    dsimp only
    rw [hr]
    exact ih _ s hstep
  | @await ts _ _ _ ih =>
    obtain ⟨hr, hstep⟩ := hw.settle ts hxy
    rw [Process.run, Process.run]
    generalize w.settle ts x = u at hr hstep ⊢
    generalize w.settle ts y = v at hr hstep ⊢
    obtain ⟨settled, x'⟩ := u
    obtain ⟨_, y'⟩ := v
    obtain rfl : settled = _ := hr
    rcases settled with _ | ⟨t, r⟩
    · exact ⟨rfl, hstep⟩
    · exact ih t r s hstep

theorem acts (hw : w.Overlooks R) {p q : Process σ α} (h : Similar Eq Eq p q) (s : σ) {x y : ω}
    (hxy : R x y) : List.Forall₂ Act.Alike (p.acts w s x) (q.acts w s y) := by
  induction h generalizing s x y with
  | done _ => exact .nil
  | read _ ih => exact .cons (.refl _) (ih s s rfl s hxy)
  | @write f g _ _ hfg _ ih =>
    obtain rfl : f = g := funext fun s ↦ hfg s s rfl
    exact .cons (.refl _) (ih (f s) hxy)
  | report he _ ih =>
    obtain ⟨hr, hstep⟩ := hw.report he hxy
    rw [Process.acts, Process.acts]
    dsimp only
    rw [hr]
    exact .cons (.report _ he) (ih _ s hstep)
  | clock _ ih =>
    rw [Process.acts, Process.acts, hw.clock hxy]
    exact .cons (.refl _) (ih _ s hxy)
  | announce _ ih =>
    obtain ⟨hr, hstep⟩ := hw.announce _ _ hxy
    rw [Process.acts, Process.acts]
    dsimp only
    rw [hr]
    exact .cons (.refl _) (ih _ s hstep)
  | call _ ih =>
    obtain ⟨hr, hstep⟩ := hw.call _ _ hxy
    rw [Process.acts, Process.acts]
    dsimp only
    rw [hr]
    exact .cons (.refl _) (ih _ s hstep)
  | @await ts _ _ _ ih =>
    obtain ⟨hr, hstep⟩ := hw.settle ts hxy
    rw [Process.acts, Process.acts]
    generalize w.settle ts x = u at hr hstep ⊢
    generalize w.settle ts y = v at hr hstep ⊢
    obtain ⟨settled, x'⟩ := u
    obtain ⟨_, y'⟩ := v
    obtain rfl : settled = _ := hr
    rcases settled with _ | ⟨t, r⟩
    · exact .nil
    · exact .cons (.refl _) (ih t r s hstep)

end Process.Similar

end Workflow
