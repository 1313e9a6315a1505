import Workflow.Proofs.Process.Leads

/-!
# Processes side by side in one state

Of several processes that run side by side each one leads somewhere between the states that all of
them together lead from and to, and while it waits the others change the state as the discipline
allows: `Leads.of_both`. The proof follows `Process.both` and `Process.besides`. A process that has
begun to wait does not see when the others change the state, so it may be taken to have waited from
any earlier state on; that is why it is enough to know of the second process that it begins later.

`Leads.of_arrivals` says what that comes to for `Process.arrivals`. The list of the results is a
state beside the outer one, and from without the acts on the two look like acts on the outer one
(`Localized`). Those that only add to the list are left out again (`Lifted`).
-/

namespace Workflow

/-- A discipline for the first part of a pair, of which the second part is free. -/
def Discipline.first {σ ε : Type} [SemilatticeSup ε] [OrderBot ε] (D : Discipline σ ε)
    (τ : Type) : Discipline (σ × τ) ε where
  Change I s t := D.Change I s.1 t.1
  refl s := D.refl s.1
  trans h h' := D.trans h h'

namespace Process

variable {σ τ α ε : Type} [SemilatticeSup ε] [OrderBot ε] {D : Discipline σ ε}
  {R : σ → σ → Prop} {s s' t t' u : σ}

/-! ## Two processes -/

/-- Among others, a process leads somewhere between two states. -/
def Leads.Between (D : Discipline σ ε) (p : Process σ α) (s : σ) (as : List (Act σ)) (a : α)
    (t : σ) : Prop :=
  ∃ s' t', D.Later s s' ∧ Leads D D.Later p s' as a t' ∧ D.Later t' t

theorem Leads.Between.mono {p : Process σ α} {as : List (Act σ)} {a : α} (hs : D.Later s s')
    (h : Between D p s' as a t') (ht : D.Later t' t) : Between D p s as a t :=
  have ⟨u, v, hu, hp, hv⟩ := h
  ⟨u, v, hs.trans hu, hp, hv.trans ht⟩

namespace Leads

/-- What the acts of two processes are, of which the first one begins first. -/
def Splits (D : Discipline σ ε) (p q : Process σ Unit) (s : σ) (cs : List (Act σ)) (t : σ) :
    Prop :=
  ∃ as bs t', Shuffle as bs cs ∧ Leads D D.Later p s as () t' ∧ D.Later t' t ∧
    Between D q s bs () t

theorem Splits.left {p p' q : Process σ Unit} {b : Act σ} {cs : List (Act σ)}
    (hp : ∀ {as t'}, Leads D D.Later p' u as () t' → Leads D D.Later p s (b :: as) () t')
    (hs : D.Later s u) (h : Splits D p' q u cs t) : Splits D p q s (b :: cs) t := by
  obtain ⟨as, bs, t', hshuffle, hlead, ht, hbetween⟩ := h
  exact ⟨b :: as, bs, t', .left b hshuffle, hp hlead, ht, hbetween.mono hs (.refl t)⟩

/-- While the first of two processes waits, the second one runs from the state that it finds. -/
theorem of_besides (hR : ∀ u v, R u v → D.Later u v) {ts : List Ticket}
    {k : Ticket → Settlement → Process σ Unit} {cs : List (Act σ)} {q : Process σ Unit}
    (hfirst : ∀ {i r q u cs}, D.Later s u → Leads D R (both (k i r) q) u cs () t →
      Splits D (k i r) q u cs t)
    (hu : D.Later s u) (h : Leads D R (besides ts (fun i r ↦ both (k i r)) q) u cs () t) :
    ∃ as bs s' t', Shuffle as bs cs ∧ Leads D D.Later (.await ts k) s as () s' ∧ D.Later s' t ∧
      Leads D D.Later q u bs () t' ∧ D.Later t' t := by
  induction q generalizing u cs with
  | done _ =>
    cases h with
    | await hu' h =>
      have hsu := hu.trans (hR _ _ hu')
      obtain ⟨as, bs, s', hshuffle, hp, hs', v, t', hv, hq, ht'⟩ := hfirst hsu h
      cases hq with
      | done _ _ =>
        exact ⟨_ :: as, [], s', u, .left _ hshuffle, .await hsu hp, hs', .done _ _,
          ((hR _ _ hu').trans hv).trans ht'⟩
  | read k' ih =>
    cases h with
    | read h =>
      obtain ⟨as, bs, s', t', hshuffle, hp, hs', hq, ht'⟩ := ih u hu h
      exact ⟨as, _ :: bs, s', t', .right _ hshuffle, hp, hs', .read hq, ht'⟩
  | write f q ih =>
    cases h with
    | write hf h =>
      obtain ⟨as, bs, s', t', hshuffle, hp, hs', hq, ht'⟩ := ih (hu.trans hf) h
      exact ⟨as, _ :: bs, s', t', .right _ hshuffle, hp, hs', .write hf hq, ht'⟩
  | report e k' ih =>
    cases h with
    | report h =>
      obtain ⟨as, bs, s', t', hshuffle, hp, hs', hq, ht'⟩ := ih _ hu h
      exact ⟨as, _ :: bs, s', t', .right _ hshuffle, hp, hs', .report hq, ht'⟩
  | clock k' ih =>
    cases h with
    | clock h =>
      obtain ⟨as, bs, s', t', hshuffle, hp, hs', hq, ht'⟩ := ih _ hu h
      exact ⟨as, _ :: bs, s', t', .right _ hshuffle, hp, hs', .clock hq, ht'⟩
  | announce n c k' ih =>
    cases h with
    | announce h =>
      obtain ⟨as, bs, s', t', hshuffle, hp, hs', hq, ht'⟩ := ih _ hu h
      exact ⟨as, _ :: bs, s', t', .right _ hshuffle, hp, hs', .announce hq, ht'⟩
  | call c l k' ih =>
    cases h with
    | call h =>
      obtain ⟨as, bs, s', t', hshuffle, hp, hs', hq, ht'⟩ := ih _ hu h
      exact ⟨as, _ :: bs, s', t', .right _ hshuffle, hp, hs', .call hq, ht'⟩
  | await more k' ih =>
    cases h with
    | @await _ _ i r _ u' _ _ _ hu' h =>
      have huu := hR _ _ hu'
      dsimp only at h
      split at h
      · -- the ticket is one of the first process, and the second one waits for as long
        obtain ⟨as, bs, s', hshuffle, hp, hs', v, t', hv, hq, ht'⟩ := hfirst (hu.trans huu) h
        exact ⟨_ :: as, bs, s', t', .left _ hshuffle, .await (hu.trans huu) hp, hs',
          of_later (huu.trans hv) hq, ht'⟩
      · obtain ⟨as, bs, s', t', hshuffle, hp, hs', hq, ht'⟩ := ih i r (hu.trans huu) h
        exact ⟨as, _ :: bs, s', t', .right _ hshuffle, hp, hs', .await huu hq, ht'⟩

/-- **Two processes side by side.** The first one begins in the state that both begin in, and the
second one in a later state. While one of them waits, the other changes the state as the discipline
allows. -/
theorem of_both (hR : ∀ u v, R u v → D.Later u v) {p q : Process σ Unit} {cs : List (Act σ)}
    (h : Leads D R (both p q) s cs () t) : Splits D p q s cs t := by
  induction p generalizing s q cs with
  | done _ =>
    have hq : Leads D R q s cs () t := h
    have hlater := hq.later hR
    exact ⟨[], cs, s, .append [] cs, .done _ _, hlater, s, t, .refl s, hq.mono hR, .refl t⟩
  | read k ih =>
    cases h with
    | read h => exact .left .read (.refl s) (ih s h)
  | write f p ih =>
    cases h with
    | write hf h => exact .left (.write hf) hf (ih h)
  | report e k ih =>
    cases h with
    | report h => exact .left .report (.refl s) (ih _ h)
  | clock k ih =>
    cases h with
    | clock h => exact .left .clock (.refl s) (ih _ h)
  | announce n c k ih =>
    cases h with
    | announce h => exact .left .announce (.refl s) (ih _ h)
  | call c l k ih =>
    cases h with
    | call h => exact .left .call (.refl s) (ih _ h)
  | await ts k ih =>
    obtain ⟨as, bs, s', t', hshuffle, hp, hs', hq, ht'⟩ :=
      of_besides hR (fun _ h ↦ ih _ _ h) (.refl s) h
    exact ⟨as, bs, s', hshuffle, hp, hs', s, t', .refl s, hq, ht'⟩

/-! ## Any number of processes -/

theorem of_all (hR : ∀ u v, R u v → D.Later u v) {ps : List (Process σ Unit)}
    {cs : List (Act σ)} (h : Leads D R (all ps) s cs () t) :
    ∃ bss, List.Forall₂ (fun p bs ↦ Between D p s bs () t) ps bss ∧ Interleaved bss cs := by
  induction ps generalizing R s cs t with
  | nil =>
    cases h with
    | done _ _ => exact ⟨[], .nil, .nil⟩
  | cons p ps ih =>
    obtain ⟨as, bs, t', hshuffle, hp, ht', u, v, hu, hps, hv⟩ := of_both hR h
    obtain ⟨bss, hbss, hi⟩ := ih (fun _ _ h ↦ h) hps
    refine ⟨as :: bss, .cons ⟨s, t', .refl s, hp, ht'⟩ ?_, .cons hi hshuffle⟩
    exact hbss.imp fun p bs hbetween ↦ hbetween.mono hu hv

end Leads

/-! ## A list beside the state -/

/-- Some acts on a pair, seen from outside, where the second part is a state of one's own. -/
inductive Localized : List (Act (σ × τ)) → List (Act σ) → Prop where
  | nil : Localized [] []
  | read (s : σ) (x : τ) {bs : List (Act (σ × τ))} {as : List (Act σ)} :
      Localized bs as → Localized (.read (s, x) :: bs) (.read s :: as)
  | write (f : σ × τ → σ × τ) (s : σ) (x : τ) {bs : List (Act (σ × τ))} {as : List (Act σ)} :
      Localized bs as →
        Localized (.write f :: bs) (.read s :: .write (fun s ↦ (f (s, x)).1) :: as)
  | report (e : Audit.Event) (r : Option String) {bs : List (Act (σ × τ))} {as : List (Act σ)} :
      Localized bs as → Localized (.report e r :: bs) (.report e r :: as)
  | clock (n : Nat) {bs : List (Act (σ × τ))} {as : List (Act σ)} :
      Localized bs as → Localized (.clock n :: bs) (.clock n :: as)
  | announce (n : String) (c : Context) (r : Option String) {bs : List (Act (σ × τ))}
      {as : List (Act σ)} :
      Localized bs as → Localized (.announce n c r :: bs) (.announce n c r :: as)
  | call (c : Call) (l : Option Nat) (b : Beginning) {bs : List (Act (σ × τ))}
      {as : List (Act σ)} : Localized bs as → Localized (.call c l b :: bs) (.call c l b :: as)
  | settle (i : Ticket) (r : Settlement) {bs : List (Act (σ × τ))} {as : List (Act σ)} :
      Localized bs as → Localized (.settle i r :: bs) (.settle i r :: as)

/-- Nobody else changes a state of one's own. -/
theorem Leads.of_withLocal {p : Process (σ × τ) α} {x y : τ} {as : List (Act σ)} {a : α}
    (h : Leads D R (withLocal x p) s as (a, y) t) :
    ∃ bs, Leads (D.first τ) (fun u v ↦ R u.1 v.1 ∧ u.2 = v.2) p (s, x) bs a (t, y) ∧
      Local x bs y ∧ Localized bs as := by
  induction p generalizing x s as with
  | done b =>
    cases h with
    | done _ _ => exact ⟨[], .done _ _, .nil _, .nil⟩
  | read k ih =>
    cases h with
    | read h =>
      obtain ⟨bs, hbs, hx, hl⟩ := ih _ h
      exact ⟨_ :: bs, .read hbs, .other (by simp) hx, .read s x hl⟩
  | write f p ih =>
    cases h with
    | read h =>
      cases h with
      | write hf h =>
        obtain ⟨bs, hbs, hx, hl⟩ := ih h
        exact ⟨_ :: bs, .write hf hbs, .write s f hx, .write f s x hl⟩
  | report e k ih =>
    cases h with
    | report h =>
      obtain ⟨bs, hbs, hx, hl⟩ := ih _ h
      exact ⟨_ :: bs, .report hbs, .other (by simp) hx, .report _ _ hl⟩
  | clock k ih =>
    cases h with
    | clock h =>
      obtain ⟨bs, hbs, hx, hl⟩ := ih _ h
      exact ⟨_ :: bs, .clock hbs, .other (by simp) hx, .clock _ hl⟩
  | announce n c k ih =>
    cases h with
    | announce h =>
      obtain ⟨bs, hbs, hx, hl⟩ := ih _ h
      exact ⟨_ :: bs, .announce hbs, .other (by simp) hx, .announce _ _ _ hl⟩
  | call c l k ih =>
    cases h with
    | call h =>
      obtain ⟨bs, hbs, hx, hl⟩ := ih _ h
      exact ⟨_ :: bs, .call hbs, .other (by simp) hx, .call _ _ _ hl⟩
  | await ts k ih =>
    cases h with
    | await hs h =>
      obtain ⟨bs, hbs, hx, hl⟩ := ih _ _ h
      refine ⟨_ :: bs, .await ?_ hbs, .other (by simp) hx, .settle _ _ hl⟩
      exact ⟨hs, rfl⟩

/-- Some acts on the first part of a pair, among writes that leave that part alone. -/
inductive Lifted : List (Act σ) → List (Act (σ × τ)) → Prop where
  | nil : Lifted [] []
  | act {b : Act σ} {d : Act (σ × τ)} {bs : List (Act σ)} {ds : List (Act (σ × τ))} :
      Act.Zoomed (·.1) (fun f s ↦ (f s.1, s.2)) b d → Lifted bs ds → Lifted (b :: bs) (d :: ds)
  | idle {f : σ × τ → σ × τ} {bs : List (Act σ)} {ds : List (Act (σ × τ))} :
      (∀ s, (f s).1 = s.1) → Lifted bs ds → Lifted bs (.write f :: ds)

namespace Lifted

variable {as bs : List (Act σ)} {cs ds es : List (Act (σ × τ))}

theorem append (hb : Lifted as cs) (hd : Lifted bs ds) : Lifted (as ++ bs) (cs ++ ds) := by
  induction hb with
  | nil => exact hd
  | act hz _ ih => exact .act hz ih
  | idle hf _ ih => exact .idle hf ih

theorem shuffle (hs : Shuffle cs ds es) : ∀ {as bs : List (Act σ)}, Lifted as cs →
    Lifted bs ds → ∃ ns, Shuffle as bs ns ∧ Lifted ns es := by
  induction hs with
  | nil =>
    intro as bs ha hb
    cases ha
    cases hb
    exact ⟨[], .nil, .nil⟩
  | left d _ ih =>
    intro as bs ha hb
    cases ha with
    | act hz ha =>
      obtain ⟨ns, hns, hl⟩ := ih ha hb
      exact ⟨_ :: ns, .left _ hns, .act hz hl⟩
    | idle hf ha =>
      obtain ⟨ns, hns, hl⟩ := ih ha hb
      exact ⟨ns, hns, .idle hf hl⟩
  | right d _ ih =>
    intro as bs ha hb
    cases hb with
    | act hz hb =>
      obtain ⟨ns, hns, hl⟩ := ih ha hb
      exact ⟨_ :: ns, .right _ hns, .act hz hl⟩
    | idle hf hb =>
      obtain ⟨ns, hns, hl⟩ := ih ha hb
      exact ⟨ns, hns, .idle hf hl⟩

theorem interleaved {dss : List (List (Act (σ × τ)))} (hi : Interleaved dss es) :
    ∀ {bss : List (List (Act σ))}, List.Forall₂ Lifted bss dss →
      ∃ ns, Interleaved bss ns ∧ Lifted ns es := by
  induction hi with
  | nil =>
    intro bss h
    cases h
    exact ⟨[], .nil, .nil⟩
  | cons _ hs ih =>
    intro bss h
    cases h with
    | cons hb hbs =>
      obtain ⟨ms, hms, hl⟩ := ih hbs
      obtain ⟨ns, hns, hl⟩ := shuffle hs hb hl
      exact ⟨ns, .cons hms hns, hl⟩

/-- From outside, the acts on the first part are all that there are but some looks at the state and
some writes that change nothing. -/
theorem localized (h : Lifted as ds) : ∀ {bs : List (Act σ)}, Localized ds bs →
    as.Sublist bs ∧ deeds as = deeds bs := by
  induction h with
  | nil =>
    intro bs hl
    cases hl
    exact ⟨.slnil, rfl⟩
  | act hz _ ih =>
    intro bs hl
    cases hz with
    | read t =>
      cases hl with
      | read s x hl => exact ⟨(ih hl).1.cons_cons _, (ih hl).2⟩
    | write f =>
      cases hl with
      | write _ s x hl => exact ⟨((ih hl).1.cons_cons _).cons _, (ih hl).2⟩
    | report e r =>
      cases hl with
      | report _ _ hl =>
        exact ⟨(ih hl).1.cons_cons _, by rw [deeds_report, deeds_report, (ih hl).2]⟩
    | clock n =>
      cases hl with
      | clock _ hl => exact ⟨(ih hl).1.cons_cons _, (ih hl).2⟩
    | announce n c r =>
      cases hl with
      | announce _ _ _ hl => exact ⟨(ih hl).1.cons_cons _, (ih hl).2⟩
    | call c l b =>
      cases hl with
      | call _ _ _ hl =>
        exact ⟨(ih hl).1.cons_cons _, by rw [deeds_call, deeds_call, (ih hl).2]⟩
    | settle i r =>
      cases hl with
      | settle _ _ hl =>
        exact ⟨(ih hl).1.cons_cons _, by rw [deeds_settle, deeds_settle, (ih hl).2]⟩
  | idle hf _ ih =>
    intro bs hl
    cases hl with
    | write _ s x hl => exact ⟨((ih hl).1.cons _).cons _, (ih hl).2⟩

theorem foldl_writes (h : Lifted as ds) (s : σ × τ) :
    ((writes ds).foldl (fun s f ↦ f s) s).1 = (writes as).foldl (fun s f ↦ f s) s.1 := by
  induction h generalizing s with
  | nil => rfl
  | act hz _ ih =>
    cases hz with
    | write f => exact ih _
    | read _ | report _ _ | clock _ | announce _ _ _ | call _ _ _ | settle _ _ => exact ih s
  | idle hf _ ih => exact (ih _).trans (by rw [hf])

end Lifted

namespace Leads

theorem of_onFirst {p : Process σ α} {u v : σ × τ} {ds : List (Act (σ × τ))} {a : α}
    (h : Leads (D.first τ) (D.first τ).Later p.onFirst u ds a v) :
    ∃ bs, Leads D D.Later p u.1 bs a v.1 ∧ Lifted bs ds ∧
      List.Forall₂ (Act.Zoomed (·.1) fun f s ↦ (f s.1, s.2)) bs ds := by
  unfold onFirst at h
  induction p generalizing u ds with
  | done b =>
    cases h with
    | done _ _ => exact ⟨[], .done _ _, .nil, .nil⟩
  | read k ih =>
    cases h with
    | read h =>
      obtain ⟨bs, hbs, hl, hz⟩ := ih _ h
      exact ⟨_ :: bs, .read hbs, .act (.read _) hl, .cons (.read _) hz⟩
  | write f p ih =>
    cases h with
    | write hf h =>
      obtain ⟨bs, hbs, hl, hz⟩ := ih h
      exact ⟨_ :: bs, .write hf hbs, .act (.write f) hl, .cons (.write f) hz⟩
  | report e k ih =>
    cases h with
    | report h =>
      obtain ⟨bs, hbs, hl, hz⟩ := ih _ h
      exact ⟨_ :: bs, .report hbs, .act (.report _ _) hl, .cons (.report _ _) hz⟩
  | clock k ih =>
    cases h with
    | clock h =>
      obtain ⟨bs, hbs, hl, hz⟩ := ih _ h
      exact ⟨_ :: bs, .clock hbs, .act (.clock _) hl, .cons (.clock _) hz⟩
  | announce n c k ih =>
    cases h with
    | announce h =>
      obtain ⟨bs, hbs, hl, hz⟩ := ih _ h
      exact ⟨_ :: bs, .announce hbs, .act (.announce _ _ _) hl, .cons (.announce _ _ _) hz⟩
  | call c l k ih =>
    cases h with
    | call h =>
      obtain ⟨bs, hbs, hl, hz⟩ := ih _ h
      exact ⟨_ :: bs, .call hbs, .act (.call _ _ _) hl, .cons (.call _ _ _) hz⟩
  | await ts k ih =>
    cases h with
    | await hs h =>
      obtain ⟨bs, hbs, hl, hz⟩ := ih _ _ h
      exact ⟨_ :: bs, .await hs hbs, .act (.settle _ _) hl, .cons (.settle _ _) hz⟩

theorem of_noting {p : Process σ α} {u v : σ × List α} {ds : List (Act (σ × List α))}
    (h : Between (D.first _) (noting p) u ds () v) :
    ∃ bs a, Between D p u.1 bs a v.1 ∧ Lifted bs ds ∧ Noted ds [a] := by
  obtain ⟨u', v', hu, h, hv⟩ := h
  obtain ⟨cs, a, m, es, rfl, hcs, hes⟩ := of_bind h
  obtain ⟨bs, hbs, hl, hz⟩ := of_onFirst hcs
  cases hes with
  | write _ hes =>
    cases hes with
    | done _ _ =>
      refine ⟨bs, a, ⟨u'.1, m.1, hu, hbs, hv⟩, ?_, ?_⟩
      · have hidle : Lifted ([] : List (Act σ)) [.write fun s : σ × List α ↦ (s.1, s.2 ++ [a])] :=
          .idle (fun _ ↦ rfl) .nil
        rw [← List.append_nil bs]
        exact hl.append hidle
      · have hf : ∀ s : σ × List α, ((s.1, s.2 ++ [a]) : σ × List α).2 = s.2 ++ [a] := fun _ ↦ rfl
        exact (noted_nil_of_zoomed hz).append (.write hf .nil)

theorem of_notings {ps : List (Process σ α)} {u v : σ × List α}
    {dss : List (List (Act (σ × List α)))}
    (h : List.Forall₂ (fun p ds ↦ Between (D.first _) p u ds () v) (ps.map noting) dss) :
    ∃ ls : List (List (Act σ) × α),
      List.Forall₂ (fun p l ↦ Between D p u.1 l.1 l.2 v.1) ps ls ∧
      List.Forall₂ Lifted (ls.map (·.1)) dss ∧
      List.Forall₂ (fun ds r ↦ Noted ds [r]) dss (ls.map (·.2)) := by
  induction ps generalizing dss with
  | nil =>
    cases h
    exact ⟨[], .nil, .nil, .nil⟩
  | cons p ps ih =>
    cases h with
    | cons hp hps =>
      obtain ⟨bs, a, hbs, hl, hn⟩ := of_noting hp
      obtain ⟨ls, hls, hls', hns⟩ := ih hps
      exact ⟨(bs, a) :: ls, .cons hbs hls, .cons hl hls', .cons hn hns⟩

/-- **Side by side in one state.** Each of several processes that run side by side leads somewhere
between the states in which all of them begin and have ended. In the order in which they ended they
have the results that are listed; and their acts, interleaved, are all that there is but looks at
the state and writes that change nothing. So by themselves they make the state by their writes. -/
theorem of_arrivals (hR : ∀ u v, R u v → D.Later u v) {ps : List (Process σ α)}
    {as : List (Act σ)} {rs : List α} (h : Leads D R (arrivals ps) s as rs t) :
    ∃ (ls ks : List (List (Act σ) × α)) (ns : List (Act σ)),
      List.Forall₂ (fun p l ↦ Between D p s l.1 l.2 t) ps ls ∧ ks.Perm ls ∧ ks.map (·.2) = rs ∧
      Interleaved (ks.map (·.1)) ns ∧ ns.Sublist as ∧ deeds ns = deeds as ∧
      ((∀ u v, R u v → u = v) → t = (writes ns).foldl (fun s f ↦ f s) s) := by
  obtain ⟨bs, ⟨⟨⟩, _⟩, m, cs, rfl, hb, hc⟩ := of_bind h
  cases hc with
  | done _ _ =>
    obtain ⟨es, hes, hx, hl⟩ := of_withLocal hb
    obtain ⟨dss, hdss, hi⟩ := of_all (fun u v h ↦ hR u.1 v.1 h.1) hes
    obtain ⟨ls, hls, hlifted, hnoted⟩ := of_notings hdss
    obtain ⟨ts, hts, hperm⟩ := Noted.interleaved hi hnoted
    -- the list was empty in the beginning, so in the end it is what was noted
    obtain rfl : _ = ts := hts.eq_append hx
    obtain ⟨ks, hks, hkr⟩ := exists_perm_map_eq hperm
    obtain ⟨ns, hns, hlns⟩ := Lifted.interleaved hi hlifted
    obtain ⟨hsub, hdeeds⟩ := hlns.localized hl
    rw [List.append_nil]
    refine ⟨ls, ks, ns, hls, hks, hkr, hns.perm (hks.symm.map _), hsub, hdeeds, fun heq ↦ ?_⟩
    have hstate := hes.state_eq fun u v h ↦ Prod.ext (heq _ _ h.1) h.2
    exact (congrArg Prod.fst hstate).trans (hlns.foldl_writes _)

end Leads

end Process

end Workflow
