import Mathlib.Data.List.Perm.Basic
import Workflow.Proofs.Process.Path

/-!
# Paths side by side

The path of several processes side by side is an interleaving of paths of each, because each act of
two of them is an act of one (`Next.of_both`). `Path.of_arrivals` adds what `Process.arrivals` lists
in the end: the results of all of them, each once, in some order.

The list of the results is a state of its own beside the outer one. A process that notes its result
changes it only by adding to it, whatever it holds, so what is noted can be read off the acts alone
(`Noted`), before anything is known about the order of the others.
-/

namespace Workflow.Process

variable {σ τ α β : Type}

/-! ## States of their own -/

/-- An act on a part of a state, seen as an act on the whole. -/
inductive Act.Zoomed (view : τ → σ) (lift : (σ → σ) → τ → τ) : Act σ → Act τ → Prop where
  | read (t : τ) : Zoomed view lift (.read (view t)) (.read t)
  | write (f : σ → σ) : Zoomed view lift (.write f) (.write (lift f))
  | report (e : Audit.Event) (r : Option String) : Zoomed view lift (.report e r) (.report e r)
  | clock (t : Nat) : Zoomed view lift (.clock t) (.clock t)
  | announce (n : String) (c : Context) (r : Option String) :
      Zoomed view lift (.announce n c r) (.announce n c r)
  | call (c : Call) (l : Option Nat) (b : Beginning) : Zoomed view lift (.call c l b) (.call c l b)
  | settle (t : Ticket) (r : Settlement) : Zoomed view lift (.settle t r) (.settle t r)

theorem Next.of_zoom {view : τ → σ} {lift : (σ → σ) → τ → τ} {p : Process σ α} {b : Act τ}
    {q : Process τ α} (h : Next (p.zoom view lift) b q) :
    ∃ c p', Next p c p' ∧ q = p'.zoom view lift ∧ Act.Zoomed view lift c b := by
  cases p with
  | done a => cases h
  | read k =>
    cases h with
    | read _ t => exact ⟨_, _, .read k _, rfl, .read t⟩
  | write f p =>
    cases h
    exact ⟨_, _, .write f p, rfl, .write f⟩
  | report e k =>
    cases h with
    | report _ _ r => exact ⟨_, _, .report e k r, rfl, .report e r⟩
  | clock k =>
    cases h with
    | clock _ t => exact ⟨_, _, .clock k t, rfl, .clock t⟩
  | announce n c k =>
    cases h with
    | announce _ _ _ r => exact ⟨_, _, .announce n c k r, rfl, .announce n c r⟩
  | call c l k =>
    cases h with
    | call _ _ _ b => exact ⟨_, _, .call c l k b, rfl, .call c l b⟩
  | await ts k =>
    cases h with
    | await _ _ t r => exact ⟨_, _, .await ts k t r, rfl, .settle t r⟩

theorem Path.of_zoom {view : τ → σ} {lift : (σ → σ) → τ → τ} {p : Process σ α}
    {as : List (Act τ)} {a : α} (h : Path (p.zoom view lift) as a) :
    ∃ bs, Path p bs a ∧ List.Forall₂ (Act.Zoomed view lift) bs as := by
  induction as generalizing p with
  | nil =>
    have hdone := h.eq_done
    cases p with
    | done b =>
      cases hdone
      exact ⟨[], .done a, .nil⟩
    | _ => cases hdone
  | cons b as ih =>
    obtain ⟨q, hq, hrest⟩ := h.of_cons
    obtain ⟨c, p', hp, rfl, hz⟩ := hq.of_zoom
    obtain ⟨bs, hp', hzs⟩ := ih hrest
    exact ⟨c :: bs, .next hp hp', .cons hz hzs⟩

theorem reports_eq_of_zoomed {view : τ → σ} {lift : (σ → σ) → τ → τ} {bs : List (Act σ)}
    {as : List (Act τ)} (h : List.Forall₂ (Act.Zoomed view lift) bs as) :
    reports bs = reports as := by
  induction h with
  | nil => rfl
  | cons hz _ ih => cases hz <;> simp [ih]

/-- What becomes of the second part of a state by some acts, whatever the first part is. -/
inductive Local : τ → List (Act (σ × τ)) → τ → Prop where
  | nil (x : τ) : Local x [] x
  | write (s : σ) (f : σ × τ → σ × τ) {x y : τ} {as : List (Act (σ × τ))} :
      Local (f (s, x)).2 as y → Local x (.write f :: as) y
  | other {b : Act (σ × τ)} {x y : τ} {as : List (Act (σ × τ))} :
      (∀ f, b ≠ .write f) → Local x as y → Local x (b :: as) y

theorem Path.of_withLocal {p : Process (σ × τ) α} {x y : τ} {as : List (Act σ)} {a : α}
    (h : Path (withLocal x p) as (a, y)) :
    ∃ bs, Path p bs a ∧ Local x bs y ∧ reports bs = reports as := by
  induction p generalizing x as with
  | done b =>
    obtain ⟨rfl, hb⟩ := h.of_done
    cases hb
    exact ⟨[], .done _, .nil _, rfl⟩
  | write g p ih =>
    -- the state of its own is not written, so the outer one is read to know what it becomes
    obtain ⟨s, cs, rfl, hk⟩ := h.of_read
    obtain ⟨ds, rfl, hp⟩ := hk.of_write
    obtain ⟨bs, hp, hl, hr⟩ := ih hp
    exact ⟨_, .next (.write g p) hp, .write s g hl, hr⟩
  | read k ih =>
    obtain ⟨s, cs, rfl, hk⟩ := h.of_read
    obtain ⟨bs, hp, hl, hr⟩ := ih _ hk
    exact ⟨_, .next (.read k _) hp, .other (by simp) hl, hr⟩
  | report e k ih =>
    obtain ⟨r, cs, rfl, hk⟩ := h.of_report
    obtain ⟨bs, hp, hl, hr⟩ := ih r hk
    exact ⟨_, .next (.report e k r) hp, .other (by simp) hl, by simp [hr]⟩
  | clock k ih =>
    obtain ⟨t, cs, rfl, hk⟩ := h.of_clock
    obtain ⟨bs, hp, hl, hr⟩ := ih t hk
    exact ⟨_, .next (.clock k t) hp, .other (by simp) hl, hr⟩
  | announce n c k ih =>
    obtain ⟨r, cs, rfl, hk⟩ := h.of_announce
    obtain ⟨bs, hp, hl, hr⟩ := ih r hk
    exact ⟨_, .next (.announce n c k r) hp, .other (by simp) hl, hr⟩
  | call c l k ih =>
    obtain ⟨b, cs, rfl, hk⟩ := h.of_call
    obtain ⟨bs, hp, hl, hr⟩ := ih b hk
    exact ⟨_, .next (.call c l k b) hp, .other (by simp) hl, hr⟩
  | await ts k ih =>
    obtain ⟨t, r, cs, rfl, hk⟩ := h.of_await
    obtain ⟨bs, hp, hl, hr⟩ := ih t r hk
    exact ⟨_, .next (.await ts k t r) hp, .other (by simp) hl, hr⟩

theorem Path.of_isolated {p : Process τ α} {x y : τ} {as : List (Act σ)} {a : α}
    (h : Path (isolated x p) as (a, y)) : ∃ bs, Path p bs a ∧ reports bs = reports as := by
  obtain ⟨cs, hc, -, hr⟩ := Path.of_withLocal h
  obtain ⟨bs, hb, hz⟩ := Path.of_zoom hc
  exact ⟨bs, hb, (reports_eq_of_zoomed hz).trans hr⟩

/-! ## Side by side -/

/-- While the first of two processes waits, an act of both is the end of the wait or an act of the
second one. -/
theorem Next.of_both_await {ts : List Ticket} {k : Ticket → Settlement → Process σ Unit}
    {q r : Process σ Unit} {b : Act σ} (h : Next (both (.await ts k) q) b r) :
    (∃ p', Next (.await ts k) b p' ∧ r = both p' q) ∨
      ∃ q', Next q b q' ∧ r = both (.await ts k) q' := by
  cases q with
  | done _ =>
    cases h with
    | await _ _ t r => exact .inl ⟨_, .await ts k t r, rfl⟩
  | read k' =>
    cases h with
    | read _ s => exact .inr ⟨_, .read k' s, rfl⟩
  | write f q =>
    cases h
    exact .inr ⟨_, .write f q, rfl⟩
  | report e k' =>
    cases h with
    | report _ _ r => exact .inr ⟨_, .report e k' r, rfl⟩
  | clock k' =>
    cases h with
    | clock _ t => exact .inr ⟨_, .clock k' t, rfl⟩
  | announce n c k' =>
    cases h with
    | announce _ _ _ r => exact .inr ⟨_, .announce n c k' r, rfl⟩
  | call c l k' =>
    cases h with
    | call _ _ _ b => exact .inr ⟨_, .call c l k' b, rfl⟩
  | await more k' =>
    cases h with
    | await _ _ t r =>
      -- a ticket of the first process lets it go on, any other one the second
      by_cases ht : t ∈ ts
      · exact .inl ⟨_, .await ts k t r, if_pos ht⟩
      · exact .inr ⟨_, .await more k' t r, if_neg ht⟩

theorem Next.of_both {p q r : Process σ Unit} {b : Act σ} (h : Next (both p q) b r) :
    (∃ p', Next p b p' ∧ r = both p' q) ∨ ∃ q', Next q b q' ∧ r = both p q' := by
  cases p with
  | done _ => exact .inr ⟨r, h, rfl⟩
  | read k =>
    cases h with
    | read _ s => exact .inl ⟨_, .read k s, rfl⟩
  | write f p =>
    cases h
    exact .inl ⟨_, .write f p, rfl⟩
  | report e k =>
    cases h with
    | report _ _ r => exact .inl ⟨_, .report e k r, rfl⟩
  | clock k =>
    cases h with
    | clock _ t => exact .inl ⟨_, .clock k t, rfl⟩
  | announce n c k =>
    cases h with
    | announce _ _ _ r => exact .inl ⟨_, .announce n c k r, rfl⟩
  | call c l k =>
    cases h with
    | call _ _ _ b => exact .inl ⟨_, .call c l k b, rfl⟩
  | await ts k => exact Next.of_both_await h

theorem eq_done_of_both {p q : Process σ Unit} (h : both p q = .done ()) :
    p = .done () ∧ q = .done () := by
  cases p with
  | done _ => exact ⟨rfl, h⟩
  | await ts k => cases q <;> cases h
  | _ => cases h

theorem Path.of_both {p q : Process σ Unit} {as : List (Act σ)} (h : Path (both p q) as ()) :
    ∃ bs cs, Path p bs () ∧ Path q cs () ∧ Shuffle bs cs as := by
  induction as generalizing p q with
  | nil =>
    obtain ⟨rfl, rfl⟩ := eq_done_of_both h.eq_done
    exact ⟨[], [], .done (), .done (), .nil⟩
  | cons b as ih =>
    obtain ⟨r, hr, hrest⟩ := h.of_cons
    rcases hr.of_both with ⟨p', hp, rfl⟩ | ⟨q', hq, rfl⟩
    · obtain ⟨bs, cs, hp', hq, hs⟩ := ih hrest
      exact ⟨b :: bs, cs, .next hp hp', hq, .left b hs⟩
    · obtain ⟨bs, cs, hp, hq', hs⟩ := ih hrest
      exact ⟨bs, b :: cs, hp, .next hq hq', .right b hs⟩

theorem Path.of_all {ps : List (Process σ Unit)} {as : List (Act σ)} (h : Path (all ps) as ()) :
    ∃ bss, List.Forall₂ (fun p bs ↦ Path p bs ()) ps bss ∧ Interleaved bss as := by
  induction ps generalizing as with
  | nil =>
    obtain ⟨rfl, -⟩ := h.of_done
    exact ⟨[], .nil, .nil⟩
  | cons p ps ih =>
    obtain ⟨bs, cs, hp, hps, hs⟩ := Path.of_both h
    obtain ⟨bss, hbss, hi⟩ := ih hps
    exact ⟨bs :: bss, .cons hp hbss, .cons hi hs⟩

/-! ## What is noted -/

/-- Some acts do nothing to a list beside the state but add certain items to it. -/
inductive Noted : List (Act (σ × List α)) → List α → Prop where
  | nil : Noted [] []
  | write {f : σ × List α → σ × List α} {as : List (Act (σ × List α))} {is rs : List α} :
      (∀ s, (f s).2 = s.2 ++ is) → Noted as rs → Noted (.write f :: as) (is ++ rs)
  | other {b : Act (σ × List α)} {as : List (Act (σ × List α))} {rs : List α} :
      (∀ f, b ≠ .write f) → Noted as rs → Noted (b :: as) rs

theorem Noted.append {as bs : List (Act (σ × List α))} {rs ss : List α} (ha : Noted as rs)
    (hb : Noted bs ss) : Noted (as ++ bs) (rs ++ ss) := by
  induction ha with
  | nil => exact hb
  | write hf _ ih =>
    rw [List.append_assoc]
    exact .write hf ih
  | other hn _ ih => exact .other hn ih

/-- What is noted ends up in the list, after what was there. -/
theorem Noted.eq_append {as : List (Act (σ × List α))} {rs x y : List α} (h : Noted as rs)
    (hl : Local x as y) : y = x ++ rs := by
  induction h generalizing x with
  | nil =>
    cases hl
    exact (List.append_nil _).symm
  | write hf _ ih =>
    cases hl with
    | write s _ hl => rw [ih hl, hf, List.append_assoc]
    | other hn _ => exact absurd rfl (hn _)
  | other hn _ ih =>
    cases hl with
    | write s f _ => exact absurd rfl (hn f)
    | other _ hl => exact ih hl

theorem Noted.shuffle {as bs cs : List (Act (σ × List α))} (hs : Shuffle as bs cs) :
    ∀ {rs ss : List α}, Noted as rs → Noted bs ss → ∃ ts, Noted cs ts ∧ ts.Perm (rs ++ ss) := by
  induction hs with
  | nil =>
    intro rs ss hr hs
    cases hr
    cases hs
    exact ⟨[], .nil, .refl _⟩
  | left a _ ih =>
    intro rs ss hr hs
    cases hr with
    | write hf hr =>
      obtain ⟨ts, ht, hp⟩ := ih hr hs
      refine ⟨_, .write hf ht, ?_⟩
      rw [List.append_assoc]
      exact hp.append_left _
    | other hn hr =>
      obtain ⟨ts, ht, hp⟩ := ih hr hs
      exact ⟨ts, .other hn ht, hp⟩
  | right a _ ih =>
    intro rs ss hr hs
    cases hs with
    | @write _ _ is _ hf hs =>
      -- what the second one notes first comes before all that the first one notes later
      obtain ⟨ts, ht, hp⟩ := ih hr hs
      refine ⟨_, .write hf ht, (hp.append_left is).trans ?_⟩
      rw [← List.append_assoc, ← List.append_assoc]
      exact List.perm_append_comm.append_right _
    | other hn hs =>
      obtain ⟨ts, ht, hp⟩ := ih hr hs
      exact ⟨ts, .other hn ht, hp⟩

theorem Noted.interleaved {ass : List (List (Act (σ × List α)))} {as : List (Act (σ × List α))}
    (hi : Interleaved ass as) :
    ∀ {rs : List α}, List.Forall₂ (fun as r ↦ Noted as [r]) ass rs →
      ∃ ts, Noted as ts ∧ ts.Perm rs := by
  induction hi with
  | nil =>
    intro rs hn
    cases hn
    exact ⟨[], .nil, .refl _⟩
  | cons _ hs ih =>
    intro rs hn
    cases hn with
    | cons hr hrs =>
      obtain ⟨ts, ht, hp⟩ := ih hrs
      obtain ⟨us, hu, hq⟩ := Noted.shuffle hs hr ht
      exact ⟨us, hu, hq.trans (hp.cons _)⟩

theorem noted_nil_of_zoomed {bs : List (Act σ)} {as : List (Act (σ × List α))}
    (h : List.Forall₂ (Act.Zoomed (·.1) fun f s ↦ (f s.1, s.2)) bs as) : Noted as [] := by
  induction h with
  | nil => exact .nil
  | cons hz _ ih =>
    cases hz with
    | write f =>
      have hf : ∀ s : σ × List α, ((f s.1, s.2) : σ × List α).2 = s.2 ++ [] := fun s ↦
        (List.append_nil s.2).symm
      exact .write hf ih
    | read _ | report _ _ | clock _ | announce _ _ _ | call _ _ _ | settle _ _ =>
      exact .other (by simp) ih

theorem Path.of_noting {p : Process σ α} {as : List (Act (σ × List α))}
    (h : Path (noting p) as ()) :
    ∃ bs a, Path p bs a ∧ reports bs = reports as ∧ Noted as [a] := by
  obtain ⟨cs, a, ds, rfl, hc, hd⟩ := Path.of_bind h
  obtain ⟨bs, hb, hz⟩ := Path.of_zoom hc
  obtain ⟨es, rfl, he⟩ := hd.of_write
  obtain ⟨rfl, -⟩ := he.of_done
  refine ⟨bs, a, hb, ?_, ?_⟩
  · rw [reports_append, reports_eq_of_zoomed hz]
    simp
  · have hf : ∀ s : σ × List α, ((s.1, s.2 ++ [a]) : σ × List α).2 = s.2 ++ [a] := fun _ ↦ rfl
    exact (noted_nil_of_zoomed hz).append (.write hf .nil)

/-- Paths of processes that note their results are paths of the processes, and each of them notes
one result. -/
theorem Path.of_notings {ps : List (Process σ α)} {dss : List (List (Act (σ × List α)))}
    (h : List.Forall₂ (fun p ds ↦ Path p ds ()) (ps.map noting) dss) :
    ∃ ls : List (List (Act σ) × α), List.Forall₂ (fun p l ↦ Path p l.1 l.2) ps ls ∧
      List.Forall₂ (fun ds r ↦ Noted ds [r]) dss (ls.map (·.2)) ∧
      dss.map reports = ls.map fun l ↦ reports l.1 := by
  induction ps generalizing dss with
  | nil =>
    cases h
    exact ⟨[], .nil, .nil, rfl⟩
  | cons p ps ih =>
    cases h with
    | cons hp hps =>
      obtain ⟨es, a, he, hre, hn⟩ := Path.of_noting hp
      obtain ⟨ls, hls, hns, hrs⟩ := ih hps
      refine ⟨(es, a) :: ls, .cons he hls, .cons hn hns, ?_⟩
      rw [List.map_cons, List.map_cons, hrs, hre]

theorem exists_perm_map_eq {ι : Type} {rs : List α} {ls : List (ι × α)}
    (h : rs.Perm (ls.map (·.2))) : ∃ ks : List (ι × α), ks.Perm ls ∧ ks.map (·.2) = rs := by
  have hls : List.Forall₂ (fun r (l : ι × α) ↦ l.2 = r) (ls.map (·.2)) ls :=
    List.forall₂_map_left_iff.2 (List.forall₂_same.2 fun _ _ ↦ rfl)
  obtain ⟨ks, hks, hperm⟩ := List.perm_comp_forall₂ h hls
  refine ⟨ks, hperm, ?_⟩
  clear h hperm
  induction hks with
  | nil => rfl
  | cons hr _ ih => rw [List.map_cons, hr, ih]

/-- **Side by side.** On a path of several processes that run side by side each of them has a path
of its own. In the order in which they ended these paths have the results that are listed, and their
reports are interleaved. -/
theorem Path.of_arrivals {ps : List (Process σ α)} {as : List (Act σ)} {rs : List α}
    (h : Path (arrivals ps) as rs) :
    ∃ ls ks : List (List (Act σ) × α), List.Forall₂ (fun p l ↦ Path p l.1 l.2) ps ls ∧
      ks.Perm ls ∧ ks.map (·.2) = rs ∧
      Interleaved (ks.map fun k ↦ reports k.1) (reports as) := by
  obtain ⟨bs, ⟨⟨⟩, _⟩, cs, rfl, hb, hc⟩ := Path.of_bind h
  obtain ⟨rfl, rfl⟩ := hc.of_done
  obtain ⟨ds, hd, hl, hr⟩ := Path.of_withLocal hb
  obtain ⟨dss, hall, hi⟩ := Path.of_all hd
  obtain ⟨ls, hls, hns, hrs⟩ := Path.of_notings hall
  obtain ⟨ts, ht, hperm⟩ := Noted.interleaved hi hns
  -- the list was empty in the beginning, so in the end it is what was noted
  have hts : rs = ts := ht.eq_append hl
  obtain ⟨ks, hks, hkr⟩ := exists_perm_map_eq (hts ▸ hperm)
  refine ⟨ls, ks, hls, hks, hkr, ?_⟩
  -- the parts in the order in which they ended, and no longer in that of the processes
  rw [List.append_nil, ← hr]
  have hi' : Interleaved (dss.map reports) (reports ds) := hi.filterMap Act.report?
  rw [hrs] at hi'
  exact hi'.perm (hks.symm.map _)

end Workflow.Process
