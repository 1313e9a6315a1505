import Workflow.Proofs.Account.Trail

/-!
# How errors come through

A step in which a call fails, fails as well, and it fails with the error of the first call inside it
that did. In a loop or an iteration there is no other: it ends with the call that failed. A group
waits for all its children, so there the errors of all but the first one to come are lost, be they
fatal or not. `Account.Escapes` follows the errors that are kept, from the outside to the call that
they come from, and by `Trail.escapes_of_isFatal` and `Trail.isFatal_of_escapes` a step ends with a
fatal error exactly when this leads to one. A fatal error that came second in a group does not end
the step with it.
-/

namespace Workflow

open Process (Report)

/-! ## The first error -/

theorem firstError_cons_of_none {a : Account} (h : a.error? = none) (as : List Account) :
    firstError (a :: as) = firstError as := by
  rw [firstError, firstError, List.findSome?_cons, h]

theorem firstError_append_of_ok {as bs : List Account} (h : firstError as = .ok ()) :
    firstError (as ++ bs) = firstError bs := by
  induction as with
  | nil => rfl
  | cons a as ih =>
    cases ha : a.error? with
    | some e =>
      rw [firstError, List.findSome?_cons, ha] at h
      cases h
    | none =>
      rw [firstError_cons_of_none ha] at h
      rw [List.cons_append, firstError_cons_of_none ha, ih h]

theorem Pass.eq_firstError {ss : List Step} {as : List Account} {r : Except StepError Unit}
    (h : Pass ss as r) : r = firstError as := by
  induction h with
  | done => rfl
  | next ha _ ih => rw [firstError_cons_of_none ha, ih]
  | failed ha => rw [firstError, List.findSome?_cons, ha]

theorem Passes.eq_firstError {ss : List Step} {as : List Account} {r : Except StepError Unit}
    (h : Passes ss as r) : r = firstError as := by
  induction h with
  | done => rfl
  | next hpass _ ih => rw [firstError_append_of_ok hpass.eq_firstError.symm, ih]
  | failed hpass => exact hpass.eq_firstError

theorem Step.Admits.eq_error {s : Step} {as : List Account} {r : Except StepError Unit}
    {e : StepError} (h : s.Admits (as, r)) (he : firstError as = .error e) : r = .error e := by
  cases h with
  | agent | code | noTasks => cases he
  | parallel _ => exact he
  | loop hpasses | perTask hpasses => exact hpasses.eq_firstError.trans he
  | exhausted n hpasses =>
    rw [← hpasses.eq_firstError] at he
    cases he

/-! ## Failing calls -/

def firstFailing (as : List Account) : Option Account := as.find? fun a ↦ a.error?.isSome

theorem firstFailing_cons_of_none {a : Account} (h : a.error? = none) (as : List Account) :
    firstFailing (a :: as) = firstFailing as :=
  List.find?_cons_of_neg (by simp [h])

theorem firstFailing_cons_of_some {a : Account} {e : StepError} (h : a.error? = some e)
    (as : List Account) : firstFailing (a :: as) = some a :=
  List.find?_cons_of_pos (by simp [h])

theorem exists_firstFailing {as : List Account} {a : Account} {e : StepError} (ha : a ∈ as)
    (he : a.error? = some e) : ∃ b, firstFailing as = some b := by
  refine Option.ne_none_iff_exists'.1 fun hnone ↦ ?_
  exact List.find?_eq_none.1 hnone a ha (by simp [he])

theorem firstFailing_eq_some {as : List Account} {b : Account} (h : firstFailing as = some b) :
    b ∈ as ∧ ∃ e, b.error? = some e ∧ firstError as = .error e := by
  induction as with
  | nil => cases h
  | cons a as ih =>
    cases ha : a.error? with
    | some e =>
      rw [firstFailing_cons_of_some ha] at h
      cases h
      exact ⟨List.mem_cons_self, e, ha, by rw [firstError, List.findSome?_cons, ha]⟩
    | none =>
      rw [firstFailing_cons_of_none ha] at h
      rw [firstError_cons_of_none ha]
      obtain ⟨hmem, he⟩ := ih h
      exact ⟨List.mem_cons_of_mem _ hmem, he⟩

/-- Steps that are called in turn are called up to the first failure, so there is no other. -/
theorem Pass.firstFailing_eq {ss : List Step} {as : List Account} {r : Except StepError Unit}
    (h : Pass ss as r) {a : Account} {e : StepError} (ha : a ∈ as) (he : a.error? = some e) :
    firstFailing as = some a := by
  induction h with
  | done => cases ha
  | next hb _ ih =>
    rcases List.mem_cons.1 ha with rfl | ha
    · rw [hb] at he
      cases he
    · rw [firstFailing_cons_of_none hb, ih ha]
  | failed hb =>
    rw [List.mem_singleton] at ha
    rw [ha, firstFailing_cons_of_some hb]

theorem Passes.firstFailing_eq {ss : List Step} {as : List Account} {r : Except StepError Unit}
    (h : Passes ss as r) {a : Account} {e : StepError} (ha : a ∈ as) (he : a.error? = some e) :
    firstFailing as = some a := by
  induction h with
  | done => cases ha
  | @next as bs r hpass hpasses ih =>
    -- no call failed in a pass that another one came after
    have hok : firstFailing as = none := by
      cases hb : firstFailing as with
      | none => rfl
      | some b =>
        obtain ⟨-, e, -, hfirst⟩ := firstFailing_eq_some hb
        rw [← hpass.eq_firstError] at hfirst
        cases hfirst
    rcases List.mem_append.1 ha with ha | ha
    · rw [hpass.firstFailing_eq ha he] at hok
      cases hok
    · rw [firstFailing, List.find?_append, ← firstFailing, ← firstFailing, hok, ih ha]
      rfl
  | failed hpass => exact hpass.firstFailing_eq ha he

/-- Only in a group can a call fail that is not the first one to. -/
theorem Step.Admits.firstFailing_eq {s : Step} {as : List Account} {r : Except StepError Unit}
    (h : s.Admits (as, r)) (hs : s.kind ≠ .parallel) {a : Account} {e : StepError} (ha : a ∈ as)
    (he : a.error? = some e) : firstFailing as = some a := by
  cases h with
  | agent | code | noTasks => cases ha
  | parallel _ => exact absurd rfl hs
  | loop hpasses | exhausted _ hpasses | perTask hpasses => exact hpasses.firstFailing_eq ha he

namespace Account

inductive Within (b : Account) : Account → Prop where
  | refl : Within b b
  | inside {a c : Account} : c ∈ a.inside → Within b c → Within b a

/-- A call with a fatal error of its own, or one in which the first call to fail is such a call
again. What a sink refuses is always an error of the call that reports it. -/
inductive Escapes : Account → Prop where
  | refused {a : Account} {reason : String} : a.error? = some (.audit reason) → Escapes a
  | own {a : Account} {e : StepError} :
      firstFailing a.inside = none → a.error? = some e → e.isFatal = true → Escapes a
  | first {a b : Account} : firstFailing a.inside = some b → b.Escapes → Escapes a

/-- A group in which a fatal error came second, after one that is not fatal. -/
def Loses (g : Account) : Prop :=
  g.step.kind = .parallel ∧ ∃ c d, c ∈ g.inside ∧ c.Escapes ∧
    firstFailing g.inside = some d ∧ ¬d.Escapes

namespace Trail

variable {a b : Account} {rs : List Report}

theorem of_mem_inside (h : a.Trail rs) (hb : b ∈ a.inside) : ∃ qs, b.Trail qs := by
  cases h with
  | skipped | unskipped | unopened => cases hb
  | closed _ htrails _ _ | unclosed _ _ htrails _ _ =>
    obtain ⟨c, hc, rfl⟩ := List.mem_map.1 hb
    exact ⟨c.2, htrails c hc⟩

theorem of_within (h : a.Trail rs) (hb : b.Within a) : ∃ qs, b.Trail qs := by
  induction hb generalizing rs with
  | refl => exact ⟨rs, h⟩
  | inside hc _ ih =>
    obtain ⟨qs, hq⟩ := h.of_mem_inside hc
    exact ih hq

/-- The first call inside to fail gives its error, unless the sink refuses the report of it. -/
theorem error_of_firstFailing (h : a.Trail rs) (hb : firstFailing a.inside = some b) :
    a.error? = b.error? ∨ ∃ reason, a.error? = some (.audit reason) := by
  obtain ⟨-, e, he, hfirst⟩ := firstFailing_eq_some hb
  cases h with
  | skipped => cases hfirst
  | unskipped | unopened => exact .inr ⟨_, rfl⟩
  | closed hadmits _ _ _ =>
    obtain rfl := hadmits.eq_error hfirst
    exact .inl he.symm
  | unclosed reason _ _ _ _ => exact .inr ⟨reason, rfl⟩

theorem firstFailing_eq (h : a.Trail rs) (hkind : a.step.kind ≠ .parallel) {e : StepError}
    (hb : b ∈ a.inside) (he : b.error? = some e) : firstFailing a.inside = some b := by
  cases h with
  | skipped | unskipped | unopened => cases hb
  | closed hadmits _ _ _ | unclosed _ hadmits _ _ _ => exact hadmits.firstFailing_eq hkind hb he

theorem error_of_within (h : a.Trail rs) (hb : b.Within a) (he : b.error?.isSome = true) :
    a.error?.isSome = true := by
  induction hb generalizing rs with
  | refl => exact he
  | @inside a c hc _ ih =>
    obtain ⟨qs, hq⟩ := h.of_mem_inside hc
    obtain ⟨e, he⟩ := Option.isSome_iff_exists.1 (ih hq)
    obtain ⟨d, hd⟩ := exists_firstFailing hc he
    obtain ⟨-, e, hde, -⟩ := firstFailing_eq_some hd
    rcases h.error_of_firstFailing hd with heq | ⟨reason, heq⟩
    · rw [heq, hde]
      rfl
    · rw [heq]
      rfl

theorem escapes_of_isFatal {e : StepError} (h : a.Trail rs) (he : a.error? = some e)
    (hfatal : e.isFatal = true) : a.Escapes := by
  induction h generalizing e with
  | skipped => cases he
  | unskipped | unopened | unclosed => exact .refused rfl
  | @closed s c m calls r rs ev hadmits htrails hjoins hclose ih =>
    -- the induction took the trail apart, but the lemmas on it want the whole
    have h : Trail ⟨s, c, calls.map (·.1), r.map fun _ ↦ .completed⟩ _ :=
      .closed (m := m) hadmits htrails hjoins hclose
    cases hb : firstFailing (calls.map (·.1)) with
    | none => exact .own hb he hfatal
    | some b =>
      rcases h.error_of_firstFailing hb with heq | ⟨reason, hreason⟩
      · obtain ⟨hmem, -⟩ := firstFailing_eq_some hb
        obtain ⟨c, hc, rfl⟩ := List.mem_map.1 hmem
        exact .first hb (ih c hc (heq.symm.trans he) hfatal)
      · exact .refused hreason

theorem isFatal_of_escapes (h : a.Trail rs) (hesc : a.Escapes) :
    ∃ e, a.error? = some e ∧ e.isFatal = true := by
  induction hesc generalizing rs with
  | @refused a reason hreason => exact ⟨_, hreason, rfl⟩
  | @own a e _ he hfatal => exact ⟨e, he, hfatal⟩
  | @first a b hb _ ih =>
    obtain ⟨hmem, -⟩ := firstFailing_eq_some hb
    obtain ⟨qs, hq⟩ := h.of_mem_inside hmem
    obtain ⟨e, he, hfatal⟩ := ih hq
    rcases h.error_of_firstFailing hb with heq | ⟨reason, hreason⟩
    · exact ⟨e, heq.trans he, hfatal⟩
    · exact ⟨_, hreason, rfl⟩

/-- Errors are lost in groups only. -/
theorem exists_loses (h : a.Trail rs) (hb : b.Within a) (hesc : b.Escapes) (hnot : ¬a.Escapes) :
    ∃ g : Account, g.Within a ∧ g.Loses := by
  induction hb generalizing rs with
  | refl => exact absurd hesc hnot
  | @inside a c hc _ ih =>
    obtain ⟨qs, hq⟩ := h.of_mem_inside hc
    -- the outermost step at which the fatal error no longer comes through is the group
    by_cases hcesc : c.Escapes
    · obtain ⟨e, he, -⟩ := hq.isFatal_of_escapes hcesc
      obtain ⟨d, hd⟩ := exists_firstFailing hc he
      have hdnot : ¬d.Escapes := fun hdesc ↦ hnot (.first hd hdesc)
      refine ⟨a, .refl, ?_, c, d, hc, hcesc, hd, hdnot⟩
      by_contra hkind
      have hdc : some d = some c := hd.symm.trans (h.firstFailing_eq hkind hc he)
      cases hdc
      exact hdnot hcesc
    · obtain ⟨g, hg, hloses⟩ := ih hq hcesc
      exact ⟨g, .inside hc hg, hloses⟩

end Trail

end Account

end Workflow
