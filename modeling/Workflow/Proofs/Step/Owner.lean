import Workflow.Proofs.Step.Passage

/-!
# Whose deeds they are

Everything that is done in a call is the deed of one call that lies in it, and not of a call inside
that one: `Passage.hasOwner`. So what is to be known of all deeds of a run is proved of those that a
call has of its own, and these are few: its reports, and the one call of an agent or a handler.
-/

namespace Workflow

open Process (Act Deed deeds)
open Context (anyGrowth Rely)

variable {env : Environment} {shared : Bool} {d : Context} {as : List (Act Context)}

namespace Account

/-- What holds of a call if it holds of all calls in it holds of every call. -/
theorem induction_inside {P : Account → Prop} (h : ∀ a, (∀ b ∈ a.inside, P b) → P a) :
    (a : Account) → P a
  | ⟨s, c, inside, r⟩ => h _ fun b hb ↦
    have : sizeOf b < sizeOf inside := List.sizeOf_lt_of_mem hb
    induction_inside h b
termination_by a => sizeOf a
decreasing_by
  rw [Account.mk.sizeOf_spec]
  omega

theorem Passage.exists_inside {a b : Account} (h : a.Passage env shared as d) (hb : b ∈ a.inside) :
    ∃ bs e, b.Passage env (a.step.sharing shared) bs e := by
  rcases h.cases with hdeclines | ⟨bs, r, answer, hperforms⟩
  · rw [hdeclines.inside_eq] at hb
    cases hb
  · by_cases hleaf : a.step.kind = .agent ∨ a.step.kind = .code
    · rw [Step.inside_of_leaf hleaf hperforms.body] at hb
      cases hb
    · obtain ⟨hagent, hcode⟩ := not_or.1 hleaf
      obtain ⟨parts, hout, hparts, -⟩ := Step.parts_of_body hagent hcode hperforms.body
      rw [← hout] at hb
      obtain ⟨q, hq, rfl⟩ := List.mem_map.1 hb
      obtain ⟨e, hpassage⟩ := hparts q hq
      exact ⟨q.1, e, hpassage⟩

/-- A call lies in another one; and whether it shares its context with others, by whether the other
one does. -/
inductive Lies (b : Account) (shared' : Bool) : Account → Bool → Prop where
  | refl : Lies b shared' b shared'
  | inside {a c : Account} {shared : Bool} :
      c ∈ a.inside → Lies b shared' c (a.step.sharing shared) → Lies b shared' a shared

theorem Lies.within {a b : Account} {shared shared' : Bool} (h : b.Lies shared' a shared) :
    b.Within a := by
  induction h with
  | refl => exact .refl
  | inside hc _ ih => exact .inside hc ih

/-- What is done in a call, and not in a call inside it. -/
inductive Owns (env : Environment) (shared : Bool) (b : Account) (bs : List (Act Context))
    (e : Context) : Deed → Prop where
  | report {status : Audit.Status} {m : List (String × Json.Value)} (answer : Option String) :
      status ≠ .completed → Owns env shared b bs e (.report (.make b.step.name status m) answer)
  | closing {cs : List (Act Context)} {r : Except StepError Unit} {answer : Option String}
      (n : Nat) :
      b.Performs env shared bs e cs r answer →
        Owns env shared b bs e (.report (closingEvent b.step n e r) answer)
  | leaf {cs : List (Act Context)} {r : Except StepError Unit} {answer : Option String} {x : Deed} :
      b.step.kind = .agent ∨ b.step.kind = .code → b.Performs env shared bs e cs r answer →
        x ∈ deeds cs → Owns env shared b bs e x

/-- A deed among those of a call is done by a call that lies in it. -/
def HasOwner (env : Environment) (shared : Bool) (a : Account) (as : List (Act Context))
    (x : Deed) : Prop :=
  ∃ (b : Account) (shared' : Bool) (bs : List (Act Context)) (e : Context),
    b.Lies shared' a shared ∧ b.Passage env shared' bs e ∧ (deeds bs).Sublist (deeds as) ∧
      x ∈ deeds bs ∧ b.Owns env shared' bs e x

/-- **Whose deeds they are.** Everything that is done in a call is what a call that lies in it does
itself. -/
theorem Passage.hasOwner {a : Account} (h : a.Passage env shared as d) {x : Deed}
    (hx : x ∈ deeds as) : a.HasOwner env shared as x := by
  induction a using induction_inside generalizing shared as d with
  | h a ih =>
    have hself (howns : a.Owns env shared as d x) : a.HasOwner env shared as x :=
      ⟨a, shared, as, d, .refl, h, .refl _, hx, howns⟩
    rcases h.cases with hdeclines | ⟨cs, r, answer, hperforms⟩
    · obtain ⟨status, m, answer, hstatus, hdeeds, -, -⟩ := hdeclines.deeds_eq
      rw [hdeeds, List.mem_singleton] at hx
      subst hx
      exact hself (.report answer hstatus)
    · obtain ⟨m, n, hdeeds⟩ := hperforms.deeds_eq
      rw [hdeeds, List.mem_cons, List.mem_append, List.mem_singleton] at hx
      rcases hx with rfl | hx | rfl
      · exact hself (.report none nofun)
      · by_cases hleaf : a.step.kind = .agent ∨ a.step.kind = .code
        · exact hself (.leaf hleaf hperforms hx)
        · -- it is done in one of the calls inside
          obtain ⟨hagent, hcode⟩ := not_or.1 hleaf
          obtain ⟨parts, hout, hparts, hi⟩ := Step.parts_of_body hagent hcode hperforms.body
          obtain ⟨l, hl, hxl⟩ := hi.exists_mem hx
          obtain ⟨q, hq, rfl⟩ := List.mem_map.1 hl
          obtain ⟨e, hpassage⟩ := hparts q hq
          have hmem : q.2 ∈ a.inside := hout ▸ List.mem_map_of_mem hq
          obtain ⟨b, shared', bs, e', hlies, hb, hsub, hxb, howns⟩ := ih q.2 hmem hpassage hxl
          refine ⟨b, shared', bs, e', .inside hmem hlies, hb, hsub.trans ?_, hxb, howns⟩
          rw [hdeeds]
          exact (hi.sublist _ hl).trans ((List.sublist_append_left _ _).cons _)
      · exact hself (.closing n hperforms)

end Account

end Workflow
