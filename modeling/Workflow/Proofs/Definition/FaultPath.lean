import Mathlib
import Workflow.Proofs.Definition.Blame
import Workflow.Proofs.Text.Occurrence
import Workflow.Proofs.Text.Split

/-!
# Reading the path of a fault

The path of a fault is a text. The numbers of steps stand in brackets, and no name of a field has
brackets, so the step that a fault is about can be read off the path: it is the last one on the way,
`eq_and_isPrefix_of_path`. `validate_fault_located` puts this together with what is known of that
step.
-/

namespace Workflow

open Json (Value Members)

/-! ## Texts of places -/

namespace Fault

variable {p : Place} {ps qs : List Place}

/-- The text of the parts of a place after the first. -/
def pathRest (ps : List Place) : List Char := ps.flatMap fun p ↦ '.' :: (placeText p).toList

theorem toList_path_cons {cause : Cause} :
    (path ⟨p :: ps, cause⟩).toList = (placeText p).toList ++ pathRest ps := by
  rw [path, String.toList_intercalate, List.map_cons, List.map_cons, Text.intercalate_cons,
    pathRest, List.map_map, List.flatMap_map]
  rfl

theorem pathRest_append : pathRest (ps ++ qs) = pathRest ps ++ pathRest qs := List.flatMap_append

variable {f : Fault} {c : Char}

theorem notMem_pathRest (h : f.IsOwn) (hc : c = '[' ∨ c = ']') : c ∉ pathRest f.place := by
  intro hmem
  obtain ⟨p, hp, hmem⟩ := List.mem_flatMap.1 hmem
  obtain ⟨hitem, hopen, hclose⟩ := h p hp
  rw [placeText, hitem] at hmem
  rcases hc with rfl | rfl
  · rcases List.mem_cons.1 hmem with hdot | hmem
    · cases hdot
    · exact hopen hmem
  · rcases List.mem_cons.1 hmem with hdot | hmem
    · cases hdot
    · exact hclose hmem

/-- A fault of a field is not found in an item of a list. -/
theorem notMem_path (h : f.IsOwn) : '[' ∉ f.path.toList := by
  obtain ⟨_ | ⟨p, ps⟩, cause⟩ := f
  · exact List.not_mem_nil
  · have hrest := notMem_pathRest h (.inl rfl)
    rw [toList_path_cons]
    exact fun hmem ↦ hrest (List.mem_cons_of_mem _ hmem)

theorem path_under_step (f : Fault) :
    (f.under ⟨"step", none⟩).path = "step" ++ String.ofList (pathRest f.place) := by
  rw [← String.toList_inj, under, toList_path_cons, String.toList_append]
  exact congrArg ("step".toList ++ ·) String.toList_ofList.symm

theorem toList_placeText_item (list : String) (i : Nat) :
    (placeText ⟨list, some i⟩).toList = list.toList ++ '[' :: ((toString i).toList ++ [']']) := by
  simp only [placeText, String.toList_append, List.append_assoc]
  rfl

end Fault

/-! ## Numbers in brackets -/

theorem notMem_toString {c : Char} (hc : c.isDigit = false) (n : Nat) :
    c ∉ (toString n).toList := by
  intro hmem
  have hmem' : c ∈ Nat.toDigits 10 n := Nat.toList_repr ▸ hmem
  rw [Nat.isDigit_of_mem_toDigits (by decide) (by decide) hmem'] at hc
  cases hc

/-- A number is read up to the bracket that closes it. -/
theorem number_inj {m n : Nat} {s t : List Char}
    (h : (toString m).toList ++ ']' :: s = (toString n).toList ++ ']' :: t) : m = n ∧ s = t := by
  have hnot (k : Nat) : ']' ∉ (toString k).toList := notMem_toString (by decide) k
  obtain ⟨hnumber, hrest⟩ := (Text.append_cons_inj (hnot m) (hnot n)).1 h
  exact ⟨Nat.repr_inj.1 (String.toList_inj.1 hnumber), hrest⟩

/-! ## Paths of steps -/

/-- The path of a step: the phase it stands in, and its number among the children of each step on
the way to it. -/
def stepPath (i : Nat) (js : List Nat) : String :=
  "phases[" ++ toString i ++ "]" ++ String.join (js.map fun j ↦ ".steps[" ++ toString j ++ "]")

theorem stepPath_nil (i : Nat) : stepPath i [] = "phases[" ++ toString i ++ "]" := by
  simp [stepPath]

/-- What the path of a step goes on with after the phase. -/
def childrenPath (js : List Nat) : List Char := Fault.pathRest (js.map stepAt)

theorem childrenPath_cons (j : Nat) (js : List Nat) :
    childrenPath (j :: js) =
      ".steps[".toList ++ ((toString j).toList ++ ']' :: childrenPath js) := by
  rw [childrenPath, childrenPath, List.map_cons, Fault.pathRest, Fault.pathRest, List.flatMap_cons,
    stepAt, Fault.toList_placeText_item]
  simp only [List.append_assoc, List.cons_append, List.nil_append]
  rfl

theorem toList_stepPath (i : Nat) (js : List Nat) :
    (stepPath i js).toList =
      "phases[".toList ++ ((toString i).toList ++ ']' :: childrenPath js) := by
  have hjoin : (String.join (js.map fun j ↦ ".steps[" ++ toString j ++ "]")).toList =
      childrenPath js := by
    induction js with
    | nil => rfl
    | cons j js ih =>
      rw [childrenPath_cons, ← ih]
      simp [String.toList_join]
  rw [stepPath, String.toList_append, hjoin]
  simp

theorem Step.Blames.path_eq {v node : Value} {f own : Fault} {i : Nat} {js : List Nat}
    (h : Step.Blames v f (phaseAt i :: js.map stepAt) node own) :
    f.path = stepPath i js ++ String.ofList (Fault.pathRest own.place) := by
  obtain ⟨place, cause⟩ := f
  obtain rfl : place = phaseAt i :: (js.map stepAt ++ own.place) := h.place_eq
  rw [← String.toList_inj, Fault.toList_path_cons, Fault.pathRest_append, String.toList_append,
    String.toList_ofList, toList_stepPath, phaseAt, Fault.toList_placeText_item]
  simp only [List.append_assoc, List.cons_append, List.nil_append]
  rfl

theorem isPrefix_of_childrenPath {js js' : List Nat} {s s' : List Char} (hs : ']' ∉ s)
    (h : childrenPath js ++ s = childrenPath js' ++ s') : js' <+: js := by
  induction js' generalizing js with
  | nil => exact List.nil_prefix
  | cons j' js' ih =>
    rw [childrenPath_cons, List.append_assoc, List.append_assoc, List.cons_append] at h
    cases js with
    | nil =>
      have hclosed : ']' ∈ s := by
        rw [show s = _ from h]
        simp
      exact absurd hclosed hs
    | cons j js =>
      rw [childrenPath_cons, List.append_assoc, List.append_assoc, List.cons_append] at h
      obtain ⟨rfl, hrest⟩ := number_inj (List.append_cancel_left h)
      exact List.cons_prefix_cons.2 ⟨rfl, ih hrest⟩

/-- The step that a path leads to is read off the path, as far as it goes. -/
theorem eq_and_isPrefix_of_path {i i' : Nat} {js js' : List Nat} {rest rest' : String}
    (hrest : ']' ∉ rest.toList) (h : stepPath i js ++ rest = stepPath i' js' ++ rest') :
    i' = i ∧ js' <+: js := by
  rw [← String.toList_inj, String.toList_append, String.toList_append, toList_stepPath,
    toList_stepPath] at h
  simp only [List.append_assoc, List.cons_append] at h
  obtain ⟨rfl, hchildren⟩ := number_inj (List.append_cancel_left h)
  exact ⟨rfl, isPrefix_of_childrenPath hrest hchildren⟩

/-! ## Where faults are -/

/-- A text begins with the path of a step, and no other path of a step that it begins with leads
further. -/
structure LeadsTo (path : String) (i : Nat) (js : List Nat) (rest : String) : Prop where
  eq : path = stepPath i js ++ rest
  longest : ∀ i' js' rest', path = stepPath i' js' ++ rest' → i' = i ∧ js' <+: js

theorem Step.Blames.leadsTo {v node : Value} {f own : Fault} {i : Nat} {js : List Nat}
    (h : Step.Blames v f (phaseAt i :: js.map stepAt) node own) :
    LeadsTo f.path i js (String.ofList (Fault.pathRest own.place)) where
  eq := h.path_eq
  longest i' js' rest' hother := by
    have hclosed : ']' ∉ (String.ofList (Fault.pathRest own.place)).toList := by
      rw [String.toList_ofList]
      exact Fault.notMem_pathRest h.isOwn (.inr rfl)
    exact eq_and_isPrefix_of_path hclosed (h.path_eq.symm.trans hother)

/-- **Faults are located.** If the path of a refusal leads to a phase, and is not that of a repeated
name, then the last step it leads to is in the document, and alone is refused with the same message
and with what the path goes on with; the phases before are accepted. And each step of a definition
that is accepted is what its node alone is read as. -/
theorem validate_fault_located :
    (∀ (v : Value) (f : Fault) (i : Nat) (more : String), Definition.validate v = .error f →
      f.path = "phases[" ++ toString i ++ "]" ++ more → (∀ name, f.cause ≠ .repeatedPhase name) →
      ∃ js rest, LeadsTo f.path i js rest ∧
        (∃ node own, nodeAt? (phaseAt i :: js.map stepAt) v = some node ∧
          Step.validate node = .error own ∧ own.message = f.message ∧
          (own.under ⟨"step", none⟩).path = "step" ++ rest) ∧
        ∀ k < i, ∃ phase s, nodeAt? [phaseAt k] v = some phase ∧ Step.validate phase = .ok s) ∧
    ∀ (v : Value) (d : Definition), Definition.validate v = .ok d →
      ∀ (i : Nat) (js : List Nat) (phase s : Step), d.phases[i]? = some phase →
        phase.inside? js = some s →
        ∃ node, nodeAt? (phaseAt i :: js.map stepAt) v = some node ∧
          Step.validate node = .ok s := by
  constructor
  · intro v f i more h hpath hnew
    have hphase : f.path = stepPath i [] ++ more := by rw [hpath, stepPath_nil]
    rcases Definition.exists_blamed h with hf | ⟨k, hbefore, ⟨name, rfl⟩ | ⟨js, node, own, hblames⟩⟩
    · -- the bracket after the name of the list
      have hopened : '[' ∈ f.path.toList := by
        rw [hphase, String.toList_append, toList_stepPath]
        simp
      exact absurd hopened (Fault.notMem_path hf)
    · exact absurd rfl (hnew name)
    · obtain ⟨rfl, -⟩ := hblames.leadsTo.longest i [] more hphase
      exact ⟨js, _, hblames.leadsTo, ⟨node, own, hblames.reached, hblames.rejected,
        congrArg Fault.Cause.message hblames.cause_eq.symm, Fault.path_under_step own⟩, hbefore⟩
  · exact fun v d h i js phase s hphase hs ↦ Definition.exists_node h hphase hs

/-- A workflow whose second phase has a step in a group for every task. -/
def nightly (lint : Members Value) : Value :=
  .object [("name", .string "nightly"), ("version", .string "1"), ("phases", .array [
    .object [("name", .string "plan"), ("type", .string "code"), ("handler", .string "plan")],
    .object [("name", .string "each"), ("type", .string "per-task"),
      ("source", .string "plan.tasks"), ("steps", .array [
        .object [("name", .string "fan"), ("type", .string "parallel"), ("steps", .array [
          .object (("name", .string "lint") :: ("type", .string "code") :: lint)])]])]])]

theorem validate_fault_located_nightly :
    (∃ f : Fault, Definition.validate (nightly []) = .error f ∧
      f.path = "phases[1].steps[0].steps[0].handler" ∧
      ∃ js rest, LeadsTo f.path 1 js rest ∧
        (∃ node own, nodeAt? (phaseAt 1 :: js.map stepAt) (nightly []) = some node ∧
          Step.validate node = .error own ∧ own.message = f.message ∧
          (own.under ⟨"step", none⟩).path = "step" ++ rest) ∧
        ∀ k < 1, ∃ phase s, nodeAt? [phaseAt k] (nightly []) = some phase ∧
          Step.validate phase = .ok s) ∧
    ∃ node, nodeAt? [phaseAt 1, stepAt 0, stepAt 0] (nightly [("handler", .string "lint")]) =
        some node ∧ Step.validate node = .ok (.code ⟨"lint", "lint", none, none⟩) := by
  refine ⟨⟨⟨[phaseAt 1, stepAt 0, stepAt 0, ⟨"handler", none⟩], .missing⟩, rfl, by decide, ?_⟩, ?_⟩
  · exact validate_fault_located.1 _ _ 1 ".steps[0].steps[0].handler" rfl (by decide) nofun
  · exact validate_fault_located.2 _ _ rfl 1 [0, 0] _ _ rfl rfl

end Workflow
