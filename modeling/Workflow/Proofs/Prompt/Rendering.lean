import Mathlib.Data.List.Forall2
import Workflow.Proofs.Text.Occurrence
import Workflow.Template

/-!
# Rendering in one pass

How a template is cut into literal text and placeholders depends on its text alone. `Pieces` tells
the cut without the scanner, by first occurrences, and `pieces_iff` says that the scanner makes just
this cut. A look-up comes in only when each placeholder is replaced, by itself and once, so nothing
that a value brings in is looked at again: `render_in_one_pass`.
-/

namespace Workflow.Template

open Json (Value)
open Text (CutAt)

/-! ## The cut -/

/-- The pieces of a template, in their order. -/
inductive Pieces : List Char → List Chunk → Prop where
  /-- A text without an opening is literal. -/
  | plain {t : List Char} : ¬opening <:+: t → Pieces t [.literal t]
  /-- So is a text with an opening, if nothing after the first one closes it. -/
  | unclosed {t before after : List Char} :
      CutAt opening t before after → ¬closing <:+: after → Pieces t [.literal t]
  /-- A placeholder runs from the first opening to the next closing, and then the rest is cut. -/
  | closed {t before after inner rest : List Char} {cs : List Chunk} :
      CutAt opening t before after → CutAt closing after inner rest → Pieces rest cs →
        Pieces t (.literal before :: .placeholder inner :: cs)

theorem pieces_chunks (t : List Char) : Pieces t (chunks t) := by
  fun_induction chunks t with
  | case1 t h => exact .plain (Text.breakOn_eq_none_iff.1 h)
  | case2 t before after h h' =>
    exact .unclosed (Text.breakOn_eq_some_iff.1 h) (Text.breakOn_eq_none_iff.1 h')
  | case3 t before after h inner rest h' _ ih =>
    exact .closed (Text.breakOn_eq_some_iff.1 h) (Text.breakOn_eq_some_iff.1 h') ih

theorem Pieces.unique {t : List Char} {cs ds : List Chunk} (h : Pieces t cs) (h' : Pieces t ds) :
    cs = ds := by
  induction h generalizing ds with
  | plain hnone =>
    cases h' with
    | plain _ | unclosed _ _ => rfl
    | closed hcut _ _ => exact absurd hcut.isInfix hnone
  | unclosed hcut hnone =>
    cases h' with
    | plain _ | unclosed _ _ => rfl
    | closed hcut' hclosed _ =>
      obtain ⟨-, rfl⟩ := hcut.unique hcut'
      exact absurd hclosed.isInfix hnone
  | closed hcut hclosed _ ih =>
    cases h' with
    | plain hnone => exact absurd hcut.isInfix hnone
    | unclosed hcut' hnone =>
      obtain ⟨-, rfl⟩ := hcut.unique hcut'
      exact absurd hclosed.isInfix hnone
    | closed hcut' hclosed' hrest =>
      obtain ⟨rfl, rfl⟩ := hcut.unique hcut'
      obtain ⟨rfl, rfl⟩ := hclosed.unique hclosed'
      rw [ih hrest]

/-- Every template has one cut, and the scanner makes it. -/
theorem pieces_iff {t : List Char} {cs : List Chunk} : Pieces t cs ↔ cs = chunks t := by
  constructor
  · intro h
    exact h.unique (pieces_chunks t)
  · rintro rfl
    exact pieces_chunks t

/-- An opening in literal text is in the last piece, where nothing closes it. -/
theorem Pieces.literals {t : List Char} {cs : List Chunk} (h : Pieces t cs) :
    ∃ init tail, cs = init ++ [.literal tail] ∧
      (∀ text, .literal text ∈ init → ¬opening <:+: text) ∧
      (opening <:+: tail →
        ∃ before after, CutAt opening tail before after ∧ ¬closing <:+: after) := by
  induction h with
  | @plain t hnone => exact ⟨[], t, rfl, nofun, fun h ↦ absurd h hnone⟩
  | @unclosed t before after hcut hnone =>
    exact ⟨[], t, rfl, nofun, fun _ ↦ ⟨before, after, hcut, hnone⟩⟩
  | @closed t before after inner rest cs hcut _ _ ih =>
    obtain ⟨init, tail, rfl, hinit, htail⟩ := ih
    refine ⟨.literal before :: .placeholder inner :: init, tail, rfl, fun text htext ↦ ?_, htail⟩
    rcases List.mem_cons.1 htext with heq | htext
    · cases heq
      exact hcut.not_isInfix_before (by decide)
    · rcases List.mem_cons.1 htext with heq | htext
      · cases heq
      · exact hinit text htext

/-! ## Keys -/

/-- What a placeholder holds is a key if it is not blank and has no blank inside; the blanks around
it do not count. -/
structure IsKey (inner : List Char) (key : String) : Prop where
  trimmed : key.toList = Text.trim inner
  ne_nil : Text.trim inner ≠ []
  solid : ∀ c ∈ Text.trim inner, Text.isBlank c = false

theorem key?_eq_some_iff {inner : List Char} {key : String} :
    key? inner = some key ↔ IsKey inner key := by
  rw [key?]
  split
  · next hblank =>
    refine iff_of_false (by simp) fun h ↦ ?_
    rcases Bool.or_eq_true_iff.1 hblank with hempty | hany
    · exact h.ne_nil (List.isEmpty_iff.1 hempty)
    · obtain ⟨c, hc, hcblank⟩ := List.any_eq_true.1 hany
      exact Bool.false_ne_true ((h.solid c hc).symm.trans hcblank)
  · next hsolid =>
    obtain ⟨hempty, hany⟩ := Bool.or_eq_false_iff.1 (Bool.eq_false_iff.2 hsolid)
    rw [Option.some.injEq]
    constructor
    · rintro rfl
      refine ⟨String.toList_ofList, fun hnil ↦ ?_, fun c hc ↦ ?_⟩
      · rw [hnil] at hempty
        cases hempty
      · exact Bool.eq_false_iff.2 (List.any_eq_false.1 hany c hc)
    · intro h
      rw [← h.trimmed, String.ofList_toList]

/-- A key that a template asks for. -/
def Asks (t : String) (key : String) : Prop :=
  ∃ inner, .placeholder inner ∈ chunks t.toList ∧ IsKey inner key

/-! ## Replacing -/

/-- What stands for a chunk when a template is rendered: for a placeholder the text of the value
that its key is mapped to, and without such a value the placeholder itself. -/
inductive Becomes (lookup : String → Option Value) : Chunk → List Char → Prop where
  | literal (text : List Char) : Becomes lookup (.literal text) text
  | value {inner : List Char} {key : String} {v : Value} :
      IsKey inner key → lookup key = some v →
        Becomes lookup (.placeholder inner) v.plainText.toList
  | verbatim {inner : List Char} :
      (∀ key, IsKey inner key → lookup key = none) →
        Becomes lookup (.placeholder inner) (opening ++ inner ++ closing)

variable {lookup lookup' : String → Option Value}

theorem becomes_render (lookup : String → Option Value) (c : Chunk) :
    Becomes lookup c (c.render lookup) := by
  cases c with
  | literal text => exact .literal text
  | placeholder inner =>
    rw [Chunk.render]
    cases hv : (key? inner).bind lookup with
    | some v =>
      obtain ⟨key, hkey, hlookup⟩ := Option.bind_eq_some_iff.1 hv
      exact .value (key?_eq_some_iff.1 hkey) hlookup
    | none =>
      refine .verbatim fun key hkey ↦ ?_
      rw [key?_eq_some_iff.2 hkey] at hv
      exact hv

theorem render_congr {t : String} (h : ∀ key, Asks t key → lookup key = lookup' key) :
    render lookup t = render lookup' t := by
  rw [render, render]
  congr 1
  refine List.flatMap_congr fun c hc ↦ ?_
  cases c with
  | literal text => rfl
  | placeholder inner =>
    rw [Chunk.render, Chunk.render]
    cases hkey : key? inner with
    | none => rfl
    | some key =>
      have hasks : Asks t key := ⟨inner, hc, key?_eq_some_iff.1 hkey⟩
      rw [Option.bind_some, Option.bind_some, h key hasks]

theorem render_eq_self {t : String} (h : ∀ key, Asks t key → lookup key = none) :
    render lookup t = t := by
  have hnone : render lookup t = render (fun _ ↦ none) t := render_congr h
  have hsource : Chunk.render (fun _ ↦ none) = Chunk.source := by
    funext c
    cases c with
    | literal text => rfl
    | placeholder inner => rw [Chunk.render, Option.bind_fun_none]
  rw [hnone, render, hsource, chunks_source, String.ofList_toList]

/-- **One opaque pass.** Every template has one cut into pieces, which depends on its text alone:
each placeholder runs from the first opening that is left to the next closing, and no literal text
has an opening in it, unless it is the last and nothing closes the opening. Over any look-up the
template is rendered by replacing each placeholder whose key has a value with the text of that
value. What such a text holds is never looked up, so look-ups that agree on the keys of the template
render it alike, and one that has none of them leaves it as it is. -/
theorem render_in_one_pass (t : String) :
    ∃ cs init tail, (∀ ds, Pieces t.toList ds ↔ ds = cs) ∧
      cs.flatMap Chunk.source = t.toList ∧ cs = init ++ [.literal tail] ∧
      (∀ text, .literal text ∈ init → ¬opening <:+: text) ∧
      (opening <:+: tail →
        ∃ before after, CutAt opening tail before after ∧ ¬closing <:+: after) ∧
      (∀ lookup, ∃ texts, List.Forall₂ (Becomes lookup) cs texts ∧
        (render lookup t).toList = texts.flatten) ∧
      (∀ lookup lookup', (∀ key, Asks t key → lookup key = lookup' key) →
        render lookup t = render lookup' t) ∧
      ∀ lookup, (∀ key, Asks t key → lookup key = none) → render lookup t = t := by
  obtain ⟨init, tail, hcs, hinit, htail⟩ := (pieces_chunks t.toList).literals
  refine ⟨chunks t.toList, init, tail, fun _ ↦ pieces_iff, chunks_source _, hcs, hinit, htail,
    fun lookup ↦ ⟨(chunks t.toList).map (Chunk.render lookup), ?_, ?_⟩,
    fun _ _ ↦ render_congr, fun _ ↦ render_eq_self⟩
  · rw [List.forall₂_map_right_iff, List.forall₂_same]
    exact fun c _ ↦ becomes_render lookup c
  · rw [render, String.toList_ofList, List.flatMap_def]

/-- What a value brings in stays as it is, also if its key stands elsewhere in the template. -/
example : render (fun key ↦ if key = "a" then some (.string "\x7b\x7b b \x7d\x7d") else some .null)
    "\x7b\x7ba\x7d\x7d, \x7b\x7b b \x7d\x7d, \x7b\x7b a b \x7d\x7d, \x7b\x7b a" =
    "\x7b\x7b b \x7d\x7d, null, \x7b\x7b a b \x7d\x7d, \x7b\x7b a" := by
  decide +kernel

end Workflow.Template
