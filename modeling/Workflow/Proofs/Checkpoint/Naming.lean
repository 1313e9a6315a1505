import Mathlib.Data.List.Induction
import Workflow.Proofs.Checkpoint.Location

/-!
# Names of checkpoint files

The name of a checkpoint file is that of a workflow, a hyphen, the text of an identifier and an
ending. Workflows may be named as they like, so the name of one may begin like a file of another;
still a file belongs to one run only, that of its workflow and identifier: `Store.runOf?_fileName`.
The other notations of identifiers do no harm here. If what is read has 32 characters, then the
hyphen before it would be among the first digits of the identifier; braces are not in its text, and
before the last 36 characters of a URN there is a colon.

Files of one workflow are in the order of their identifiers: `Store.fileName_lt`.
-/

namespace Workflow

open Text (Precedes)

namespace Uuid

/-! ## Identifiers at the end of a text -/

variable {a b t : List Char} {u v : Uuid}

/-- After a hyphen an identifier is read only from its own text. -/
theorem eq_of_append (h : a ++ '-' :: u.chars = b ++ '-' :: t)
    (hread : ofText? (String.ofList t) = some v) : a = b ∧ u.chars = t := by
  rcases length_or_exists_of_ofText? hread with hshort | ⟨r, hr, rfl | rfl | rfl⟩
  · -- the hyphen in front would be one of the first four digits
    have hsplit : (a ++ '-' :: u.chars.take 4) ++ u.chars.drop 4 = (b ++ ['-']) ++ t := by
      rw [List.append_assoc, List.append_assoc, List.cons_append, List.take_append_drop]
      exact h
    have hlength : (u.chars.drop 4).length = t.length := by
      rw [List.length_drop, length_chars, hshort]
    have hlast := congrArg List.getLast? (List.append_inj' hsplit hlength).1
    have htake : u.chars.take 4 ≠ [] := by
      intro hnil
      have hfour := congrArg List.length hnil
      rw [List.length_take, length_chars] at hfour
      cases hfour
    rw [List.getLast?_concat, List.append_cons, List.getLast?_append_of_ne_nil _ htake] at hlast
    exact absurd (List.mem_of_getLast? hlast) u.notMem_take
  · have hlength : ('-' :: u.chars).length = ('-' :: t).length := by
      rw [List.length_cons, List.length_cons, length_chars, hr]
    obtain ⟨hab, hcons⟩ := List.append_inj' h hlength
    exact ⟨hab, (List.cons.inj hcons).2⟩
  · have hlast : u.chars.getLast? = some '\x7d' := by
      have hend := congrArg List.getLast? h
      have hne : u.chars ≠ [] := List.ne_nil_of_length_eq_add_one u.length_chars
      rw [List.append_cons, List.getLast?_append_of_ne_nil _ hne] at hend
      rw [hend, List.append_cons, ← List.cons_append, ← List.append_assoc, List.getLast?_concat]
    exact absurd (List.mem_of_getLast? hlast) (notMem_chars (by decide) (by decide) u)
  · have hsplit : (a ++ ['-']) ++ u.chars = (b ++ '-' :: urn) ++ r := by
      rw [List.append_assoc, List.append_assoc, List.singleton_append, List.cons_append]
      exact h
    have hlength : u.chars.length = r.length := u.length_chars.trans hr.symm
    have hlast := congrArg List.getLast? (List.append_inj' hsplit hlength).1
    have hcolon : ('-' :: urn).getLast? = some ':' := by decide
    rw [List.getLast?_concat, List.getLast?_append_of_ne_nil _ (List.cons_ne_nil _ _),
      hcolon] at hlast
    cases hlast

end Uuid

namespace Checkpoint.Store

variable {w w' name : String} {id id' : Uuid}

/-! ## Files and their runs -/

theorem runOf?_eq_some_iff : runOf? w name = some id ↔
    ∃ t : List Char, name.toList = w.toList ++ '-' :: (t ++ ".json".toList) ∧
      Uuid.ofText? (String.ofList t) = some id := by
  rw [runOf?, Option.bind_eq_bind, Option.bind_eq_some_iff]
  constructor
  · rintro ⟨rest, hrest, h⟩
    obtain ⟨t, ht, hread⟩ := Option.bind_eq_some_iff.1 h
    have hrest := Text.dropStart?_eq_some_iff.1 hrest
    have ht := congrArg List.reverse (Text.dropStart?_eq_some_iff.1 ht)
    rw [List.reverse_reverse, List.reverse_append, List.reverse_reverse] at ht
    refine ⟨t.reverse, ?_, hread⟩
    rw [hrest, ht, String.toList_append, List.append_assoc]
    rfl
  · rintro ⟨t, hname, hread⟩
    refine ⟨t ++ ".json".toList, ?_, ?_⟩
    · rw [Text.dropStart?_eq_some_iff, hname, String.toList_append, List.append_assoc]
      rfl
    · refine Option.bind_eq_some_iff.2 ⟨t.reverse, ?_, ?_⟩
      · rw [Text.dropStart?_eq_some_iff, List.reverse_append]
      · rwa [List.reverse_reverse]

/-- The file of a run belongs to that run and to no other, of whatever workflow. -/
theorem runOf?_fileName : runOf? w (fileName w' id') = some id ↔ w = w' ∧ id = id' := by
  rw [runOf?_eq_some_iff, toList_fileName, Uuid.toList_text]
  constructor
  · rintro ⟨t, ht, hread⟩
    have hends : (w'.toList ++ '-' :: id'.chars) ++ ".json".toList =
        (w.toList ++ '-' :: t) ++ ".json".toList := by
      rw [List.append_assoc, List.append_assoc]
      exact ht
    obtain ⟨hw, rfl⟩ := Uuid.eq_of_append (List.append_cancel_right hends) hread
    have hid : Uuid.ofText? (String.ofList id'.chars) = some id' := Uuid.ofText?_text id'
    exact ⟨String.toList_inj.1 hw.symm, Option.some.inj (hread.symm.trans hid)⟩
  · rintro ⟨rfl, rfl⟩
    exact ⟨id.chars, rfl, Uuid.ofText?_text id⟩

theorem fileName_inj : fileName w id = fileName w' id' ↔ w = w' ∧ id = id' := by
  constructor
  · intro h
    rw [← runOf?_fileName, ← h, runOf?_fileName]
    exact ⟨rfl, rfl⟩
  · rintro ⟨rfl, rfl⟩
    rfl

/-- Runs of workflows without a slash in their names have files of their own. -/
theorem place_pathFor_inj (store : Store) (fs : Files) (hw : '/' ∉ w.toList)
    (hw' : '/' ∉ w'.toList) :
    fs.place (store.pathFor w id) = fs.place (store.pathFor w' id') ↔ w = w' ∧ id = id' := by
  rw [fs.place_addsName (store.addsName_pathFor hw id),
    fs.place_addsName (store.addsName_pathFor hw' id'), ← fileName_inj]
  constructor
  · intro h
    exact List.singleton_inj.1 (List.append_cancel_left h)
  · intro h
    rw [h]

/-! ## Order -/

/-- Later runs of a workflow have greater files. -/
theorem fileName_lt (w : String) (h : id.value < id'.value) : fileName w id < fileName w id' := by
  have hprecedes := ((Uuid.precedes_of_lt h).append_right ".json".toList ".json".toList).append_left
    w.toList
  rw [String.lt_iff, toList_fileName, toList_fileName, Uuid.toList_text, Uuid.toList_text]
  exact hprecedes.lt

theorem greatest?_concat (names : List String) (name : String) :
    greatest? (names ++ [name]) =
      match greatest? names with
      | some best => if best < name then some name else some best
      | none => some name := by
  rw [greatest?, List.foldl_concat]
  rfl

theorem greatest?_spec (names : List String) :
    names = [] ∧ greatest? names = none ∨
      ∃ best ∈ names, greatest? names = some best ∧ ∀ n ∈ names, n ≤ best := by
  induction names using List.reverseRecOn with
  | nil => exact .inl ⟨rfl, rfl⟩
  | append_singleton names name ih =>
    right
    rw [greatest?_concat]
    rcases ih with ⟨rfl, hnone⟩ | ⟨best, hbest, hsome, hle⟩
    · rw [hnone]
      refine ⟨name, List.mem_singleton_self _, rfl, fun n hn ↦ ?_⟩
      obtain rfl := List.mem_singleton.1 hn
      exact String.le_refl n
    · rw [hsome]
      dsimp only
      split
      · next hlt =>
        refine ⟨name, List.mem_append_right _ (List.mem_singleton_self _), rfl, fun n hn ↦ ?_⟩
        rcases List.mem_append.1 hn with hn | hn
        · exact String.le_trans (hle n hn) (String.not_lt.1 (String.lt_asymm hlt))
        · obtain rfl := List.mem_singleton.1 hn
          exact String.le_refl n
      · next hnot =>
        refine ⟨best, List.mem_append_left _ hbest, rfl, fun n hn ↦ ?_⟩
        rcases List.mem_append.1 hn with hn | hn
        · exact hle n hn
        · rw [List.mem_singleton.1 hn]
          exact String.not_lt.1 hnot

end Checkpoint.Store

end Workflow
