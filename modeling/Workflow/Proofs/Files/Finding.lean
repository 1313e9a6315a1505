import Workflow.Proofs.Files.Listing

/-!
# Finding files

A path that goes on from a folder by a name leads to a file just if the folder can be reached and
has the file under that name: `Files.isFile_iff`. So the files in a folder are found or not found
by what lies directly in it, as long as it can be reached.

A path that is completed from the root names the same place as before, if home has proper names:
`Files.place_complete`.
-/

namespace Workflow

namespace Files

variable {fs fs' : Files} {place q : List String} {steps : List String} {e : Entry}
  {folder name path : String}

/-! ## Files in a folder -/

/-- Whether a path leads to a folder. -/
def Reaches (fs : Files) (folder : String) : Prop :=
  fs.follow (fs.start folder) (Path.pieces folder) = .ok (fs.place folder, .folder)

theorem Reaches.of_foldersStay (h : fs.Reaches folder) (hstay : fs.FoldersStay fs')
    (hhome : fs'.home = fs.home) : fs'.Reaches folder := by
  rw [Reaches, start_congr hhome, place_congr hhome]
  exact hstay.follow h

theorem follow_cons_eq_ok_iff {step : String} {r : List String × Entry} :
    fs.follow place (step :: steps) = .ok r ↔ fs.get? place = some .folder ∧
      step.utf8ByteSize ≤ longestName ∧ fs.follow (walk place [step]) steps = .ok r := by
  constructor
  · intro h
    have hplace := get?_of_follow_cons h
    rw [follow_cons hplace] at h
    split at h
    · cases h
    · next hshort => exact ⟨hplace, Nat.le_of_not_lt hshort, h⟩
  · rintro ⟨hplace, hshort, h⟩
    rw [follow_cons hplace, if_neg (Nat.not_lt.2 hshort), h]

theorem follow_concat_eq_ok_iff (h : Path.IsName name) :
    fs.follow place (steps ++ [name]) = .ok (q, e) ↔
      fs.follow place steps = .ok (walk place steps, .folder) ∧ name.utf8ByteSize ≤ longestName ∧
        q = walk place steps ++ [name] ∧ fs.get? q = some e := by
  induction steps generalizing place with
  | nil =>
    rw [List.nil_append, follow_cons_eq_ok_iff, follow_nil_eq_ok_iff, follow_nil_eq_ok_iff,
      walk_name h.ne_dot h.ne_dots, walk_nil, walk_nil]
    constructor
    · rintro ⟨hplace, hshort, rfl, hq⟩
      exact ⟨⟨rfl, hplace⟩, hshort, rfl, hq⟩
    · rintro ⟨⟨-, hplace⟩, hshort, rfl, hq⟩
      exact ⟨hplace, hshort, rfl, hq⟩
  | cons step steps ih =>
    rw [List.cons_append, follow_cons_eq_ok_iff, follow_cons_eq_ok_iff, ih,
      walk_cons place step steps, and_assoc, and_assoc]

theorem isFile_iff (h : Path.AddsName folder name path)
    (hslash : Path.endsWithSlash path = false) :
    fs.isFile path = true ↔ '\x00' ∉ path.toList ∧ fs.Reaches folder ∧
      name.utf8ByteSize ≤ longestName ∧ ∃ text, fs.get? (fs.place path) = some (.file text) := by
  have hne : path ≠ "" := by
    rintro rfl
    have hpieces := h.pieces
    simp [Path.pieces, Text.splitOn] at hpieces
  have hisFile : fs.isFile path = true ↔ ∃ place text, fs.find path = .ok (place, .file text) := by
    rw [isFile]
    split
    · next place text hfind => exact iff_of_true rfl ⟨place, text, hfind⟩
    · next hnot =>
      refine iff_of_false Bool.false_ne_true ?_
      rintro ⟨place, text, hfind⟩
      exact hnot place text hfind
  rw [hisFile, find, if_neg (by simpa using hne)]
  by_cases hnul : '\x00' ∈ path.toList
  · rw [if_pos (List.contains_iff_mem.2 hnul)]
    refine iff_of_false ?_ fun hfile ↦ hfile.1 hnul
    rintro ⟨place, text, hfind⟩
    cases hfind
  rw [if_neg (fun hmem ↦ hnul (List.contains_iff_mem.1 hmem))]
  dsimp only
  rw [← start, hslash, if_neg Bool.false_ne_true, List.append_nil, h.pieces,
    fs.start_addsName h, Reaches, place_addsName fs h, place_eq_walk]
  simp only [follow_concat_eq_ok_iff h.isName, hnul, not_false_eq_true, true_and]
  constructor
  · rintro ⟨place, text, hreach, hshort, rfl, hget⟩
    exact ⟨hreach, hshort, text, hget⟩
  · rintro ⟨hreach, hshort, text, hget⟩
    exact ⟨_, text, hreach, hshort, rfl, hget⟩

end Files

/-! ## Paths from the root -/

namespace Path

variable {p step : String}

theorem of_mem_pieces (h : step ∈ pieces p) : '/' ∉ step.toList ∧ step ≠ "" := by
  obtain ⟨hmem, hne⟩ := List.mem_filter.1 h
  obtain ⟨piece, hpiece, rfl⟩ := List.mem_map.1 hmem
  rw [String.toList_ofList]
  exact ⟨Text.notMem_of_mem_splitOn hpiece, bne_iff_ne.1 hne⟩

theorem pieces_foldl {steps : List String} (h : ∀ step ∈ steps, '/' ∉ step.toList ∧ step ≠ "")
    (start : String) :
    pieces (steps.foldl (fun path step ↦ path ++ "/" ++ step) start) = pieces start ++ steps := by
  induction steps generalizing start with
  | nil => exact (List.append_nil _).symm
  | cons step steps ih =>
    obtain ⟨⟨hslash, hne⟩, hsteps⟩ := List.forall_mem_cons.1 h
    rw [List.foldl_cons, ih hsteps, pieces_append, pieces_name hslash hne, List.append_assoc]
    rfl

/-- Steps that are put after nothing or after an absolute path make up one again. -/
theorem isAbsolute_foldl {start : String} (h : start = "" ∨ isAbsolute start = true)
    (steps : List String) :
    steps.foldl (fun path step ↦ path ++ "/" ++ step) start = "" ∨
      isAbsolute (steps.foldl (fun path step ↦ path ++ "/" ++ step) start) = true := by
  induction steps generalizing start with
  | nil => exact h
  | cons step steps ih =>
    refine ih (.inr ?_)
    dsimp only
    rcases h with rfl | h
    · rw [String.append_assoc, String.empty_append, isAbsolute_append (by simp)]
      rfl
    · have hne : start ≠ "" := by
        rintro rfl
        cases h
      rw [String.append_assoc, isAbsolute_append hne, h]

theorem isAbsolute_complete {home : String} (h : home = "" ∨ isAbsolute home = true)
    (p : String) : isAbsolute (complete home p) = true := by
  have hstart : (if isAbsolute p then "" else home) = "" ∨
      isAbsolute (if isAbsolute p then "" else home) = true := by
    split
    · exact .inl rfl
    · exact h
  have htext := isAbsolute_foldl hstart (steps p)
  rw [complete]
  generalize (steps p).foldl _ _ = text at htext ⊢
  rcases htext with rfl | htext
  · rw [if_pos (beq_self_eq_true "")]
    rfl
  · have hne : text ≠ "" := by
      rintro rfl
      cases htext
    rw [if_neg (fun hempty ↦ hne (eq_of_beq hempty))]
    split
    · rw [isAbsolute_append hne, htext]
    · exact htext

theorem pieces_complete (home p : String) :
    pieces (complete home p) = pieces (if isAbsolute p then "" else home) ++ steps p := by
  have hsteps : ∀ step ∈ steps p, '/' ∉ step.toList ∧ step ≠ "" :=
    fun step hstep ↦ of_mem_pieces (List.mem_of_mem_filter hstep)
  rw [← pieces_foldl hsteps, complete]
  generalize (steps p).foldl _ _ = text
  split
  · next hempty =>
    rw [eq_of_beq hempty]
    rfl
  · split
    · exact pieces_append_slash _
    · rfl

end Path

namespace Files

variable {fs : Files}

theorem walk_names {names : List String} (h : ∀ n ∈ names, Path.IsName n) (place : List String) :
    walk place names = place ++ names := by
  induction names generalizing place with
  | nil => exact (List.append_nil _).symm
  | cons name names ih =>
    obtain ⟨hname, hnames⟩ := List.forall_mem_cons.1 h
    rw [walk_name hname.ne_dot hname.ne_dots, ih hnames, List.append_assoc]
    rfl

/-- A dot stays where it is. -/
theorem walk_filter_dot (place steps : List String) :
    walk place (steps.filter (· != ".")) = walk place steps := by
  rw [walk, walk, List.foldl_filter]
  refine congrArg (fun f ↦ List.foldl f place steps) (funext fun place ↦ funext fun step ↦ ?_)
  by_cases hdot : step = "."
  · subst hdot
    rfl
  · rw [if_pos (bne_iff_ne.2 hdot)]

theorem isAbsolute_complete (fs : Files) (path : String) :
    Path.isAbsolute (Path.complete fs.homePath path) = true := by
  rw [homePath]
  exact Path.isAbsolute_complete (Path.isAbsolute_foldl (.inl rfl) fs.home) path

/-- A completed path names the same place as before. -/
theorem place_complete (hhome : ∀ n ∈ fs.home, Path.IsName n) (path : String) :
    fs.place (Path.complete fs.homePath path) = fs.place path := by
  have hpieces : Path.pieces fs.homePath = fs.home :=
    Path.pieces_foldl (fun n hn ↦ ⟨(hhome n hn).noSlash, (hhome n hn).ne_empty⟩) ""
  have hstart : walk [] (Path.pieces (if Path.isAbsolute path then "" else fs.homePath)) =
      fs.start path := by
    rw [start]
    split
    · rfl
    · rw [hpieces, walk_names hhome, List.nil_append]
  rw [place_eq_walk, start, isAbsolute_complete, if_pos rfl, Path.pieces_complete, walk_append,
    hstart, Path.steps, walk_filter_dot, place_eq_walk]

end Files

end Workflow
