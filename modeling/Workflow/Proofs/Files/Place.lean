import Mathlib.Data.List.Basic
import Workflow.Files
import Workflow.Proofs.Text.Split

/-!
# Places of paths

The place that a path names depends on the text of the path alone: its pieces are the steps of a
walk, `Files.walk`, that starts at the root or at home. A path that is joined to another one is
walked from the place of the other one if it is relative, and by itself if it is absolute.

So what goes on from a path by one more name, `Path.AddsName`, has its place in the place of that
path, by `Files.place_addsName`. A name that is joined to a path does so, and so does the last name
of a path with slashes.
-/

namespace Workflow

/-! ## Pieces of paths -/

namespace Path

theorem pieces_append (a b : String) : pieces (a ++ "/" ++ b) = pieces a ++ pieces b := by
  have hlist : (a ++ "/" ++ b).toList = a.toList ++ '/' :: b.toList := by
    rw [String.toList_append, String.toList_append, List.append_assoc]
    rfl
  rw [pieces, hlist, Text.splitOn_append, List.map_append, List.filter_append]
  rfl

theorem pieces_append_slash (a : String) : pieces (a ++ "/") = pieces a := by
  have hempty : a ++ "/" = a ++ "/" ++ "" := (String.append_empty).symm
  rw [hempty, pieces_append]
  exact List.append_nil _

theorem pieces_name {name : String} (h : '/' ∉ name.toList) (hne : name ≠ "") :
    pieces name = [name] := by
  have hkept : (name != "") = true := bne_iff_ne.2 hne
  rw [pieces, Text.splitOn_of_notMem h, List.map_singleton, String.ofList_toList, List.filter,
    hkept]
  rfl

theorem isAbsolute_append {a : String} (h : a ≠ "") (b : String) :
    isAbsolute (a ++ b) = isAbsolute a := by
  have hlist : a.toList ≠ [] := fun hnil ↦ h (String.toList_eq_nil_iff.1 hnil)
  obtain ⟨c, s, hs⟩ := List.exists_cons_of_ne_nil hlist
  rw [isAbsolute, isAbsolute, String.toList_append, hs]
  rfl

theorem isAbsolute_name {name : String} (h : '/' ∉ name.toList) : isAbsolute name = false := by
  rw [isAbsolute, beq_eq_false_iff_ne]
  exact fun hhead ↦ h (List.mem_of_mem_head? hhead)

theorem exists_of_endsWithSlash {p : String} (h : endsWithSlash p = true) :
    ∃ a, p = a ++ "/" := by
  rw [endsWithSlash, beq_iff_eq] at h
  obtain ⟨s, hs⟩ := List.getLast?_eq_some_iff.1 h
  refine ⟨String.ofList s, String.toList_inj.1 ?_⟩
  rw [hs, String.toList_append, String.toList_ofList]
  rfl

variable {p : String}

theorem pieces_join (h : isAbsolute p = false) (base : String) :
    pieces (join base p) = pieces base ++ pieces p := by
  rw [join, h, if_neg Bool.false_ne_true]
  split
  · next hbase =>
    rcases (Bool.or_eq_true _ _).mp hbase with hempty | hslash
    · rw [eq_of_beq hempty, String.empty_append]
      rfl
    · obtain ⟨a, rfl⟩ := exists_of_endsWithSlash hslash
      rw [pieces_append, pieces_append_slash]
  · exact pieces_append base p

theorem isAbsolute_join (h : isAbsolute p = false) (base : String) :
    isAbsolute (join base p) = isAbsolute base := by
  rw [join, h, if_neg Bool.false_ne_true]
  by_cases hempty : base = ""
  · subst hempty
    exact h
  · split
    · exact isAbsolute_append hempty p
    · rw [String.append_assoc]
      exact isAbsolute_append hempty _

theorem join_of_isAbsolute (h : isAbsolute p = true) (base : String) : join base p = p := by
  rw [join, if_pos h]

theorem endsWithSlash_append {b : String} (h : b ≠ "") (a : String) :
    endsWithSlash (a ++ b) = endsWithSlash b := by
  have hlist : b.toList ≠ [] := fun hnil ↦ h (String.toList_eq_nil_iff.1 hnil)
  rw [endsWithSlash, endsWithSlash, String.toList_append, List.getLast?_append_of_ne_nil _ hlist]

theorem endsWithSlash_join (h : p ≠ "") (base : String) :
    endsWithSlash (join base p) = endsWithSlash p := by
  rw [join]
  split
  · rfl
  · split
    · exact endsWithSlash_append h base
    · exact endsWithSlash_append h (base ++ "/")

theorem mem_join {c : Char} (hc : c ≠ '/') (h : isAbsolute p = false) {base : String} :
    c ∈ (join base p).toList ↔ c ∈ base.toList ∨ c ∈ p.toList := by
  have hslash : c ∉ "/".toList := by simpa using hc
  rw [join, h, if_neg Bool.false_ne_true]
  split
  · rw [String.toList_append, List.mem_append]
  · rw [String.toList_append, String.toList_append, List.mem_append, List.mem_append,
      or_iff_left hslash]

/-- A path with a slash is cut at the last one. -/
theorem exists_lead (h : '/' ∈ p.toList) :
    ∃ lead last, p = lead ++ "/" ++ last ∧ '/' ∉ last.toList := by
  obtain ⟨after, before, hsplit, hlast⟩ := List.eq_append_cons_of_mem (List.mem_reverse.2 h)
  refine ⟨String.ofList before.reverse, String.ofList after.reverse, ?_, ?_⟩
  · have hlist : p.toList = before.reverse ++ '/' :: after.reverse := by
      rw [← List.reverse_reverse p.toList, hsplit, List.reverse_append, List.reverse_cons,
        List.append_assoc]
      rfl
    refine String.toList_inj.1 ?_
    rw [String.toList_append, String.toList_append, List.append_assoc, hlist]
    simp only [String.toList_ofList]
    rfl
  · rwa [String.toList_ofList, List.mem_reverse]

/-- A name of something in a folder. -/
structure IsName (name : String) : Prop where
  noSlash : '/' ∉ name.toList
  ne_empty : name ≠ ""
  ne_dot : name ≠ "."
  ne_dots : name ≠ ".."

/-- A path that goes on from another one by a name. -/
structure AddsName (q name p : String) : Prop where
  isName : IsName name
  isAbsolute : isAbsolute p = isAbsolute q
  pieces : pieces p = pieces q ++ [name]

variable {name : String}

theorem addsName_join (h : IsName name) (base : String) : AddsName base name (join base name) where
  isName := h
  isAbsolute := isAbsolute_join (isAbsolute_name h.noSlash) base
  pieces := by rw [pieces_join (isAbsolute_name h.noSlash), pieces_name h.noSlash h.ne_empty]

theorem addsName_append (h : IsName name) (lead : String) :
    AddsName (lead ++ "/") name (lead ++ "/" ++ name) where
  isName := h
  isAbsolute := isAbsolute_append (by simp) name
  pieces := by rw [pieces_append, pieces_append_slash, pieces_name h.noSlash h.ne_empty]

theorem AddsName.join {q : String} (h : AddsName q name p) (base : String) :
    AddsName (join base q) name (join base p) := by
  cases hq : Path.isAbsolute q with
  | true => rwa [join_of_isAbsolute hq, join_of_isAbsolute (h.isAbsolute.trans hq)]
  | false =>
    have hp := h.isAbsolute.trans hq
    refine ⟨h.isName, ?_, ?_⟩
    · rw [isAbsolute_join hp, isAbsolute_join hq]
    · rw [pieces_join hp, pieces_join hq, h.pieces, List.append_assoc]

end Path

/-! ## Walks -/

namespace Files

/-- Where some steps lead to from a place, by their names alone. -/
def walk (place steps : List String) : List String :=
  steps.foldl
    (fun place step ↦
      if step = "." then place else if step = ".." then place.dropLast else place ++ [step]) place

@[simp] theorem walk_nil (place : List String) : walk place [] = place := rfl

@[simp] theorem walk_dot (place steps : List String) :
    walk place ("." :: steps) = walk place steps :=
  rfl

@[simp] theorem walk_dots (place steps : List String) :
    walk place (".." :: steps) = walk place.dropLast steps :=
  rfl

theorem walk_name {step : String} (hdot : step ≠ ".") (hdots : step ≠ "..")
    (place steps : List String) : walk place (step :: steps) = walk (place ++ [step]) steps := by
  rw [walk, List.foldl_cons, if_neg hdot, if_neg hdots]
  rfl

theorem walk_append (place steps steps' : List String) :
    walk place (steps ++ steps') = walk (walk place steps) steps' :=
  List.foldl_append

theorem walk_cons (place : List String) (step : String) (steps : List String) :
    walk place (step :: steps) = walk (walk place [step]) steps :=
  walk_append place [step] steps

variable (fs : Files)

/-- Where a path starts. -/
def start (path : String) : List String := if Path.isAbsolute path then [] else fs.home

theorem place_eq_walk (path : String) :
    fs.place path = walk (fs.start path) (Path.pieces path) := by
  rw [place, Path.steps, List.foldl_filter]
  refine congrArg (fun f ↦ List.foldl f _ _) (funext fun place ↦ funext fun step ↦ ?_)
  simp only [bne_iff_ne, beq_iff_eq, ne_eq, ite_not]

theorem start_congr {fs fs' : Files} (h : fs'.home = fs.home) (path : String) :
    fs'.start path = fs.start path := by
  rw [start, start, h]

theorem place_congr {fs fs' : Files} (h : fs'.home = fs.home) (path : String) :
    fs'.place path = fs.place path := by
  rw [place_eq_walk, place_eq_walk, start_congr h]

theorem start_addsName {q name p : String} (h : Path.AddsName q name p) :
    fs.start p = fs.start q := by
  rw [start, start, h.isAbsolute]

/-- What a path adds to another one by a name lies in the place of the other one. -/
theorem place_addsName {q name p : String} (h : Path.AddsName q name p) :
    fs.place p = fs.place q ++ [name] := by
  rw [place_eq_walk, place_eq_walk, fs.start_addsName h, h.pieces, walk_append,
    walk_name h.isName.ne_dot h.isName.ne_dots]
  rfl

end Files

end Workflow
