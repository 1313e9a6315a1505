import Workflow.Proofs.Except
import Workflow.Proofs.Files.Place

/-!
# Making folders and writing files

Folders are made one after another on the way along a path. Each step does one of two things: it
finds a folder or puts a new one where nothing was. So all that is new are folders on the way, and
if everything above the start is a folder then the path can be followed afterwards:
`Files.grows_of_makeFolder` and `Files.follow_of_makeFolder`.

A file is written if its name is one and what stands before the name leads to a folder, as
`Files.write_eq_ok_iff` says; nothing else changes.
-/

namespace Workflow.Files

variable {fs fs' : Files} {place q : List String} {step : String} {steps : List String} {e : Entry}

/-! ## Entries -/

theorem lookup_filter_ne (entries : List (List String × Entry)) (h : q ≠ place) :
    (entries.filter fun x ↦ x.1 != place).lookup q = entries.lookup q := by
  induction entries with
  | nil => rfl
  | cons x entries ih =>
    obtain ⟨p, e⟩ := x
    by_cases hp : p = place
    · subst hp
      rw [List.filter_cons_of_neg (by simp), ih, List.lookup_cons, beq_eq_false_iff_ne.2 h]
    · rw [List.filter_cons_of_pos (by simpa using hp), List.lookup_cons, List.lookup_cons, ih]

theorem get?_put_self (h : place ≠ []) : (fs.put place e).get? place = some e := by
  rw [get?, if_neg (by simpa using h), put, List.lookup_cons, beq_self_eq_true]

theorem get?_put_of_ne (h : q ≠ place) : (fs.put place e).get? q = fs.get? q := by
  rw [get?, get?, put, List.lookup_cons, beq_eq_false_iff_ne.2 h]
  dsimp only
  rw [lookup_filter_ne _ h]

/-- Everything from the root to a place is a folder. -/
def Open (fs : Files) (place : List String) : Prop := ∀ q, q <+: place → fs.get? q = some .folder

theorem open_nil (fs : Files) : fs.Open [] := by
  intro q hq
  rw [List.prefix_nil.1 hq]
  rfl

theorem Open.get? (h : fs.Open place) : fs.get? place = some .folder := h place List.prefix_rfl

theorem Open.dropLast (h : fs.Open place) : fs.Open place.dropLast :=
  fun q hq ↦ h q (hq.trans (List.dropLast_prefix place))

theorem Open.append (h : fs.Open place) (hstep : fs.get? (place ++ [step]) = some .folder) :
    fs.Open (place ++ [step]) := by
  intro q hq
  rcases List.prefix_concat_iff.1 hq with rfl | hq
  · exact hstep
  · exact h q hq

/-! ## New folders -/

/-- Folders at some places, where nothing was before, are all that is new. -/
structure Grows (fs fs' : Files) (new : List String → Prop) : Prop where
  home : fs'.home = fs.home
  get? : ∀ q, fs'.get? q = fs.get? q ∨ fs.get? q = none ∧ fs'.get? q = some .folder ∧ new q

theorem Grows.refl (fs : Files) (new : List String → Prop) : fs.Grows fs new :=
  ⟨rfl, fun _ ↦ .inl rfl⟩

theorem Grows.trans {fs₁ : Files} {new new₁ : List String → Prop} (h : fs.Grows fs₁ new)
    (h₁ : fs₁.Grows fs' new₁) : fs.Grows fs' fun q ↦ new q ∨ new₁ q := by
  refine ⟨h₁.home.trans h.home, fun q ↦ ?_⟩
  rcases h.get? q with hsame | ⟨hnone, hfolder, hq⟩
  · rw [← hsame]
    exact (h₁.get? q).imp_right fun ⟨hnone, hfolder, hq⟩ ↦ ⟨hnone, hfolder, .inr hq⟩
  · right
    refine ⟨hnone, ?_, .inl hq⟩
    rcases h₁.get? q with hsame | ⟨-, hfolder₁, -⟩
    · exact hsame.trans hfolder
    · exact hfolder₁

theorem Grows.mono {new new' : List String → Prop} (h : fs.Grows fs' new)
    (hnew : ∀ q, new q → new' q) : fs.Grows fs' new' :=
  ⟨h.home, fun q ↦ (h.get? q).imp_right fun ⟨hnone, hfolder, hq⟩ ↦ ⟨hnone, hfolder, hnew q hq⟩⟩

theorem Grows.folder {new : List String → Prop} (h : fs.Grows fs' new)
    (hq : fs.get? q = some .folder) : fs'.get? q = some .folder := by
  rcases h.get? q with hsame | ⟨-, hfolder, -⟩
  · exact hsame.trans hq
  · exact hfolder

theorem Open.grow {new : List String → Prop} (h : fs.Open place) (hgrows : fs.Grows fs' new) :
    fs'.Open place := fun q hq ↦ hgrows.folder (h q hq)

theorem grows_put (h : fs.get? place = none) :
    fs.Grows (fs.put place .folder) (· = place) := by
  refine ⟨rfl, fun q ↦ ?_⟩
  by_cases hq : q = place
  · subst hq
    have hne : q ≠ [] := by
      rintro rfl
      cases h
    exact .inr ⟨h, get?_put_self hne, rfl⟩
  · exact .inl (get?_put_of_ne hq)

/-! ## Steps along a path -/

/-- The places that steps lead through. -/
def OnWay (place steps : List String) (q : List String) : Prop :=
  ∃ before, before <+: steps ∧ q = walk place before

theorem OnWay.cons (h : OnWay (walk place [step]) steps q) : OnWay place (step :: steps) q := by
  obtain ⟨before, hbefore, rfl⟩ := h
  exact ⟨step :: before, List.cons_prefix_cons.2 ⟨rfl, hbefore⟩, (walk_cons _ _ _).symm⟩

theorem exists_of_makeSteps_cons {r : Files × List String}
    (h : fs.makeSteps place (step :: steps) = .ok r) :
    step.utf8ByteSize ≤ longestName ∧
    ∃ fs₁ : Files, fs₁.makeSteps (walk place [step]) steps = .ok r ∧
      fs.Grows fs₁ (· = walk place [step]) ∧ (fs.Open place → fs₁.Open (walk place [step])) := by
  rw [makeSteps] at h
  by_cases hdot : step = "."
  · subst hdot
    rw [walk_dot, walk_nil]
    exact ⟨by decide, fs, h, Grows.refl _ _, id⟩
  by_cases hdots : step = ".."
  · subst hdots
    rw [walk_dots, walk_nil]
    exact ⟨by decide, fs, h, Grows.refl _ _, Open.dropLast⟩
  have hwalk : walk place [step] = place ++ [step] := walk_name hdot hdots place []
  rw [if_neg (by simpa using hdot), if_neg (by simpa using hdots)] at h
  rw [hwalk]
  split at h
  · cases h
  · next hshort =>
    refine ⟨Nat.le_of_not_lt hshort, ?_⟩
    dsimp only at h
    split at h
    · cases h
    · next hfolder => exact ⟨fs, h, Grows.refl _ _, fun hopen ↦ hopen.append hfolder⟩
    · next hnone =>
      have hgrows := grows_put hnone
      refine ⟨_, h, hgrows, fun hopen ↦ (hopen.grow hgrows).append ?_⟩
      exact get?_put_self (List.append_ne_nil_of_right_ne_nil _ (List.cons_ne_nil _ _))

theorem grows_of_makeSteps {place' : List String}
    (h : fs.makeSteps place steps = .ok (fs', place')) : fs.Grows fs' (OnWay place steps) := by
  induction steps generalizing fs place with
  | nil =>
    cases h
    exact Grows.refl _ _
  | cons step steps ih =>
    obtain ⟨-, fs₁, h₁, hgrows, -⟩ := exists_of_makeSteps_cons h
    refine (hgrows.trans (ih h₁)).mono fun q hq ↦ ?_
    rcases hq with rfl | hq
    · exact OnWay.cons ⟨[], List.nil_prefix, rfl⟩
    · exact hq.cons

theorem follow_cons (h : fs.get? place = some .folder) (step : String) (steps : List String) :
    fs.follow place (step :: steps) =
      if longestName < step.utf8ByteSize then .error .nameTooLong
      else fs.follow (walk place [step]) steps := by
  rw [follow, h]
  dsimp only
  by_cases hdot : step = "."
  · subst hdot
    rfl
  by_cases hdots : step = ".."
  · subst hdots
    rfl
  rw [if_neg (by simpa using hdot), if_neg (by simpa using hdots), walk_name hdot hdots, walk_nil]

theorem follow_of_makeSteps {place' : List String}
    (h : fs.makeSteps place steps = .ok (fs', place')) (hopen : fs.Open place) :
    fs'.follow place steps = .ok (walk place steps, .folder) := by
  induction steps generalizing fs place with
  | nil =>
    cases h
    rw [follow, hopen.get?]
    rfl
  | cons step steps ih =>
    obtain ⟨hshort, fs₁, h₁, hgrows, hopen₁⟩ := exists_of_makeSteps_cons h
    have hplace : fs'.get? place = some .folder :=
      (hopen.grow (hgrows.trans (grows_of_makeSteps h₁))).get?
    rw [follow_cons hplace, if_neg (Nat.not_lt.2 hshort), walk_cons]
    exact ih h₁ (hopen₁ hopen)

theorem follow_nil_eq_ok_iff :
    fs.follow place [] = .ok (q, e) ↔ q = place ∧ fs.get? place = some e := by
  rw [follow]
  cases fs.get? place with
  | none => exact ⟨nofun, fun h ↦ nomatch h.2⟩
  | some e' =>
    constructor
    · intro h
      cases h
      exact ⟨rfl, rfl⟩
    · rintro ⟨rfl, h⟩
      cases h
      rfl

theorem get?_of_follow_cons {r : List String × Entry}
    (h : fs.follow place (step :: steps) = .ok r) : fs.get? place = some .folder := by
  rw [follow] at h
  split at h
  · cases h
  · cases h
  · assumption

theorem follow_eq_ok {r : List String × Entry} (h : fs.follow place steps = .ok r) :
    r.1 = walk place steps := by
  induction steps generalizing place with
  | nil => exact (follow_nil_eq_ok_iff.1 h).1
  | cons step steps ih =>
    rw [follow_cons (get?_of_follow_cons h)] at h
    split at h
    · cases h
    · rw [walk_cons]
      exact ih h

/-! ## Paths -/

theorem notMem_of_makeFolder {path : String} (h : fs.makeFolder path = .ok fs') :
    '\x00' ∉ path.toList := by
  rw [makeFolder] at h
  split at h
  · cases h
  · next hnul => exact fun hmem ↦ hnul (List.contains_iff_mem.2 hmem)

theorem exists_of_makeFolder {path : String} (h : fs.makeFolder path = .ok fs') :
    ∃ place', fs.makeSteps (fs.start path) (Path.pieces path) = .ok (fs', place') := by
  rw [makeFolder] at h
  split at h
  · cases h
  · dsimp only at h
    rw [← start] at h
    cases hmade : fs.makeSteps (fs.start path) (Path.pieces path) with
    | error e =>
      rw [hmade] at h
      cases h
    | ok r =>
      rw [hmade] at h
      cases h
      exact ⟨r.2, rfl⟩

theorem grows_of_makeFolder {path : String} (h : fs.makeFolder path = .ok fs') :
    fs.Grows fs' (OnWay (fs.start path) (Path.pieces path)) := by
  obtain ⟨_, hmade⟩ := exists_of_makeFolder h
  exact grows_of_makeSteps hmade

theorem open_start (h : fs.Open fs.home) (path : String) : fs.Open (fs.start path) := by
  rw [start]
  split
  · exact open_nil fs
  · exact h

theorem follow_of_makeFolder {path : String} (h : fs.makeFolder path = .ok fs')
    (hhome : fs.Open fs.home) :
    fs'.follow (fs.start path) (Path.pieces path) = .ok (fs.place path, .folder) := by
  obtain ⟨_, hmade⟩ := exists_of_makeFolder h
  rw [place_eq_walk]
  exact follow_of_makeSteps hmade (open_start hhome path)

theorem write_eq_ok_iff {folder name path text : String} (h : Path.AddsName folder name path)
    (hslash : Path.endsWithSlash path = false) :
    fs.write path text = .ok fs' ↔
      '\x00' ∉ path.toList ∧
      fs.follow (fs.start folder) (Path.pieces folder) = .ok (fs.place folder, .folder) ∧
      name.utf8ByteSize ≤ longestName ∧ fs.get? (fs.place path) ≠ some .folder ∧
      fs' = fs.put (fs.place path) (.file text) := by
  have hreverse : (Path.pieces path).reverse = name :: (Path.pieces folder).reverse := by
    rw [h.pieces, List.reverse_append]
    rfl
  have hname : (name == "." || name == ".." || Path.endsWithSlash path) = false := by
    rw [hslash, beq_eq_false_iff_ne.2 h.isName.ne_dot, beq_eq_false_iff_ne.2 h.isName.ne_dots]
    rfl
  have hstart : (if Path.isAbsolute path then [] else fs.home) = fs.start folder :=
    fs.start_addsName h
  rw [write, hreverse, place_addsName fs h]
  dsimp only
  rw [hname, if_neg Bool.false_ne_true, List.reverse_reverse, hstart]
  by_cases hnul : '\x00' ∈ path.toList
  · rw [if_pos (List.contains_iff_mem.2 hnul)]
    exact ⟨nofun, fun hok ↦ absurd hnul hok.1⟩
  rw [if_neg (fun hmem ↦ hnul (List.contains_iff_mem.1 hmem))]
  cases hfollow : fs.follow (fs.start folder) (Path.pieces folder) with
  | error e => exact ⟨nofun, fun hok ↦ nomatch hok.2.1⟩
  | ok r =>
    obtain ⟨place, entry⟩ := r
    obtain rfl : place = fs.place folder := by
      rw [place_eq_walk]
      exact follow_eq_ok hfollow
    cases entry with
    | file old => exact ⟨nofun, fun hok ↦ nomatch hok.2.1⟩
    | folder =>
      simp only [hnul, not_false_eq_true, true_and]
      change (if _ then _ else _) = _ ↔ _
      by_cases hlong : longestName < name.utf8ByteSize
      · rw [if_pos hlong]
        exact ⟨nofun, fun hok ↦ absurd hlong (Nat.not_lt.2 hok.1)⟩
      rw [if_neg hlong]
      split
      · next hfolder => exact ⟨nofun, fun hok ↦ absurd hfolder hok.2.1⟩
      · next hfolder =>
        constructor
        · intro hok
          cases hok
          exact ⟨Nat.le_of_not_lt hlong, hfolder, rfl⟩
        · rintro ⟨-, -, rfl⟩
          rfl

end Workflow.Files
