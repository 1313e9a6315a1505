import Mathlib.Data.List.Find
import Workflow.Artifact
import Workflow.Proofs.Files.Finding

/-!
# Looking up artifacts

`Tiers.Answer` says what a look-up answers without any search: a name that could lead elsewhere is
refused, and otherwise the first file among the candidates counts, or the candidates are listed as
missing. The candidates are all files of their own names directly in the folder of the kind in one
of the tiers, the project's first. So as long as the project has a file of the name, what happens to
files anywhere else is of no account: `Tiers.resolve_eq_of_inProject`.
-/

namespace Workflow

namespace ArtifactKind

variable (kind : ArtifactKind) {extension : String}

theorem isName_folder : Path.IsName kind.folder := by
  cases kind <;> exact ⟨by decide, by decide, by decide, by decide⟩

theorem of_mem_extensions (h : extension ∈ kind.extensions) :
    '/' ∉ extension.toList ∧ '\x00' ∉ extension.toList ∧ 2 ≤ extension.toList.length := by
  have hall : ∀ extension ∈ kind.extensions,
      '/' ∉ extension.toList ∧ '\x00' ∉ extension.toList ∧ 2 ≤ extension.toList.length := by
    cases kind <;> decide
  exact hall extension h

end ArtifactKind

namespace Tiers

variable {t : Tiers} {fs fs' : Files} {kind : ArtifactKind} {name folder extension : String}

/-! ## Names and their files -/

/-- A name that leads nowhere but to a file directly in a folder. -/
structure CanName (name : String) : Prop extends Path.IsName name where
  noBackslash : '\\' ∉ name.toList

theorem isName_eq_true_iff : isName name = true ↔ CanName name := by
  rw [isName, Bool.and_eq_true, Bool.and_eq_true, Bool.and_eq_true, bne_iff_ne, bne_iff_ne,
    bne_iff_ne, List.all_eq_true]
  constructor
  · rintro ⟨⟨⟨hempty, hdot⟩, hdots⟩, hall⟩
    have hslashes : ∀ c ∈ name.toList, c ≠ '/' ∧ c ≠ '\\' := by simpa using hall
    exact ⟨⟨fun h ↦ (hslashes _ h).1 rfl, hempty, hdot, hdots⟩, fun h ↦ (hslashes _ h).2 rfl⟩
  · rintro ⟨⟨hslash, hempty, hdot, hdots⟩, hback⟩
    refine ⟨⟨⟨hempty, hdot⟩, hdots⟩, fun c hc ↦ ?_⟩
    have hne : c ≠ '/' ∧ c ≠ '\\' := ⟨fun h ↦ hslash (h ▸ hc), fun h ↦ hback (h ▸ hc)⟩
    simpa using hne

def fileOf (name extension : String) : String := name ++ "." ++ extension

theorem toList_fileOf (name extension : String) :
    (fileOf name extension).toList = name.toList ++ '.' :: extension.toList := by
  rw [fileOf, String.toList_append, String.toList_append, List.append_assoc]
  rfl

theorem isName_fileOf (h : CanName name) (hext : extension ∈ kind.extensions) :
    Path.IsName (fileOf name extension) := by
  obtain ⟨hslash, -, hlen⟩ := kind.of_mem_extensions hext
  have hlong {s : String} (hs : s.toList.length ≤ 2) : fileOf name extension ≠ s := by
    rintro rfl
    rw [toList_fileOf, List.length_append, List.length_cons] at hs
    omega
  refine ⟨?_, hlong (by decide), hlong (by decide), hlong (by decide)⟩
  rw [toList_fileOf, List.mem_append, List.mem_cons]
  rintro (hmem | hmem | hmem)
  · exact h.noSlash hmem
  · cases hmem
  · exact hslash hmem

def pathOf (folder : String) (kind : ArtifactKind) (file : String) : String :=
  Path.join (Path.join folder kind.folder) file

theorem candidatesIn_eq (folder : String) (kind : ArtifactKind) (name : String) :
    candidatesIn folder kind name =
      kind.extensions.map fun extension ↦ pathOf folder kind (fileOf name extension) :=
  rfl

theorem mem_candidatesIn {path : String} : path ∈ candidatesIn folder kind name ↔
    ∃ extension ∈ kind.extensions, pathOf folder kind (fileOf name extension) = path :=
  List.mem_map

/-- A file for artifacts of a kind lies directly in the folder of the kind. -/
theorem place_pathOf {file : String} (h : Path.IsName file) :
    fs.place (pathOf folder kind file) = fs.place folder ++ [kind.folder, file] := by
  rw [pathOf, Files.place_addsName fs (Path.addsName_join h _),
    Files.place_addsName fs (Path.addsName_join kind.isName_folder folder), List.append_assoc]
  rfl

theorem isFile_pathOf_iff (h : CanName name) (hext : extension ∈ kind.extensions) :
    fs.isFile (pathOf folder kind (fileOf name extension)) = true ↔
      ('\x00' ∉ (Path.join folder kind.folder).toList ∧ '\x00' ∉ name.toList) ∧
      fs.Reaches (Path.join folder kind.folder) ∧
      (fileOf name extension).utf8ByteSize ≤ Files.longestName ∧
      ∃ text, fs.get? (fs.place folder ++ [kind.folder, fileOf name extension]) =
        some (.file text) := by
  have hname := isName_fileOf h hext
  obtain ⟨hslash, hnul, hlen⟩ := kind.of_mem_extensions hext
  have hadds : Path.AddsName (Path.join folder kind.folder) (fileOf name extension)
      (pathOf folder kind (fileOf name extension)) := Path.addsName_join hname _
  have hend : Path.endsWithSlash (pathOf folder kind (fileOf name extension)) = false := by
    rw [pathOf, Path.endsWithSlash_join hname.ne_empty, Path.endsWithSlash, beq_eq_false_iff_ne]
    exact fun hlast ↦ hname.noSlash (List.mem_of_getLast? hlast)
  have hchars : '\x00' ∈ (pathOf folder kind (fileOf name extension)).toList ↔
      '\x00' ∈ (Path.join folder kind.folder).toList ∨ '\x00' ∈ name.toList := by
    have hdot : '\x00' ≠ '.' := by decide
    rw [pathOf, Path.mem_join (by decide) (Path.isAbsolute_name hname.noSlash), toList_fileOf,
      List.mem_append, List.mem_cons, or_iff_left (not_or.2 ⟨hdot, hnul⟩)]
  rw [Files.isFile_iff hadds hend, hchars, not_or, place_pathOf hname]

/-! ## The order of the candidates -/

/-- The folders of the tiers, in the order in which they are searched. -/
def folders (t : Tiers) : List (Tier × String) :=
  (.project, t.project) :: t.builtin.toList.map (.builtin, ·)

theorem candidates_eq (t : Tiers) (kind : ArtifactKind) (name : String) :
    t.candidates kind name = t.folders.flatMap fun (tier, folder) ↦
      kind.extensions.map fun extension ↦ (tier, pathOf folder kind (fileOf name extension)) := by
  rw [candidates, folders, List.flatMap_cons, candidatesIn_eq, List.map_map]
  cases t.builtin with
  | none => rfl
  | some folder =>
    simp only [Option.toList_some, List.flatMap_singleton, candidatesIn_eq, List.map_map,
      List.map_singleton]
    rfl

/-! ## The answer -/

theorem resolve_of_not_canName (h : ¬CanName name) :
    t.resolve fs kind name = .error (.invalidName kind name) := by
  have hname : isName name = false := Bool.eq_false_iff.2 fun h' ↦ h (isName_eq_true_iff.1 h')
  rw [resolve, hname]
  rfl

theorem resolve_of_find?_eq_some {tier : Tier} {path : String} (h : CanName name)
    (hfind : (t.candidates kind name).find? (fun c ↦ fs.isFile c.2) = some (tier, path)) :
    t.resolve fs kind name = .ok ⟨Path.complete fs.homePath path, tier⟩ := by
  rw [resolve, isName_eq_true_iff.2 h, Bool.not_true, if_neg Bool.false_ne_true]
  dsimp only
  rw [hfind]

theorem resolve_of_find?_eq_none (h : CanName name)
    (hfind : (t.candidates kind name).find? (fun c ↦ fs.isFile c.2) = none) :
    t.resolve fs kind name =
      .error (.notFound kind name ((t.candidates kind name).map (·.2))) := by
  rw [resolve, isName_eq_true_iff.2 h, Bool.not_true, if_neg Bool.false_ne_true]
  dsimp only
  rw [hfind]

/-- What a look-up answers. -/
inductive Answer (t : Tiers) (fs : Files) (kind : ArtifactKind) (name : String) :
    Except ResolutionError Resolution → Prop where
  | refused (h : ¬CanName name) : Answer t fs kind name (.error (.invalidName kind name))
  | found {before after : List (Tier × String)} {tier : Tier} {path : String} (h : CanName name)
      (hcandidates : t.candidates kind name = before ++ (tier, path) :: after)
      (hbefore : ∀ c ∈ before, fs.isFile c.2 = false) (hpath : fs.isFile path = true) :
      Answer t fs kind name (.ok ⟨Path.complete fs.homePath path, tier⟩)
  | missing (h : CanName name) (hall : ∀ c ∈ t.candidates kind name, fs.isFile c.2 = false) :
      Answer t fs kind name (.error (.notFound kind name ((t.candidates kind name).map (·.2))))

theorem answer_resolve (t : Tiers) (fs : Files) (kind : ArtifactKind) (name : String) :
    t.Answer fs kind name (t.resolve fs kind name) := by
  by_cases h : CanName name
  · cases hfind : (t.candidates kind name).find? (fun c ↦ fs.isFile c.2) with
    | none =>
      rw [resolve_of_find?_eq_none h hfind]
      exact .missing h (by simpa using List.find?_eq_none.1 hfind)
    | some c =>
      obtain ⟨hpath, before, after, hcandidates, hbefore⟩ := List.find?_eq_some_iff_append.1 hfind
      rw [resolve_of_find?_eq_some h hfind]
      exact .found h hcandidates (by simpa using hbefore) hpath
  · rw [resolve_of_not_canName h]
    exact .refused h

theorem answer_iff {result : Except ResolutionError Resolution} :
    t.Answer fs kind name result ↔ t.resolve fs kind name = result := by
  constructor
  · intro h
    cases h with
    | refused h => exact resolve_of_not_canName h
    | found h hcandidates hbefore hpath =>
      refine resolve_of_find?_eq_some h (List.find?_eq_some_iff_append.2 ?_)
      exact ⟨hpath, _, _, hcandidates, by simpa using hbefore⟩
    | missing h hall =>
      exact resolve_of_find?_eq_none h (List.find?_eq_none.2 (by simpa using hall))
  · rintro rfl
    exact answer_resolve t fs kind name

/-! ## Where the candidates lie -/

theorem exists_of_mem_candidates {c : Tier × String} (h : c ∈ t.candidates kind name) :
    ∃ folder extension, (c.1, folder) ∈ t.folders ∧ extension ∈ kind.extensions ∧
      c.2 = pathOf folder kind (fileOf name extension) := by
  rw [candidates_eq] at h
  obtain ⟨⟨tier, folder⟩, hfolder, h⟩ := List.mem_flatMap.1 h
  obtain ⟨extension, hext, rfl⟩ := List.mem_map.1 h
  exact ⟨folder, extension, hfolder, hext, rfl⟩

/-! ## The project comes first -/

/-- Whether the project has a file of a name. -/
def InProject (t : Tiers) (fs : Files) (kind : ArtifactKind) (name : String) : Prop :=
  ∃ path ∈ candidatesIn t.project kind name, fs.isFile path = true

/-- Whether the same lies directly in the project's folder for a kind. -/
def SameInProject (t : Tiers) (kind : ArtifactKind) (fs fs' : Files) : Prop :=
  ∀ file, fs'.get? (fs.place t.project ++ [kind.folder, file]) =
    fs.get? (fs.place t.project ++ [kind.folder, file])

theorem InProject.of_foldersStay (h : t.InProject fs kind name) (hname : CanName name)
    (hhome : fs'.home = fs.home) (hstay : fs.FoldersStay fs')
    (hsame : t.SameInProject kind fs fs') : t.InProject fs' kind name := by
  obtain ⟨path, hmem, hfile⟩ := h
  obtain ⟨extension, hext, rfl⟩ := mem_candidatesIn.1 hmem
  refine ⟨_, hmem, ?_⟩
  rw [isFile_pathOf_iff hname hext] at hfile ⊢
  obtain ⟨hnul, hreach, hshort, text, hget⟩ := hfile
  refine ⟨hnul, hreach.of_foldersStay hstay hhome, hshort, text, ?_⟩
  rw [Files.place_congr hhome]
  exact (hsame _).trans hget

theorem isFile_congr_of_inProject (hname : CanName name) (hhome : fs'.home = fs.home)
    (hsame : t.SameInProject kind fs fs')
    (h : t.InProject fs kind name) (h' : t.InProject fs' kind name) {path : String}
    (hpath : path ∈ candidatesIn t.project kind name) : fs'.isFile path = fs.isFile path := by
  have hreach {fs : Files} (h : t.InProject fs kind name) :
      fs.Reaches (Path.join t.project kind.folder) := by
    obtain ⟨path, hmem, hfile⟩ := h
    obtain ⟨extension, hext, rfl⟩ := mem_candidatesIn.1 hmem
    exact ((isFile_pathOf_iff hname hext).1 hfile).2.1
  obtain ⟨extension, hext, rfl⟩ := mem_candidatesIn.1 hpath
  rw [Bool.eq_iff_iff, isFile_pathOf_iff hname hext, isFile_pathOf_iff hname hext,
    Files.place_congr hhome, hsame, iff_true_intro (hreach h), iff_true_intro (hreach h')]

theorem exists_resolve_of_inProject (hname : CanName name) (h : t.InProject fs kind name) :
    ∃ path, (candidatesIn t.project kind name).find? fs.isFile = some path ∧
      t.resolve fs kind name = .ok ⟨Path.complete fs.homePath path, .project⟩ := by
  obtain ⟨path, hmem, hfile⟩ := h
  have hsome : ((candidatesIn t.project kind name).find? fs.isFile).isSome = true :=
    List.find?_isSome.2 ⟨path, hmem, hfile⟩
  obtain ⟨first, hfirst⟩ := Option.isSome_iff_exists.1 hsome
  refine ⟨first, hfirst, resolve_of_find?_eq_some hname ?_⟩
  rw [candidates, List.find?_append, List.find?_map]
  exact congrArg (fun r ↦ Option.or (Option.map (Tier.project, ·) r) _) hfirst

/-- **The project first.** While the project has a file of a name, a look-up depends on nothing but
what lies directly in the project's folder for the kind. -/
theorem resolve_eq_of_inProject {t' : Tiers} (hproject : t'.project = t.project)
    (hname : CanName name) (hhome : fs'.home = fs.home)
    (hsame : t.SameInProject kind fs fs')
    (h : t.InProject fs kind name) (hstay : fs.FoldersStay fs' ∨ t.InProject fs' kind name) :
    t'.resolve fs' kind name = t.resolve fs kind name := by
  have h' : t.InProject fs' kind name := by
    rcases hstay with hstay | h'
    · exact h.of_foldersStay hname hhome hstay hsame
    · exact h'
  have hfirst : (candidatesIn t.project kind name).find? fs'.isFile =
      (candidatesIn t.project kind name).find? fs.isFile := by
    refine List.find?_congr fun path hpath ↦ ?_
    exact isFile_congr_of_inProject hname hhome hsame h h' hpath
  obtain ⟨path, hpath, hresolve⟩ := exists_resolve_of_inProject hname h
  have hin : t'.InProject fs' kind name := by
    rw [InProject, hproject]
    exact h'
  obtain ⟨path', hpath', hresolve'⟩ := exists_resolve_of_inProject hname hin
  rw [hproject, hfirst, hpath] at hpath'
  cases hpath'
  rw [hresolve, hresolve', Files.homePath, hhome, ← Files.homePath]

/-- A result is the path from the root of a file directly in the folder of the kind in its tier. -/
theorem exists_of_resolve_eq_ok {r : Resolution} (h : t.resolve fs kind name = .ok r)
    (hhome : ∀ n ∈ fs.home, Path.IsName n) :
    ∃ folder extension text, (r.tier, folder) ∈ t.folders ∧ extension ∈ kind.extensions ∧
      Path.isAbsolute r.path = true ∧
      fs.place r.path = fs.place folder ++ [kind.folder, fileOf name extension] ∧
      fs.get? (fs.place r.path) = some (.file text) := by
  cases answer_iff.2 h with
  | found hname hcandidates hbefore hpath =>
    have hmem := hcandidates ▸ List.mem_append_right _ List.mem_cons_self
    obtain ⟨folder, extension, hfolder, hext, rfl⟩ := exists_of_mem_candidates hmem
    obtain ⟨-, -, -, text, hget⟩ := (isFile_pathOf_iff hname hext).1 hpath
    rw [Files.place_complete hhome, place_pathOf (isName_fileOf hname hext)]
    dsimp only
    exact ⟨folder, extension, text, hfolder, hext, Files.isAbsolute_complete fs _, rfl, hget⟩

/-- **Looking up.** A look-up has the answer that the candidates in their order determine. All of
them, and so the path of a result, lie directly in the folder of the kind in their tier. While the
project has a file of the name, neither another built-in tier nor any change to files makes a
difference that leaves alone what lies directly in the project's folder; folders may go away too if
the project still has a file of the name afterwards. -/
theorem resolve_first (t : Tiers) (fs : Files) (kind : ArtifactKind) (name : String) :
    (∀ result, t.resolve fs kind name = result ↔ t.Answer fs kind name result) ∧
    (t.candidates kind name = t.folders.flatMap fun (tier, folder) ↦
      kind.extensions.map fun extension ↦ (tier, pathOf folder kind (fileOf name extension))) ∧
    (CanName name → ∀ c ∈ t.candidates kind name, ∃ folder extension,
      (c.1, folder) ∈ t.folders ∧ extension ∈ kind.extensions ∧
      fs.place c.2 = fs.place folder ++ [kind.folder, fileOf name extension]) ∧
    (∀ r, t.resolve fs kind name = .ok r → (∀ n ∈ fs.home, Path.IsName n) →
      ∃ folder extension text, (r.tier, folder) ∈ t.folders ∧ extension ∈ kind.extensions ∧
        Path.isAbsolute r.path = true ∧
        fs.place r.path = fs.place folder ++ [kind.folder, fileOf name extension] ∧
        fs.get? (fs.place r.path) = some (.file text)) ∧
    ∀ (fs' : Files) (builtin : Option String), CanName name → fs'.home = fs.home →
      t.SameInProject kind fs fs' → t.InProject fs kind name →
      fs.FoldersStay fs' ∨ t.InProject fs' kind name →
      Tiers.resolve ⟨t.project, builtin⟩ fs' kind name = t.resolve fs kind name := by
  refine ⟨fun result ↦ answer_iff.symm, candidates_eq t kind name, fun hname c hc ↦ ?_, ?_, ?_⟩
  · obtain ⟨folder, extension, hfolder, hext, hpath⟩ := exists_of_mem_candidates hc
    refine ⟨folder, extension, hfolder, hext, ?_⟩
    rw [hpath, place_pathOf (isName_fileOf hname hext)]
  · exact fun r h hhome ↦ exists_of_resolve_eq_ok h hhome
  · exact fun fs' builtin hname hhome hsame h hstay ↦
      resolve_eq_of_inProject rfl hname hhome hsame h hstay

/-! ## A workflow in both tiers -/

def harbour : Tiers := ⟨"project", some "builtin"⟩

/-- The project has a workflow under the second extension. -/
def harbourFiles : Files where
  home := ["work"]
  entries := [(["work"], .folder), (["work", "project"], .folder),
    (["work", "project", "workflows"], .folder),
    (["work", "project", "workflows", "ship.yml"], .file "name: ship"),
    (["work", "builtin"], .folder), (["work", "builtin", "workflows"], .folder)]

def builtinShip : List String := ["work", "builtin", "workflows", "ship.yaml"]

/-- A built-in workflow of the same name, under the first extension, is of no account. -/
theorem resolve_harbour :
    CanName "ship" ∧ harbour.InProject harbourFiles .workflow "ship" ∧
    (∀ n ∈ harbourFiles.home, Path.IsName n) ∧
    harbour.SameInProject .workflow harbourFiles
      (harbourFiles.put builtinShip (.file "name: other")) ∧
    harbour.resolve harbourFiles .workflow "ship" =
      .ok ⟨"/work/project/workflows/ship.yml", .project⟩ ∧
    harbour.resolve (harbourFiles.put builtinShip (.file "name: other")) .workflow "ship" =
      .ok ⟨"/work/project/workflows/ship.yml", .project⟩ := by
  have hname : CanName "ship" := isName_eq_true_iff.1 (by decide +kernel)
  have hin : harbour.InProject harbourFiles .workflow "ship" :=
    ⟨"project/workflows/ship.yml", by decide +kernel, by decide +kernel⟩
  have hhome : ∀ n ∈ harbourFiles.home, Path.IsName n := by
    intro n hn
    rw [List.mem_singleton.1 hn]
    exact ⟨by decide, by decide, by decide, by decide⟩
  have hplace : harbourFiles.place harbour.project = ["work", "project"] := by decide +kernel
  have hsame : harbour.SameInProject .workflow harbourFiles
      (harbourFiles.put builtinShip (.file "name: other")) := by
    intro file
    refine Files.get?_put_of_ne ?_
    rw [hplace]
    simp [builtinShip, ArtifactKind.folder]
  have hresolve : harbour.resolve harbourFiles .workflow "ship" =
      .ok ⟨"/work/project/workflows/ship.yml", .project⟩ := by decide +kernel
  have hstay : harbourFiles.FoldersStay (harbourFiles.put builtinShip (.file "name: other")) :=
    Files.foldersStay_put (by decide +kernel) _
  obtain ⟨-, -, -, -, hproject⟩ := resolve_first harbour harbourFiles .workflow "ship"
  exact ⟨hname, hin, hhome, hsame, hresolve,
    (hproject (harbourFiles.put builtinShip (.file "name: other")) harbour.builtin hname rfl hsame
      hin (.inl hstay)).trans hresolve⟩

end Tiers

end Workflow
