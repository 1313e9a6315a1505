import Workflow.Checkpoint.Store
import Workflow.Proofs.Definition.RoundTrip
import Workflow.Proofs.Files.Making
import Workflow.Proofs.Uuid

/-!
# Where checkpoints are saved

The file of a run is named after its workflow, and all that is asked of the name of a workflow is
that it is not blank. A name without a slash gives a file in the folder of the store itself. Any
other name gives a path of several pieces, so its file lies wherever the part before the last slash
leads to from there, if there is such a folder at all. `Store.holds_and_save` says so of all
names.
-/

namespace Workflow

/-! ## Names of workflows -/

def onlyStep : Step := .code { name := "only", handler := "only" }

/-- A small workflow of any name. -/
def smallDefinition (name : String) : Definition where
  name := name
  version := "1"
  defaults := {}
  safety := none
  phases := [onlyStep]

theorem valid_smallDefinition {name : String} (h : Text.isBlankText name = false) :
    (smallDefinition name).Valid id where
  name := h
  version := (by decide : Text.isBlankText "1" = false)
  fits _ hs := nomatch hs
  limits _ hs := nomatch hs
  nonempty := List.cons_ne_nil _ _
  distinct := List.nodup_singleton _
  steps := by
    have honly : Text.isBlankText "only" = false := by decide
    exact List.forall_mem_singleton.2 (.code ⟨honly, honly, nofun, ⟨nofun, nofun⟩⟩)

/-- Any name that is not blank is the name of a workflow. -/
theorem exists_validate_iff {name : String} :
    (∃ v d, Definition.validate v = .ok d ∧ d.name = name) ↔ Text.isBlankText name = false := by
  constructor
  · rintro ⟨v, d, hd, rfl⟩
    exact (Definition.valid_of_validate Json.Value.rearranges_id rfl hd).name
  · intro h
    have hvalid := valid_smallDefinition h
    exact ⟨_, _, Definition.validate_toValue Json.Value.rearranges_id hvalid, rfl⟩

namespace Checkpoint.Store

/-! ## Names of files -/

theorem toList_fileName (workflow : String) (id : Uuid) :
    (fileName workflow id).toList =
      workflow.toList ++ ('-' :: id.text.toList ++ ".json".toList) := by
  simp [fileName, String.toList_append]

theorem fileName_ne {t : String} (h : '-' ∉ t.toList) (workflow : String) (id : Uuid) :
    fileName workflow id ≠ t := by
  rintro rfl
  rw [toList_fileName] at h
  simp at h

theorem isName_fileName {workflow : String} (h : '/' ∉ workflow.toList) (id : Uuid) :
    Path.IsName (fileName workflow id) := by
  refine ⟨?_, fileName_ne (by decide) _ _, fileName_ne (by decide) _ _, fileName_ne (by decide) _ _⟩
  rw [toList_fileName]
  simp [h, Uuid.notMem_text (.inl rfl) id]

theorem fileName_append (lead last : String) (id : Uuid) :
    fileName (lead ++ "/" ++ last) id = lead ++ "/" ++ fileName last id := by
  simp only [fileName, String.append_assoc]

theorem addsName_pathFor (store : Store) {workflow : String} (h : '/' ∉ workflow.toList)
    (id : Uuid) :
    Path.AddsName store.folder (fileName workflow id) (store.pathFor workflow id) :=
  Path.addsName_join (isName_fileName h id) store.folder

theorem addsName_pathFor_append (store : Store) (lead : String) {last : String}
    (h : '/' ∉ last.toList) (id : Uuid) :
    Path.AddsName (Path.join store.folder (lead ++ "/")) (fileName last id)
      (store.pathFor (lead ++ "/" ++ last) id) := by
  rw [pathFor, fileName_append]
  exact (Path.addsName_append (isName_fileName h id) lead).join store.folder

theorem exists_addsName_pathFor (store : Store) (workflow : String) (id : Uuid) :
    ∃ folder name, Path.AddsName folder name (store.pathFor workflow id) := by
  by_cases h : '/' ∈ workflow.toList
  · obtain ⟨lead, last, rfl, hlast⟩ := Path.exists_lead h
    exact ⟨_, _, store.addsName_pathFor_append lead hlast id⟩
  · exact ⟨_, _, store.addsName_pathFor h id⟩

theorem endsWithSlash_pathFor (store : Store) (workflow : String) (id : Uuid) :
    Path.endsWithSlash (store.pathFor workflow id) = false := by
  rw [pathFor, Path.endsWithSlash_join (fileName_ne (by decide) _ _), fileName,
    Path.endsWithSlash_append (by decide)]
  decide

/-- The file of a run lies in the folder of the store itself. -/
def Holds (store : Store) (fs : Files) (workflow : String) (id : Uuid) : Prop :=
  ∃ name, fs.place (store.pathFor workflow id) = fs.place store.folder ++ [name]

variable {store : Store} {fs fs₁ : Files}

theorem holds_iff {workflow : String} {id : Uuid} :
    store.Holds fs workflow id ↔
      ∀ lead last : String, workflow = lead ++ "/" ++ last → '/' ∉ last.toList →
        fs.place (Path.join store.folder (lead ++ "/")) = fs.place store.folder := by
  constructor
  · rintro ⟨name, hname⟩ lead last rfl hlast
    rw [fs.place_addsName (store.addsName_pathFor_append lead hlast id)] at hname
    exact (List.append_inj_left' hname rfl)
  · intro h
    by_cases hslash : '/' ∈ workflow.toList
    · obtain ⟨lead, last, rfl, hlast⟩ := Path.exists_lead hslash
      refine ⟨fileName last id, ?_⟩
      rw [fs.place_addsName (store.addsName_pathFor_append lead hlast id), h lead last rfl hlast]
    · exact ⟨_, fs.place_addsName (store.addsName_pathFor hslash id)⟩

/-! ## Saving -/

theorem place_pathFor_ne_nil (store : Store) (fs : Files) (workflow : String) (id : Uuid) :
    fs.place (store.pathFor workflow id) ≠ [] := by
  obtain ⟨folder, name, hadds⟩ := store.exists_addsName_pathFor workflow id
  rw [fs.place_addsName hadds]
  exact List.append_ne_nil_of_right_ne_nil _ (List.cons_ne_nil _ _)

/-- How saving can end: without the folder of the store, without the file, or with both. -/
inductive Saves (store : Store) (fs : Files) (s : SavedCheckpoint) :
    Except StoreError String × Files → Prop
  | noFolder {e : Files.Failure} : fs.makeFolder store.folder = .error e →
      Saves store fs s (.error (.createFailed store.folder), fs)
  | noFile {fs₁ : Files} : fs.makeFolder store.folder = .ok fs₁ →
      (∀ fs₂, fs₁.write (store.pathFor s.workflow s.runId) s.toValue.pretty ≠ .ok fs₂) →
      Saves store fs s (.error (.writeFailed (store.pathFor s.workflow s.runId)), fs₁)
  | saved {fs₁ fs₂ : Files} : fs.makeFolder store.folder = .ok fs₁ →
      fs₁.write (store.pathFor s.workflow s.runId) s.toValue.pretty = .ok fs₂ →
      fs₂ = fs₁.put (fs.place (store.pathFor s.workflow s.runId)) (.file s.toValue.pretty) →
      Saves store fs s (.ok (store.pathFor s.workflow s.runId), fs₂)

theorem saves_save (store : Store) (fs : Files) (s : SavedCheckpoint) :
    store.Saves fs s (store.save fs s) := by
  rw [save]
  cases hmade : fs.makeFolder store.folder with
  | error e => exact .noFolder hmade
  | ok fs₁ =>
    dsimp only
    cases hwritten : fs₁.write (store.pathFor s.workflow s.runId) s.toValue.pretty with
    | error e => exact .noFile hmade fun fs₂ hok ↦ nomatch hwritten.symm.trans hok
    | ok fs₂ =>
      obtain ⟨folder, name, hadds⟩ := store.exists_addsName_pathFor s.workflow s.runId
      have hslash := store.endsWithSlash_pathFor s.workflow s.runId
      obtain ⟨-, -, -, -, hput⟩ := (Files.write_eq_ok_iff hadds hslash).1 hwritten
      rw [Files.place_congr (Files.grows_of_makeFolder hmade).home] at hput
      exact .saved hmade hwritten hput

variable {s : SavedCheckpoint}

/-- Nothing changes but the file itself and, where nothing was before, folders on the way to that
of the store. -/
theorem get?_save {q : List String} (hq : q ≠ fs.place (store.pathFor s.workflow s.runId)) :
    (store.save fs s).2.get? q = fs.get? q ∨
      fs.get? q = none ∧ (store.save fs s).2.get? q = some .folder ∧
        Files.OnWay (fs.start store.folder) (Path.pieces store.folder) q := by
  have hsaves := store.saves_save fs s
  generalize store.save fs s = r at hsaves ⊢
  cases hsaves with
  | noFolder _ => exact .inl rfl
  | noFile hmade _ => exact (Files.grows_of_makeFolder hmade).get? q
  | saved hmade _ hput =>
    dsimp only
    rw [hput, Files.get?_put_of_ne hq]
    exact (Files.grows_of_makeFolder hmade).get? q

theorem get?_save_self {path : String} (h : (store.save fs s).1 = .ok path) :
    path = store.pathFor s.workflow s.runId ∧
      (store.save fs s).2.get? (fs.place path) = some (.file s.toValue.pretty) := by
  have hsaves := store.saves_save fs s
  generalize store.save fs s = r at hsaves h ⊢
  cases hsaves with
  | noFolder _ => cases h
  | noFile _ _ => cases h
  | saved _ _ hput =>
    cases h
    refine ⟨rfl, ?_⟩
    dsimp only
    rw [hput]
    exact Files.get?_put_self (store.place_pathFor_ne_nil fs _ _)

theorem nul_mem_pathFor {workflow : String} {id : Uuid} (hname : '/' ∉ workflow.toList)
    (hfolder : '\x00' ∉ store.folder.toList) :
    '\x00' ∈ (store.pathFor workflow id).toList ↔ '\x00' ∈ workflow.toList := by
  have hrelative := Path.isAbsolute_name (isName_fileName hname id).noSlash
  rw [pathFor, Path.mem_join (by decide) hrelative, or_iff_right hfolder, toList_fileName]
  simp [Uuid.notMem_text (.inr rfl) id]

theorem exists_write_iff (hname : '/' ∉ s.workflow.toList) (hhome : fs.Open fs.home)
    (hmade : fs.makeFolder store.folder = .ok fs₁) :
    (∃ fs₂, fs₁.write (store.pathFor s.workflow s.runId) s.toValue.pretty = .ok fs₂) ↔
      '\x00' ∉ s.workflow.toList ∧
        (fileName s.workflow s.runId).utf8ByteSize ≤ Files.longestName ∧
        fs₁.get? (fs.place (store.pathFor s.workflow s.runId)) ≠ some .folder := by
  have hadds := store.addsName_pathFor hname s.runId
  have hslash := store.endsWithSlash_pathFor s.workflow s.runId
  have hhome₁ : fs₁.home = fs.home := (Files.grows_of_makeFolder hmade).home
  have hfollow := Files.follow_of_makeFolder hmade hhome
  rw [← Files.start_congr hhome₁, ← Files.place_congr hhome₁] at hfollow
  have hnul : '\x00' ∉ (store.pathFor s.workflow s.runId).toList ↔ '\x00' ∉ s.workflow.toList :=
    not_congr (nul_mem_pathFor hname (Files.notMem_of_makeFolder hmade))
  rw [← hnul, ← Files.place_congr hhome₁]
  constructor
  · rintro ⟨fs₂, hwritten⟩
    obtain ⟨hpath, -, hshort, hfree, -⟩ := (Files.write_eq_ok_iff hadds hslash).1 hwritten
    exact ⟨hpath, hshort, hfree⟩
  · rintro ⟨hpath, hshort, hfree⟩
    exact ⟨_, (Files.write_eq_ok_iff hadds hslash).2 ⟨hpath, hfollow, hshort, hfree, rfl⟩⟩

/-- A file that lies in the folder of the store needs no other folder. -/
theorem save_eq_ok_iff (hname : '/' ∉ s.workflow.toList) (hhome : fs.Open fs.home) :
    (∃ path, (store.save fs s).1 = .ok path) ↔
      ∃ fs₁, fs.makeFolder store.folder = .ok fs₁ ∧ '\x00' ∉ s.workflow.toList ∧
        (fileName s.workflow s.runId).utf8ByteSize ≤ Files.longestName ∧
        fs₁.get? (fs.place (store.pathFor s.workflow s.runId)) ≠ some .folder := by
  have hsaves := store.saves_save fs s
  generalize store.save fs s = r at hsaves ⊢
  cases hsaves with
  | noFolder hfailed =>
    refine ⟨nofun, ?_⟩
    rintro ⟨fs₁, hmade, -⟩
    cases hfailed.symm.trans hmade
  | noFile hmade hnone =>
    refine ⟨nofun, ?_⟩
    rintro ⟨fs₁, hmade₁, hfile⟩
    cases hmade.symm.trans hmade₁
    obtain ⟨fs₂, hwritten⟩ := (exists_write_iff hname hhome hmade).2 hfile
    exact absurd hwritten (hnone fs₂)
  | saved hmade hwritten _ =>
    constructor
    · intro _
      exact ⟨_, hmade, (exists_write_iff hname hhome hmade).1 ⟨_, hwritten⟩⟩
    · intro _
      exact ⟨_, rfl⟩

/-- **Saving.** A workflow may have any name that is not blank.

The file of its run lies in the folder of the store if and only if what stands before the last
slash of the name, if there is a slash, leads from that folder back to it. That file is written, and
apart from it nothing changes but for new folders on the way to the folder of the store.

So a name without a slash gives a file in the folder. It is saved if the folder can be made and the
file has a name of its own that files can have; no other folder is needed. -/
theorem holds_and_save (store : Store) (fs : Files) (s : SavedCheckpoint) :
    ((∃ v d, Definition.validate v = .ok d ∧ d.name = s.workflow) ↔
      Text.isBlankText s.workflow = false) ∧
    (store.Holds fs s.workflow s.runId ↔
      ∀ lead last : String, s.workflow = lead ++ "/" ++ last → '/' ∉ last.toList →
        fs.place (Path.join store.folder (lead ++ "/")) = fs.place store.folder) ∧
    (∀ path, (store.save fs s).1 = .ok path → path = store.pathFor s.workflow s.runId ∧
      (store.save fs s).2.get? (fs.place path) = some (.file s.toValue.pretty)) ∧
    (∀ q, q ≠ fs.place (store.pathFor s.workflow s.runId) →
      (store.save fs s).2.get? q = fs.get? q ∨
        fs.get? q = none ∧ (store.save fs s).2.get? q = some .folder ∧
          Files.OnWay (fs.start store.folder) (Path.pieces store.folder) q) ∧
    ('/' ∉ s.workflow.toList → store.Holds fs s.workflow s.runId ∧
      (fs.Open fs.home →
        ((∃ path, (store.save fs s).1 = .ok path) ↔
          ∃ fs₁, fs.makeFolder store.folder = .ok fs₁ ∧ '\x00' ∉ s.workflow.toList ∧
            (fileName s.workflow s.runId).utf8ByteSize ≤ Files.longestName ∧
            fs₁.get? (fs.place (store.pathFor s.workflow s.runId)) ≠ some .folder))) := by
  refine ⟨exists_validate_iff, holds_iff, fun path ↦ get?_save_self, fun q ↦ get?_save,
    fun hname ↦ ⟨?_, save_eq_ok_iff hname⟩⟩
  exact ⟨_, fs.place_addsName (store.addsName_pathFor hname s.runId)⟩

/-! ### Three runs -/

def pausedId : Uuid := ⟨0x0194e090000070008000000000000001#128⟩

/-- A run of a workflow of any name that paused in its only phase. -/
def pausedRun (workflow : String) : SavedCheckpoint where
  runId := pausedId
  workflow := workflow
  pausedAt := "only"
  checkpoint := {}
  savedAt := { date := { year := 2025, month := 2, day := 8 }, second := 0 }

def homeFiles : Files where
  home := ["home"]
  entries := [(["home"], .folder)]

def homeStore : Store := ⟨"state/checkpoints"⟩

/-- Two names that are accepted. The first one leads out of the folder of the store, the second one
to a folder that is not there. -/
theorem escaped_leaves_folder :
    Definition.validate (smallDefinition "../escaped").toValue =
      .ok (smallDefinition "../escaped") ∧
    ¬homeStore.Holds homeFiles "../escaped" pausedId ∧
    (homeStore.save homeFiles (pausedRun "../escaped")).2.get?
        ["home", "state", "escaped-0194e090-0000-7000-8000-000000000001.json"] =
      some (.file (pausedRun "../escaped").toValue.pretty) ∧
    Definition.validate (smallDefinition "letters/june").toValue =
      .ok (smallDefinition "letters/june") ∧
    (homeStore.save homeFiles (pausedRun "letters/june")).1 = .error (.writeFailed
      "state/checkpoints/letters/june-0194e090-0000-7000-8000-000000000001.json") := by
  have hfile : homeFiles.place (homeStore.pathFor "../escaped" pausedId) =
      ["home", "state", "escaped-0194e090-0000-7000-8000-000000000001.json"] := by decide +kernel
  have hfolder : homeFiles.place homeStore.folder = ["home", "state", "checkpoints"] := by
    decide +kernel
  have hsaved : (homeStore.save homeFiles (pausedRun "../escaped")).1 =
      .ok (homeStore.pathFor "../escaped" pausedId) := by decide +kernel
  refine ⟨by decide +kernel, ?_, ?_, by decide +kernel, by decide +kernel⟩
  · rintro ⟨name, hname⟩
    rw [hfile, hfolder] at hname
    cases congrArg List.length hname
  · rw [← hfile]
    exact (get?_save_self hsaved).2

theorem holds_and_save_letter :
    '/' ∉ "letter".toList ∧ homeFiles.Open homeFiles.home ∧
    homeStore.Holds homeFiles "letter" pausedId ∧
    ∃ path, (homeStore.save homeFiles (pausedRun "letter")).1 = .ok path := by
  have hname : '/' ∉ "letter".toList := by decide
  have hhome : homeFiles.Open homeFiles.home := (Files.open_nil homeFiles).append rfl
  obtain ⟨-, -, -, -, hletter⟩ := holds_and_save homeStore homeFiles (pausedRun "letter")
  obtain ⟨hholds, hsave⟩ := hletter hname
  refine ⟨hname, hhome, hholds, (hsave hhome).2 ⟨_, rfl, ?_, ?_, ?_⟩⟩
  · decide
  · decide +kernel
  · decide +kernel

end Checkpoint.Store

end Workflow
