import Workflow.Proofs.Checkpoint.Naming
import Workflow.Proofs.Files.Listing

/-!
# The latest run

Runs of many workflows are saved into one store, one after another, and each of them has a file of
its own there. What the files tell of the runs is `Store.Keeps`, which every saving preserves,
whether it succeeds or not. So whatever the order is in which the folder lists its names, the latest
file of a workflow is that of its greatest run: `Store.latest?_of_saveAll`.

There is an exception. The empty path stands for the folder that paths start from when something is
written, but it leads nowhere when a folder is listed. A store of this path saves runs and finds
none of them again.
-/

namespace Workflow.Checkpoint.Store

/-! ## Saving one run after another -/

/-- Saves one more run after those that were saved, of which the last one comes first. -/
def saveNext (store : Store) (before : List SavedCheckpoint × Files) (s : SavedCheckpoint) :
    List SavedCheckpoint × Files :=
  match store.save before.2 s with
  | (.ok _, fs) => (s :: before.1, fs)
  | (.error _, fs) => (before.1, fs)

/-- Saves runs one after another. It tells which of them were saved, the last one first. -/
def saveAll (store : Store) (fs : Files) (ss : List SavedCheckpoint) :
    List SavedCheckpoint × Files :=
  ss.foldl store.saveNext ([], fs)

/-- What was last saved of a run. -/
def lastOf? (saved : List SavedCheckpoint) (w : String) (id : Uuid) : Option SavedCheckpoint :=
  saved.find? fun s ↦ s.workflow = w ∧ s.runId = id

/-- Nothing in the folder of a store is named like the file of a run, and neither are the folders
within it that its own path leads through. -/
structure Vacant (store : Store) (fs : Files) : Prop where
  get?_eq_none : ∀ w name id, runOf? w name = some id →
    fs.get? (fs.place store.folder ++ [name]) = none
  not_onWay : ∀ w name id, runOf? w name = some id →
    ¬Files.OnWay (fs.start store.folder) (Path.pieces store.folder)
      (fs.place store.folder ++ [name])

/-- The files of a store are those of the runs that were saved. -/
structure Keeps (store : Store) (origin : Files) (saved : List SavedCheckpoint) (fs : Files) :
    Prop where
  home_eq : fs.home = origin.home
  noSlash : ∀ s ∈ saved, '/' ∉ s.workflow.toList
  exists_saved : ∀ w name id, runOf? w name = some id →
    fs.get? (origin.place store.folder ++ [name]) ≠ none →
      ∃ s ∈ saved, name = fileName s.workflow s.runId
  get?_eq : ∀ w id s, lastOf? saved w id = some s →
    fs.get? (origin.place store.folder ++ [fileName w id]) = some (.file s.toValue.pretty)
  opens : saved ≠ [] → '\x00' ∉ store.folder.toList ∧
    fs.follow (origin.start store.folder) (Path.pieces store.folder) =
      .ok (origin.place store.folder, .folder)

variable {store : Store} {origin fs fs' : Files} {saved : List SavedCheckpoint}
  {s : SavedCheckpoint} {w : String} {id : Uuid}

theorem isSome_lastOf? (hs : s ∈ saved) : (lastOf? saved s.workflow s.runId).isSome = true :=
  List.find?_isSome.2 ⟨s, hs, decide_eq_true ⟨rfl, rfl⟩⟩

/-- A path without two dots leads through nothing that lies in the folder at its end. -/
theorem vacant_of_notMem (hdots : ".." ∉ Path.pieces store.folder)
    (hnone : ∀ name, fs.get? (fs.place store.folder ++ [name]) = none) : store.Vacant fs where
  get?_eq_none _ name _ _ := hnone name
  not_onWay w name id _ := by
    rintro ⟨before, ⟨rest, hrest⟩, heq⟩
    rw [← hrest, List.mem_append, not_or] at hdots
    have hle := Files.length_le_walk hdots.2 (Files.walk (fs.start store.folder) before)
    rw [← Files.walk_append, hrest, ← Files.place_eq_walk, ← heq, List.length_append,
      List.length_singleton] at hle
    exact Nat.not_succ_le_self _ hle

theorem keeps_of_vacant (h : store.Vacant origin) : store.Keeps origin [] origin where
  home_eq := rfl
  noSlash := nofun
  exists_saved w name id hname hsome := absurd (h.get?_eq_none w name id hname) hsome
  get?_eq _ _ _ hs := nomatch hs
  opens hne := absurd rfl hne

theorem Keeps.congr (h : store.Keeps origin saved fs) (hhome : fs'.home = fs.home)
    (hget : ∀ q, fs'.get? q = fs.get? q) : store.Keeps origin saved fs' where
  home_eq := hhome.trans h.home_eq
  noSlash := h.noSlash
  exists_saved w name id hname hsome := by
    rw [hget] at hsome
    exact h.exists_saved w name id hname hsome
  get?_eq w id s hs := by
    rw [hget]
    exact h.get?_eq w id s hs
  opens hne := by
    obtain ⟨hnul, hfollow⟩ := h.opens hne
    exact ⟨hnul, Files.FoldersStay.follow (fun q hq ↦ (hget q).trans hq) hfollow⟩

theorem Keeps.grow (h : store.Keeps origin saved fs) (hvacant : store.Vacant origin)
    (hgrows : fs.Grows fs' (Files.OnWay (origin.start store.folder) (Path.pieces store.folder))) :
    store.Keeps origin saved fs' where
  home_eq := hgrows.home.trans h.home_eq
  noSlash := h.noSlash
  exists_saved w name id hname hsome := by
    rcases hgrows.get? (origin.place store.folder ++ [name]) with hsame | ⟨-, -, hway⟩
    · rw [hsame] at hsome
      exact h.exists_saved w name id hname hsome
    · exact absurd hway (hvacant.not_onWay w name id hname)
  get?_eq w id s hs := by
    have hfile := h.get?_eq w id s hs
    rcases hgrows.get? (origin.place store.folder ++ [fileName w id]) with hsame | ⟨hnone, -, -⟩
    · rw [hsame, hfile]
    · cases hfile.symm.trans hnone
  opens hne := by
    obtain ⟨hnul, hfollow⟩ := h.opens hne
    exact ⟨hnul, hgrows.foldersStay.follow hfollow⟩

theorem Keeps.put (h : store.Keeps origin saved fs) (hname : '/' ∉ s.workflow.toList)
    (hnul : '\x00' ∉ store.folder.toList)
    (hfollow : fs.follow (origin.start store.folder) (Path.pieces store.folder) =
      .ok (origin.place store.folder, .folder))
    (hfree : fs.get? (origin.place (store.pathFor s.workflow s.runId)) ≠ some .folder) :
    store.Keeps origin (s :: saved)
      (fs.put (origin.place (store.pathFor s.workflow s.runId)) (.file s.toValue.pretty)) := by
  have hstay := Files.foldersStay_put hfree (.file s.toValue.pretty)
  have hplace := origin.place_addsName (store.addsName_pathFor hname s.runId)
  rw [hplace] at hstay ⊢
  have hne {name : String} (h : name ≠ fileName s.workflow s.runId) :
      origin.place store.folder ++ [name] ≠
        origin.place store.folder ++ [fileName s.workflow s.runId] := fun heq ↦
    h (List.singleton_inj.1 (List.append_cancel_left heq))
  refine ⟨h.home_eq, List.forall_mem_cons.2 ⟨hname, h.noSlash⟩, fun w name id hrun hsome ↦ ?_,
    fun w id t ht ↦ ?_, fun _ ↦ ?_⟩
  · by_cases heq : name = fileName s.workflow s.runId
    · exact ⟨s, List.mem_cons_self, heq⟩
    · rw [Files.get?_put_of_ne (hne heq)] at hsome
      obtain ⟨t, ht, htname⟩ := h.exists_saved w name id hrun hsome
      exact ⟨t, List.mem_cons_of_mem _ ht, htname⟩
  · rw [lastOf?, List.find?_cons] at ht
    by_cases heq : s.workflow = w ∧ s.runId = id
    · rw [decide_eq_true heq] at ht
      cases ht
      obtain ⟨rfl, rfl⟩ := heq
      exact Files.get?_put_self (List.append_ne_nil_of_right_ne_nil _ (List.cons_ne_nil _ _))
    · rw [decide_eq_false heq] at ht
      rw [Files.get?_put_of_ne (hne fun hfile ↦ heq (fileName_inj.1 hfile.symm))]
      exact h.get?_eq w id t ht
  · exact ⟨hnul, hstay.follow hfollow⟩

theorem Keeps.saveNext {before : List SavedCheckpoint × Files} (hvacant : store.Vacant origin)
    (h : store.Keeps origin before.1 before.2) (hname : '/' ∉ s.workflow.toList) :
    store.Keeps origin (store.saveNext before s).1 (store.saveNext before s).2 := by
  obtain ⟨saved, fs⟩ := before
  have hstart := Files.start_congr h.home_eq store.folder
  have hgrow {fs₁ : Files} (hmade : fs.makeFolder store.folder = .ok fs₁) :
      store.Keeps origin saved fs₁ := by
    have hgrows := Files.grows_of_makeFolder hmade
    rw [hstart] at hgrows
    exact h.grow hvacant hgrows
  have hsaves := store.saves_save fs s
  rw [Store.saveNext]
  dsimp only
  generalize store.save fs s = r at hsaves ⊢
  cases hsaves with
  | noFolder _ => exact h
  | noFile hmade _ => exact hgrow hmade
  | saved hmade hwritten hput =>
    have hkeeps := hgrow hmade
    have hadds := store.addsName_pathFor hname s.runId
    have hslash := store.endsWithSlash_pathFor s.workflow s.runId
    obtain ⟨-, hfollow, -, hfree, -⟩ := (Files.write_eq_ok_iff hadds hslash).1 hwritten
    rw [Files.start_congr hkeeps.home_eq, Files.place_congr hkeeps.home_eq] at hfollow
    rw [Files.place_congr hkeeps.home_eq] at hfree
    rw [hput, Files.place_congr h.home_eq]
    exact hkeeps.put hname (Files.notMem_of_makeFolder hmade) hfollow hfree

theorem keeps_saveAll (hvacant : store.Vacant fs) {ss : List SavedCheckpoint}
    (hss : ∀ s ∈ ss, '/' ∉ s.workflow.toList) :
    store.Keeps fs (store.saveAll fs ss).1 (store.saveAll fs ss).2 := by
  have hfold : ∀ before : List SavedCheckpoint × Files, store.Keeps fs before.1 before.2 →
      store.Keeps fs (ss.foldl store.saveNext before).1 (ss.foldl store.saveNext before).2 := by
    induction ss with
    | nil => exact fun _ h ↦ h
    | cons s ss ih =>
      obtain ⟨hs, hss⟩ := List.forall_mem_cons.1 hss
      exact fun before h ↦ ih hss _ (h.saveNext hvacant hs)
  exact hfold ([], fs) (keeps_of_vacant hvacant)

/-! ## Finding the latest run -/

theorem Keeps.mem_names_iff (h : store.Keeps origin saved fs) {names : List String}
    (hlist : fs.list store.folder = .ok names) {name : String} :
    name ∈ names.filter (fun n ↦ (runOf? w n).isSome) ↔
      ∃ s ∈ saved, s.workflow = w ∧ name = fileName w s.runId := by
  rw [List.mem_filter, Files.mem_list_iff hlist, Files.place_congr h.home_eq]
  constructor
  · rintro ⟨hsome, hrun⟩
    obtain ⟨id, hid⟩ := Option.isSome_iff_exists.1 hrun
    obtain ⟨s, hs, rfl⟩ := h.exists_saved w name id hid (Option.isSome_iff_ne_none.1 hsome)
    obtain ⟨rfl, rfl⟩ := runOf?_fileName.1 hid
    exact ⟨s, hs, rfl, rfl⟩
  · rintro ⟨s, hs, rfl, rfl⟩
    obtain ⟨t, ht⟩ := Option.isSome_iff_exists.1 (isSome_lastOf? hs)
    rw [h.get?_eq _ _ _ ht, runOf?_fileName.2 ⟨rfl, rfl⟩]
    exact ⟨rfl, rfl⟩

theorem Keeps.exists_list (h : store.Keeps origin saved fs) (hne : store.folder ≠ "")
    (hsaved : saved ≠ []) : ∃ names, fs.list store.folder = .ok names := by
  obtain ⟨hnul, hfollow⟩ := h.opens hsaved
  rw [← Files.start_congr h.home_eq, ← Files.place_congr h.home_eq] at hfollow
  exact Files.exists_list_of_follow hne hnul hfollow

/-- The latest run of a workflow is the greatest one that was saved. -/
structure IsLatest (saved : List SavedCheckpoint) (w : String) (id : Uuid) : Prop where
  exists_saved : ∃ s ∈ saved, s.workflow = w ∧ s.runId = id
  le : ∀ s ∈ saved, s.workflow = w → s.runId.value ≤ id.value

theorem Keeps.latest?_of_list (h : store.Keeps origin saved fs) {names : List String}
    (hlist : fs.list store.folder = .ok names) :
    (∀ s ∈ saved, s.workflow ≠ w) ∧ store.latest? fs w = .ok none ∨
      ∃ id, IsLatest saved w id ∧ store.latest? fs w = .ok (some (store.pathFor w id)) := by
  rw [latest?, hlist]
  dsimp only
  rcases greatest?_spec (names.filter fun n ↦ (runOf? w n).isSome) with
    ⟨hnil, hnone⟩ | ⟨best, hbest, hsome, hle⟩
  · left
    rw [hnone]
    refine ⟨fun s hs hw ↦ ?_, rfl⟩
    have hmem := (h.mem_names_iff hlist).2 ⟨s, hs, hw, rfl⟩
    rw [hnil] at hmem
    cases hmem
  · right
    obtain ⟨s, hs, hw, rfl⟩ := (h.mem_names_iff hlist).1 hbest
    rw [hsome]
    refine ⟨s.runId, ⟨⟨s, hs, hw, rfl⟩, fun t ht htw ↦ ?_⟩, rfl⟩
    by_contra hlt
    have hgreater := fileName_lt w (BitVec.not_le.1 hlt)
    exact String.not_lt.2 (hle _ ((h.mem_names_iff hlist).2 ⟨t, ht, htw, rfl⟩)) hgreater

/-- **The latest run.** Runs of workflows without a slash in their names have files of their own,
one for each workflow and identifier. If such runs are saved one after another, in a store with a
path in which there were no files of runs, then whatever the order in which its folder is listed,
there is a latest file of a workflow just if one of its runs was saved; it is that of its greatest
run, and it holds what was last saved of this. A listing that fails, fails before the first run is
saved.

A store with the empty path never finds a file. -/
theorem latest?_of_saveAll (store : Store) :
    (∀ (fs : Files) (w w' : String) (id id' : Uuid), '/' ∉ w.toList → '/' ∉ w'.toList →
      (fs.place (store.pathFor w id) = fs.place (store.pathFor w' id') ↔ w = w' ∧ id = id')) ∧
    (store.folder ≠ "" → ∀ (fs fs' : Files) (ss : List SavedCheckpoint), store.Vacant fs →
      (∀ s ∈ ss, '/' ∉ s.workflow.toList) → fs'.home = (store.saveAll fs ss).2.home →
      (∀ q, fs'.get? q = (store.saveAll fs ss).2.get? q) → ∀ w : String,
        (∀ r, store.latest? fs' w = .ok r →
          (r = none ↔ ∀ s ∈ (store.saveAll fs ss).1, s.workflow ≠ w)) ∧
        (∀ path, store.latest? fs' w = .ok (some path) →
          ∃ id s, IsLatest (store.saveAll fs ss).1 w id ∧ path = store.pathFor w id ∧
            lastOf? (store.saveAll fs ss).1 w id = some s ∧
            fs'.get? (fs'.place path) = some (.file s.toValue.pretty)) ∧
        ∀ e, store.latest? fs' w = .error e →
          (store.saveAll fs ss).1 = [] ∧ e = .listFailed store.folder) ∧
    (store.folder = "" → ∀ (fs : Files) (w : String), store.latest? fs w = .ok none) := by
  refine ⟨fun fs w w' id id' ↦ store.place_pathFor_inj fs, ?_, ?_⟩
  · intro hne fs fs' ss hvacant hss hhome hget w
    have hkeeps := (keeps_saveAll hvacant hss).congr hhome hget
    generalize (store.saveAll fs ss).1 = saved at hkeeps ⊢
    cases hlist : fs'.list store.folder with
    | ok names =>
      rcases hkeeps.latest?_of_list hlist with ⟨hnone, hlatest⟩ | ⟨id, hid, hlatest⟩
      · rw [hlatest]
        refine ⟨fun r hr ↦ ?_, nofun, nofun⟩
        cases hr
        exact iff_of_true rfl hnone
      · rw [hlatest]
        obtain ⟨s, hs, hw, hrun⟩ := hid.exists_saved
        obtain ⟨t, ht⟩ := Option.isSome_iff_exists.1 (isSome_lastOf? hs)
        rw [hw, hrun] at ht
        refine ⟨fun r hr ↦ ?_, fun path hpath ↦ ?_, nofun⟩
        · cases hr
          exact iff_of_false (Option.some_ne_none _) fun hnone ↦ hnone s hs hw
        · cases hpath
          have hslash := hkeeps.noSlash s hs
          rw [hw] at hslash
          refine ⟨id, t, hid, rfl, ht, ?_⟩
          rw [fs'.place_addsName (store.addsName_pathFor hslash id),
            Files.place_congr hkeeps.home_eq]
          exact hkeeps.get?_eq w id t ht
    | error failure =>
      have hnil : saved = [] := by
        by_contra hsaved
        obtain ⟨names, hnames⟩ := hkeeps.exists_list hne hsaved
        cases hlist.symm.trans hnames
      subst hnil
      rw [latest?, hlist]
      cases failure with
      | notFound =>
        refine ⟨fun r hr ↦ ?_, nofun, nofun⟩
        cases hr
        exact iff_of_true rfl nofun
      | _ =>
        refine ⟨nofun, nofun, fun e he ↦ ?_⟩
        cases he
        exact ⟨rfl, rfl⟩
  · intro hempty fs w
    rw [latest?, hempty, Files.list_empty]

/-! ### Runs that are found and runs that are not -/

def laterRun (workflow : String) : SavedCheckpoint :=
  { pausedRun workflow with runId := ⟨0x0194e090000070008000000000000002#128⟩ }

/-- A run of a workflow, and a later one of a workflow whose name goes on after that of the first
with the first group of an identifier. -/
def severalRuns : List SavedCheckpoint := [pausedRun "letter", laterRun "letter-0194e090"]

theorem latest?_of_severalRuns :
    homeStore.folder ≠ "" ∧ homeStore.Vacant homeFiles ∧
    (∀ s ∈ severalRuns, '/' ∉ s.workflow.toList) ∧
    ∃ id, homeStore.latest? (homeStore.saveAll homeFiles severalRuns).2 "letter" =
        .ok (some (homeStore.pathFor "letter" id)) ∧
      IsLatest (homeStore.saveAll homeFiles severalRuns).1 "letter" id := by
  have hne : homeStore.folder ≠ "" := by decide
  have hvacant : homeStore.Vacant homeFiles := by
    have hplace : homeFiles.place homeStore.folder = ["home", "state", "checkpoints"] := by
      decide +kernel
    refine vacant_of_notMem (by decide +kernel) fun name ↦ ?_
    rw [hplace]
    rfl
  have hss : ∀ s ∈ severalRuns, '/' ∉ s.workflow.toList := by decide
  obtain ⟨-, hlatest, -⟩ := latest?_of_saveAll homeStore
  obtain ⟨-, hsome, -⟩ := hlatest hne homeFiles _ severalRuns hvacant hss rfl (fun _ ↦ rfl) "letter"
  have hends : (homeStore.latest? (homeStore.saveAll homeFiles severalRuns).2
      "letter").toOption.join.isSome = true := by
    decide +kernel
  rcases hr : homeStore.latest? (homeStore.saveAll homeFiles severalRuns).2 "letter" with
    e | _ | path
  · rw [hr] at hends
    cases hends
  · rw [hr] at hends
    cases hends
  · obtain ⟨id, s, hid, hpath, -⟩ := hsome path hr
    rw [hpath]
    exact ⟨hne, hvacant, hss, id, rfl, hid⟩

def emptyPathStore : Store := ⟨""⟩

/-- The store with the empty path saves a run in the folder that paths start from, and does not
find it. -/
theorem latest?_of_emptyPathStore :
    (emptyPathStore.saveAll homeFiles [pausedRun "letter"]).1 = [pausedRun "letter"] ∧
    ((emptyPathStore.saveAll homeFiles [pausedRun "letter"]).2.get?
        ["home", "letter-0194e090-0000-7000-8000-000000000001.json"]).isSome = true ∧
    emptyPathStore.latest? (emptyPathStore.saveAll homeFiles [pausedRun "letter"]).2 "letter" =
      .ok none := by
  refine ⟨by decide +kernel, by decide +kernel, by decide +kernel⟩

end Workflow.Checkpoint.Store
