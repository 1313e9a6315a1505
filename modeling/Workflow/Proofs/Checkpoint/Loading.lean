import Workflow.Checkpoint.Store
import Workflow.Proofs.Json.Record

/-!
# What is loaded from a checkpoint file

A file is the record of a run if each field of such a record is there as it should be, and none is
there twice. Any other document is read as a checkpoint alone. All fields of a checkpoint may be
left out and other members are passed over, so the second reading hardly ever fails: it gives what
the document itself has for the fields of a checkpoint, and knows nothing of a checkpoint inside it.

`checkpoint_of_load_iff` says when the checkpoint inside a document is the one that is loaded.
-/

namespace Workflow

open Json (Value Members RecordField FieldRule)
open Json.Record (Reading fields get rulesOf)

/-! ## Checkpoints -/

namespace Checkpoint

variable {ms : Members Value} {cp : Checkpoint}

theorem plain_rules : Json.Record.Plain rules := by
  unfold Json.Record.Plain
  decide

@[mk_iff]
structure Given (ms : Members Value) (cp : Checkpoint) : Prop where
  vars : get ms (.withDefault "variables" decodeVariables []) = .ok cp.vars
  completedPhases : get ms (.withDefault "completedPhases" (.list .text) []) =
    .ok cp.completedPhases
  changedFiles : get ms (.withDefault "changedFiles" (.list .text) []) = .ok cp.changedFiles
  currentTask : get ms (.optional "currentTaskId" .text) = .ok cp.currentTask

def readings (cp : Checkpoint) : List Reading :=
  [⟨.withDefault "variables" decodeVariables [], cp.vars⟩,
    ⟨.withDefault "completedPhases" (.list .text) [], cp.completedPhases⟩,
    ⟨.withDefault "changedFiles" (.list .text) [], cp.changedFiles⟩,
    ⟨.optional "currentTaskId" .text, cp.currentTask⟩]

theorem given_iff_readings : cp.Given ms ↔ ∀ g ∈ cp.readings, g.In ms := by
  simp [given_iff, readings, Reading.In]

/-- A checkpoint is what some members give, and none of its fields is there twice. -/
structure ReadFrom (ms : Members Value) (cp : Checkpoint) : Prop where
  distinct : (Json.Record.known rules ms).Distinct
  given : cp.Given ms

theorem decode_iff {v : Value} :
    decode v = .ok cp ↔ ∃ out, fields "struct Checkpoint" rules v = .ok out ∧ cp.Given out := by
  refine bind_eq_ok_iff.trans (exists_congr fun out ↦ and_congr Iff.rfl ?_)
  simp only [bind_eq_ok_iff]
  constructor
  · rintro ⟨_, hvars, _, hcompleted, _, hchanged, _, htask, h⟩
    cases h
    exact ⟨hvars, hcompleted, hchanged, htask⟩
  · rintro ⟨hvars, hcompleted, hchanged, htask⟩
    exact ⟨_, hvars, _, hcompleted, _, hchanged, _, htask, rfl⟩

theorem decode_eq_ok_iff : decode (.object ms) = .ok cp ↔ cp.ReadFrom ms := by
  have hrules : rulesOf cp.readings = rules := rfl
  have hread := Json.Record.exists_fields_iff (hrules ▸ plain_rules) "struct Checkpoint" ms
  simp only [← given_iff_readings, hrules] at hread
  rw [decode_iff, hread]
  exact ⟨fun h ↦ ⟨h.1, h.2⟩, fun h ↦ ⟨h.distinct, h.given⟩⟩

/-- Members of other names give the checkpoint of a run that has done nothing. -/
theorem readFrom_of_absent (h : ∀ r ∈ rules, r.name ∉ ms.map (·.1)) :
    ({} : Checkpoint).ReadFrom ms := by
  have hnone : ∀ r ∈ rules, ms.get? r.name = none := fun r hr ↦ Members.get?_eq_none (h r hr)
  have hknown : Json.Record.known rules ms = [] := by
    refine List.filter_eq_nil_iff.2 fun m hm hsome ↦ ?_
    obtain ⟨r, hr⟩ := Option.isSome_iff_exists.1 hsome
    obtain ⟨hmem, hname⟩ := plain_rules.of_ruleFor hr
    exact h r hmem (hname ▸ List.mem_map_of_mem hm)
  have hrules : rules = rulesOf ({} : Checkpoint).readings := rfl
  simp only [hrules, rulesOf, readings, List.map_cons, List.map_nil, List.forall_mem_cons,
    List.not_mem_nil, false_implies, implies_true, and_true] at hnone
  obtain ⟨hvars, hcompleted, hchanged, htask⟩ := hnone
  refine ⟨hknown ▸ Members.sorted_nil.distinct, ?_, ?_, ?_, ?_⟩
  · exact Json.Record.get_eq_absent hvars rfl
  · exact Json.Record.get_eq_absent hcompleted rfl
  · exact Json.Record.get_eq_absent hchanged rfl
  · exact Json.Record.get_eq_absent htask rfl

end Checkpoint

/-! ## Records of runs -/

namespace SavedCheckpoint

variable {ms : Members Value} {s : SavedCheckpoint}

def rules : List FieldRule :=
  [(⟨"runId", Uuid.decode, none, []⟩ : RecordField Uuid).rule,
    (⟨"workflowName", .text, none, []⟩ : RecordField String).rule,
    (⟨"pausedAtPhase", .text, none, []⟩ : RecordField String).rule,
    (RecordField.optional "blocker" .text).rule,
    (⟨"checkpoint", Checkpoint.decode, none, []⟩ : RecordField Checkpoint).rule,
    (⟨"savedAt", Instant.decode, none, []⟩ : RecordField Instant).rule]

theorem plain_rules : Json.Record.Plain rules := by
  unfold Json.Record.Plain
  decide

@[mk_iff]
structure Given (ms : Members Value) (s : SavedCheckpoint) : Prop where
  runId : get ms ⟨"runId", Uuid.decode, none, []⟩ = .ok s.runId
  workflow : get ms ⟨"workflowName", .text, none, []⟩ = .ok s.workflow
  pausedAt : get ms ⟨"pausedAtPhase", .text, none, []⟩ = .ok s.pausedAt
  blocker : get ms (.optional "blocker" .text) = .ok s.blocker
  checkpoint : get ms ⟨"checkpoint", Checkpoint.decode, none, []⟩ = .ok s.checkpoint
  savedAt : get ms ⟨"savedAt", Instant.decode, none, []⟩ = .ok s.savedAt

def readings (s : SavedCheckpoint) : List Reading :=
  [⟨⟨"runId", Uuid.decode, none, []⟩, s.runId⟩, ⟨⟨"workflowName", .text, none, []⟩, s.workflow⟩,
    ⟨⟨"pausedAtPhase", .text, none, []⟩, s.pausedAt⟩, ⟨.optional "blocker" .text, s.blocker⟩,
    ⟨⟨"checkpoint", Checkpoint.decode, none, []⟩, s.checkpoint⟩,
    ⟨⟨"savedAt", Instant.decode, none, []⟩, s.savedAt⟩]

theorem given_iff_readings : s.Given ms ↔ ∀ g ∈ s.readings, g.In ms := by
  simp [given_iff, readings, Reading.In]

/-- The record of a run is what some members give, and none of its fields is there twice. -/
structure ReadFrom (ms : Members Value) (s : SavedCheckpoint) : Prop where
  distinct : (Json.Record.known rules ms).Distinct
  given : s.Given ms

theorem decode_iff {v : Value} :
    decode v = .ok s ↔
      ∃ out, fields "struct SavedCheckpoint" rules v = .ok out ∧ s.Given out := by
  refine bind_eq_ok_iff.trans (exists_congr fun out ↦ and_congr Iff.rfl ?_)
  simp only [bind_eq_ok_iff]
  constructor
  · rintro ⟨_, hid, _, hworkflow, _, hpaused, _, hblocker, _, hcp, _, hsaved, h⟩
    cases h
    exact ⟨hid, hworkflow, hpaused, hblocker, hcp, hsaved⟩
  · rintro ⟨hid, hworkflow, hpaused, hblocker, hcp, hsaved⟩
    exact ⟨_, hid, _, hworkflow, _, hpaused, _, hblocker, _, hcp, _, hsaved, rfl⟩

theorem decode_eq_ok_iff : decode (.object ms) = .ok s ↔ s.ReadFrom ms := by
  have hrules : rulesOf s.readings = rules := rfl
  have hread := Json.Record.exists_fields_iff (hrules ▸ plain_rules) "struct SavedCheckpoint" ms
  simp only [← given_iff_readings, hrules] at hread
  rw [decode_iff, hread]
  exact ⟨fun h ↦ ⟨h.1, h.2⟩, fun h ↦ ⟨h.distinct, h.given⟩⟩

/-- The checkpoint in the record of a run is that of its member, wherever the member stands. -/
theorem ReadFrom.decode_checkpoint (h : s.ReadFrom ms) {v : Value}
    (hv : ("checkpoint", v) ∈ ms) : Checkpoint.decode v = .ok s.checkpoint := by
  have hrule : (Json.Record.ruleFor rules "checkpoint").isSome = true := by decide
  have hknown : ("checkpoint", v) ∈ Json.Record.known rules ms := List.mem_filter.2 ⟨hv, hrule⟩
  have hget : ms.get? "checkpoint" = some v := by
    rw [← Json.Record.get?_known hrule]
    exact h.distinct.get?_of_mem hknown
  have hread := h.given.checkpoint
  rwa [Json.Record.get_eq_read hget] at hread

end SavedCheckpoint

/-! ## Files -/

namespace LoadedCheckpoint

variable {ms : Members Value} {l : LoadedCheckpoint}

theorem decode_of_readFrom {s : SavedCheckpoint} (h : s.ReadFrom ms) :
    decode (.object ms) = .ok (.saved s) := by
  rw [decode, SavedCheckpoint.decode_eq_ok_iff.2 h]

/-- Any other object is loaded as a checkpoint alone, if it can be read as one. -/
theorem decode_eq_ok_iff (h : ¬∃ s : SavedCheckpoint, s.ReadFrom ms) :
    decode (.object ms) = .ok l ↔ ∃ cp : Checkpoint, cp.ReadFrom ms ∧ l = .bare cp := by
  rw [decode]
  cases hsaved : SavedCheckpoint.decode (.object ms) with
  | ok s => exact absurd ⟨s, SavedCheckpoint.decode_eq_ok_iff.1 hsaved⟩ h
  | error e =>
    constructor
    · intro hl
      cases hbare : Checkpoint.decode (.object ms) with
      | ok cp =>
        rw [hbare] at hl
        cases hl
        exact ⟨cp, Checkpoint.decode_eq_ok_iff.1 hbare, rfl⟩
      | error e =>
        rw [hbare] at hl
        cases hl
    · rintro ⟨cp, hcp, rfl⟩
      dsimp only
      rw [Checkpoint.decode_eq_ok_iff.2 hcp]
      rfl

end LoadedCheckpoint

namespace Checkpoint

theorem load_eq_ok_iff {fs : Files} {path text : String} {v : Value} {l : LoadedCheckpoint}
    (hread : fs.read path = .ok text) (hparse : Value.parse? text = some v) :
    load fs path = .ok l ↔ LoadedCheckpoint.decode v = .ok l := by
  rw [load, hread]
  dsimp only
  rw [LoadedCheckpoint.parse?, hparse, Option.bind_some]
  cases LoadedCheckpoint.decode v with
  | ok loaded => simp [Except.toOption]
  | error e => simp [Except.toOption]

/-- **Loading.** Let a file hold a document with a checkpoint inside it. No other checkpoint is
loaded from the file if and only if the document is the record of a run, or the document itself does
not have for the fields of a checkpoint what makes another one.

If the document is such a record, its checkpoint is loaded. If it is not, and no member of it has
the name of a field of a checkpoint, then the file is loaded all the same, and all is lost. -/
theorem checkpoint_of_load_iff {fs : Files} {path text : String} {ms : Members Value} {v : Value}
    {cp : Checkpoint} (hread : fs.read path = .ok text)
    (hparse : Value.parse? text = some (.object ms)) (hv : ("checkpoint", v) ∈ ms)
    (hcp : decode v = .ok cp) :
    ((∀ l, load fs path = .ok l → l.checkpoint = cp) ↔
      (∃ s : SavedCheckpoint, s.ReadFrom ms) ∨
        ∀ other : Checkpoint, other.ReadFrom ms → other = cp) ∧
    (∀ s : SavedCheckpoint, s.ReadFrom ms → load fs path = .ok (.saved s) ∧ s.checkpoint = cp) ∧
    ((¬∃ s : SavedCheckpoint, s.ReadFrom ms) → (∀ r ∈ rules, r.name ∉ ms.map (·.1)) →
      load fs path = .ok (.bare {})) := by
  have hload : ∀ l, load fs path = .ok l ↔ LoadedCheckpoint.decode (.object ms) = .ok l :=
    fun l ↦ load_eq_ok_iff hread hparse
  have hrecord : ∀ s : SavedCheckpoint, s.ReadFrom ms →
      load fs path = .ok (.saved s) ∧ s.checkpoint = cp := by
    intro s hs
    have hcheckpoint := (hs.decode_checkpoint hv).symm.trans hcp
    exact ⟨(hload _).2 (LoadedCheckpoint.decode_of_readFrom hs), Except.ok.inj hcheckpoint⟩
  refine ⟨⟨fun hloads ↦ ?_, fun h l hl ↦ ?_⟩, hrecord, fun hnone habsent ↦ ?_⟩
  · by_cases hsaved : ∃ s : SavedCheckpoint, s.ReadFrom ms
    · exact .inl hsaved
    · refine .inr fun other hother ↦ ?_
      have hbare := (LoadedCheckpoint.decode_eq_ok_iff hsaved).2 ⟨other, hother, rfl⟩
      exact hloads _ ((hload _).2 hbare)
  · by_cases hsaved : ∃ s : SavedCheckpoint, s.ReadFrom ms
    · obtain ⟨s, hs⟩ := hsaved
      obtain ⟨hok, hcheckpoint⟩ := hrecord s hs
      cases hok.symm.trans hl
      exact hcheckpoint
    · obtain ⟨other, hother, rfl⟩ := (LoadedCheckpoint.decode_eq_ok_iff hsaved).1 ((hload l).1 hl)
      exact (h.resolve_left hsaved) other hother
  · have hbare := (LoadedCheckpoint.decode_eq_ok_iff hnone).2 ⟨_, readFrom_of_absent habsent, rfl⟩
    exact (hload _).2 hbare

/-! ### Two files -/

/-- What is inside both files: the draft is done. -/
def drafted : Checkpoint := { completedPhases := ["draft"] }

def draftedValue : Value := .object [("completedPhases", .array [.string "draft"])]

/-- A checkpoint and nothing of the run that it belongs to. -/
def strayText : String := "\x7b\"checkpoint\": \x7b\"completedPhases\": [\"draft\"]\x7d\x7d"

/-- The record of a run, in an order of its own and with a remark. -/
def letterText : String :=
  "\x7b\"workflowName\": \"letter\", \"checkpoint\": \x7b\"completedPhases\": [\"draft\"]\x7d, " ++
  "\"pausedAtPhase\": \"polish\", \"savedAt\": \"2025-02-08T00:00:00Z\", " ++
  "\"runId\": \"0194e090-0000-7000-8000-000000000001\", \"remark\": true\x7d"

def letterMembers : Members Value :=
  [("workflowName", .string "letter"), ("checkpoint", draftedValue),
    ("pausedAtPhase", .string "polish"), ("savedAt", .string "2025-02-08T00:00:00Z"),
    ("runId", .string "0194e090-0000-7000-8000-000000000001"), ("remark", .bool true)]

def letter : SavedCheckpoint where
  runId := ⟨0x0194e090000070008000000000000001#128⟩
  workflow := "letter"
  pausedAt := "polish"
  checkpoint := drafted
  savedAt := { date := { year := 2025, month := 2, day := 8 }, second := 0 }

def draftFiles : Files where
  entries := [(["stray.json"], .file strayText), (["letter.json"], .file letterText)]

/-- The file is loaded, and the draft has to be made again. -/
theorem load_forgets_draft :
    draftFiles.read "stray.json" = .ok strayText ∧
    Value.parse? strayText = some (.object [("checkpoint", draftedValue)]) ∧
    decode draftedValue = .ok drafted ∧
    load draftFiles "stray.json" = .ok (.bare {}) ∧
    (LoadedCheckpoint.bare {}).checkpoint ≠ drafted := by
  decide +kernel

theorem checkpoint_of_letter :
    draftFiles.read "letter.json" = .ok letterText ∧
    Value.parse? letterText = some (.object letterMembers) ∧
    ("checkpoint", draftedValue) ∈ letterMembers ∧ decode draftedValue = .ok drafted ∧
    load draftFiles "letter.json" = .ok (.saved letter) ∧
    ∀ l, load draftFiles "letter.json" = .ok l → l.checkpoint = drafted := by
  have hread : draftFiles.read "letter.json" = .ok letterText := by decide +kernel
  have hparse : Value.parse? letterText = some (.object letterMembers) := by decide +kernel
  have hmem : ("checkpoint", draftedValue) ∈ letterMembers := .tail _ (.head _)
  have hcp : decode draftedValue = .ok drafted := by decide +kernel
  have hletter : letter.ReadFrom letterMembers :=
    SavedCheckpoint.decode_eq_ok_iff.1 (by decide +kernel)
  obtain ⟨hiff, hrecord, -⟩ := checkpoint_of_load_iff hread hparse hmem hcp
  exact ⟨hread, hparse, hmem, hcp, (hrecord letter hletter).1, hiff.2 (.inl ⟨letter, hletter⟩)⟩

end Checkpoint

end Workflow
