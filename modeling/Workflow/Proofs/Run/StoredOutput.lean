import Workflow.Proofs.Run.Deeds
import Workflow.Proofs.Step.Asking

/-!
# What a completed step says about its output

The last report of a completed step tells whether its output is stored. What it tells is whether the
variable is there when the step ends, and a step never takes a variable away. So the report is true
if the step stored a value (`Stores`), and it is true as well if somebody else did, be it long
before. A step that leaves its output unset, because the agent gave no result or the handler gave
null, reports a stored output whenever the variable was set in the first place.

`Account.Performs.contains_iff` says so of one call, and `Launch.outputStored_iff` of all reports of
a run.
-/

namespace Workflow

open Json (Members Value)
open Process (Act Deed Leads deeds settlements writes)
open Context (anyGrowth Rely)

/-! ## Storing -/

/-- Some acts store a value under a name: the last write among them sets the variable of that name
and no other one, whatever the context is. -/
def Stores (name : String) (as : List (Act Context)) : Prop :=
  ∃ f, (writes as).getLast? = some f ∧ ∀ c, ∃ v, (f c).vars = c.vars.insert name v

variable {env : Environment} {shared : Bool} {c d : Context} {as cs : List (Act Context)}
  {key : String}

theorem Step.Leaf.stores_iff {s : Step} (h : s.Leaf as (.ok ())) :
    Stores key as ↔
      ∃ reply v, settlements as = [.replied reply] ∧ s.assignment? reply = some (key, v) := by
  cases h with
  | @taken reply _ f hreply _ hwrites htakes =>
    rw [Stores, hwrites, List.getLast?_singleton]
    constructor
    · rintro ⟨g, hg, hset⟩
      cases hg
      -- from the empty context it can be seen which variable is set
      obtain ⟨v, hv⟩ := hset .empty
      have hvars := (htakes .empty).vars_eq.symm.trans hv
      refine ⟨reply, v, hreply, ?_⟩
      cases hassign : s.assignment? reply with
      | none =>
        rw [hassign] at hvars
        cases hvars
      | some kv =>
        rw [hassign] at hvars
        obtain ⟨k, u⟩ := kv
        cases hvars
        rfl
    · rintro ⟨reply', v, hreply', hassign⟩
      cases hreply.symm.trans hreply'
      refine ⟨f, rfl, fun c ↦ ⟨v, ?_⟩⟩
      rw [(htakes c).vars_eq, hassign]

/-- What a process has written is there in the end, because nobody takes a variable away. -/
theorem contains_of_mem_writes {α : Type} {p : Process Context α} {a : α}
    (h : Leads anyGrowth (Rely shared) p c as a d) {f : Context → Context} (hf : f ∈ writes as)
    (hkey : ∀ c, (f c).contains key = true) : d.contains key = true := by
  induction h with
  | done _ _ => cases hf
  | @write g p s t bs a _ hrest ih =>
    rcases List.mem_cons.1 hf with rfl | hf
    · exact Context.contains_of_later (Leads.later (fun _ _ ↦ Rely.later) hrest) (hkey s)
    · exact ih hf
  | read _ ih | report _ ih | clock _ ih | announce _ ih | call _ ih | await _ _ ih => exact ih hf

theorem Context.contains_of_insert {v : Value} (h : d.vars = c.vars.insert key v) :
    d.contains key = true := by
  rw [Context.contains, h, Members.contains_insert, decide_eq_true rfl, Bool.true_or]

namespace Account

variable {b : Account} {e : Context} {answer : Option String}

/-- A group that completes and has an output stores a value under it. -/
theorem Performs.stores_of_parallel (h : b.Performs env shared as e cs (.ok ()) answer)
    (hb : b.step.kind = .parallel) (hkey : b.step.outputKey = some key) : Stores key as := by
  obtain ⟨s, ctx, inside, ending⟩ := b
  cases s with
  | parallel g ss =>
    obtain ⟨bs, inside', m, ds, rfl, -, hclosing⟩ := Leads.of_bind h.body
    obtain ⟨heq, hend⟩ := leads_of_closing hclosing
    obtain ⟨rfl, hok⟩ := Prod.mk.inj heq
    rcases hend with ⟨-, k, hk, rfl, -⟩ | ⟨rfl, -, hnone⟩
    · obtain rfl := Option.some.inj (hk.symm.trans hkey)
      rw [Stores, h.writes_eq, Process.writes_append]
      exact ⟨_, List.getLast?_concat, fun c ↦ ⟨c.outputs ss, rfl⟩⟩
    · cases (hnone hok.symm).symm.trans hkey
  | _ => cases hb

/-- **One call.** When a step with an output completes, its variable is there if the step has stored
a value, or if the variable was there in the first place, and for no other reason if the step has
the context for itself. A group always stores a value; any other step does if there is one for it
in the reply to its only call. -/
theorem Performs.contains_iff (h : b.Performs env shared as e cs (.ok ()) answer)
    (hkey : b.step.outputKey = some key) :
    (Stores key as ↔ b.step.kind = .parallel ∨
      ∃ reply v, settlements as = [.replied reply] ∧ b.step.assignment? reply = some (key, v)) ∧
    (Stores key as → e.contains key = true) ∧
    (b.context.contains key = true → e.contains key = true) ∧
    (shared = false → e.contains key = true → Stores key as ∨ b.context.contains key = true) := by
  have hstored : Stores key as → e.contains key = true := by
    rintro ⟨f, hf, hset⟩
    rw [h.writes_eq] at hf
    refine contains_of_mem_writes h.body (List.mem_of_getLast? hf) fun c ↦ ?_
    obtain ⟨v, hv⟩ := hset c
    exact Context.contains_of_insert hv
  have hheld : b.context.contains key = true → e.contains key = true :=
    Context.contains_of_later (Leads.later (fun _ _ ↦ Rely.later) h.body)
  by_cases hgroup : b.step.kind = .parallel
  · have hstores := h.stores_of_parallel hgroup hkey
    exact ⟨iff_of_true hstores (.inl hgroup), hstored, hheld, fun _ _ ↦ .inl hstores⟩
  · have hleaf : b.step.kind = .agent ∨ b.step.kind = .code := by
      cases hs : b.step with
      | agent _ => exact .inl rfl
      | code _ => exact .inr rfl
      | parallel _ _ => exact absurd (congrArg Step.kind hs) hgroup
      | loop _ _ | perTask _ _ =>
        rw [hs] at hkey
        cases hkey
    have hdone := Step.leaf_of_body hleaf h.body.path
    have hiff : Stores key as ↔ ∃ reply v, settlements as = [.replied reply] ∧
        b.step.assignment? reply = some (key, v) := by
      rw [h.settlements_eq, ← hdone.stores_iff, Stores, Stores, h.writes_eq]
    refine ⟨hiff.trans (or_iff_right hgroup).symm, hstored, hheld, ?_⟩
    rintro rfl hcontains
    -- nobody else writes, so what is new in the context is what the step has taken
    have hstate := h.body.state_eq fun _ _ h ↦ h
    cases hdone with
    | @taken reply v f hreply _ hwrites htakes =>
      rw [hwrites] at hstate
      have heq : e = f b.context := hstate
      have hvars := (htakes b.context).vars_eq
      rw [← heq] at hvars
      cases hassign : b.step.assignment? reply with
      | none =>
        rw [hassign] at hvars
        rw [Context.contains, hvars] at hcontains
        exact .inr hcontains
      | some kv =>
        obtain ⟨k, u⟩ := kv
        obtain rfl := Option.some.inj ((Step.outputKey_of_assignment? hassign).symm.trans hkey)
        exact .inl (hiff.2 ⟨reply, u, h.settlements_eq.trans hreply, hassign⟩)

end Account

theorem metadata_closingEvent {s : Step} (hkey : s.outputKey = some key) (n : Nat) (c : Context) :
    (closingEvent s n c (.ok ())).metadata.get? "outputKey" = some (.string key) ∧
    (closingEvent s n c (.ok ())).metadata.get? "outputStored" =
      some (.bool (c.contains key)) := by
  rw [closingEvent, hkey, Audit.Event.make]
  have hdistinct : Members.Distinct [("durationMs", Value.ofNat n), ("outputKey", .string key),
      ("outputStored", .bool (c.contains key))] := by
    simp [Members.Distinct]
  exact ⟨(Members.get?_ofList hdistinct _).trans rfl, (Members.get?_ofList hdistinct _).trans rfl⟩

/-! ## Runs -/

namespace Run

variable {ω : Type} {w : World ω} {x₀ : ω}

/-- **Stored outputs.** Every report of a run that a step is completed is the last one of a call
with its passage. If the step has an output, the report tells whether its variable is there when the
call ends. So it says that a value is stored if the call has stored one, which a group always does
and any other step if there is one in the reply to its only call, and also if the variable was there
when the call began; a call that has the context for itself says so for no other reason. The report
is right unless the variable is there and the call has not stored anything. -/
theorem Launch.outputStored_iff {l : Launch} {event : Audit.Event} {answer : Option String}
    (h : .report event answer ∈ deeds (l.acts w x₀)) (hstatus : event.status = .completed) :
    ∃ env a b shared as e, l.Makes w.patient x₀ env a b shared ∧ b.Passage env shared as e ∧
      (deeds as).Sublist (deeds (l.acts w.patient x₀)) ∧ .report event answer ∈ deeds as ∧
      event.step = b.step.name ∧
      ∀ key, b.step.outputKey = some key → ∃ flag : Bool,
        event.metadata.get? "outputKey" = some (.string key) ∧
        event.metadata.get? "outputStored" = some (.bool flag) ∧ flag = e.contains key ∧
        (Stores key as ↔ b.step.kind = .parallel ∨ ∃ reply v,
          settlements as = [.replied reply] ∧ b.step.assignment? reply = some (key, v)) ∧
        (Stores key as → flag = true) ∧ (b.context.contains key = true → flag = true) ∧
        (shared = false → (flag = true ↔ Stores key as ∨ b.context.contains key = true)) ∧
        ((flag = true ↔ Stores key as) ↔ (e.contains key = true → Stores key as)) := by
  rcases exists_owner h with ⟨phase, answer', heq⟩ |
    ⟨env, a, b, shared, as, e, hmakes, hpassage, hsub, hmem, howns⟩
  · cases heq
    cases hstatus
  · obtain ⟨n, cs, rfl, hperforms⟩ := howns.eq_closing hstatus
    refine ⟨env, a, b, shared, as, e, hmakes, hpassage, hsub, hmem, rfl, fun key hkey ↦ ?_⟩
    obtain ⟨hstores, hstored, hheld, honly⟩ := hperforms.contains_iff hkey
    obtain ⟨houtput, hflag⟩ := metadata_closingEvent hkey n e
    refine ⟨e.contains key, houtput, hflag, rfl, hstores, hstored, hheld, fun halone ↦ ?_, ?_⟩
    · exact ⟨honly halone, fun h ↦ h.elim hstored hheld⟩
    · exact ⟨Iff.mp, fun h ↦ ⟨h, hstored⟩⟩

/-! ## A run that is resumed with a variable -/

/-- A workflow of one agent step with an output. -/
def notingDocument : Value :=
  .object [("name", .string "noting"),
    ("phases", .array [
      .object [("agent", .string "dev"), ("name", .string "draft"), ("output", .string "notes")]]),
    ("version", .string "1")]

def draft : Step := .agent { name := "draft", agent := some "dev", output := some "notes" }

/-- A run of that workflow from a checkpoint in which the variable is set. -/
def noting : Launch where
  host :=
    { files :=
        { entries := [(["project"], .folder), (["project", "agents"], .folder),
            (["project", "agents", "dev.md"], .file "---\nname: dev\n---\n")] }
      tiers := { project := "project" } }
  runId := ⟨0⟩
  workflow := ⟨"noting", "1", {}, none, [draft]⟩
  outset := .resumed { vars := [("notes", .string "old")] } none

/-- A stage on which the agent answers with some pieces of a stream. -/
def notingStage (cues : List Rehearsal.Cue) : Rehearsal.Stage where
  script := { replies := [("*", { answers := [cues] })] }

def notingActs (cues : List Rehearsal.Cue) : List (Act Context) :=
  noting.acts Rehearsal.world (notingStage cues)

def anew : List Rehearsal.Cue := [.message (.result (some (.string "new")))]

def resultless : List Rehearsal.Cue := [.message (.assistant "done")]

def outcomeOf (q : Process.Report) : Audit.Status × Option Value :=
  (q.1.status, q.1.metadata.get? "outputStored")

theorem outputStored_noting :
    ∃ event answer, .report event answer ∈ deeds (notingActs anew) ∧ event.status = .completed ∧
      ∃ env a b shared as e,
        noting.Makes Rehearsal.world.patient (notingStage anew) env a b shared ∧
        b.Passage env shared as e ∧ .report event answer ∈ deeds as ∧ event.step = b.step.name := by
  have hreports : (Process.reports (notingActs anew)).map outcomeOf =
      [(.started, none), (.completed, some (.bool true))] := by
    decide +kernel
  obtain ⟨⟨event, answer⟩, hevent, heq⟩ := List.exists_of_mem_map
    (hreports ▸ List.mem_cons_of_mem _ List.mem_cons_self)
  have hstatus : event.status = .completed := congrArg Prod.fst heq
  have hdeed := Process.mem_reports_iff.1 hevent
  obtain ⟨env, a, b, shared, as, e, hmakes, hpassage, -, hreport, hname, -⟩ :=
    Launch.outputStored_iff hdeed hstatus
  exact ⟨event, answer, hdeed, hstatus, env, a, b, shared, as, e, hmakes, hpassage, hreport, hname⟩

def notingEnvironment : Environment := environment noting.host noting.workflow noting.runId none

/-- What is done in the call of the step when the agent gives no result. -/
def resultlessActs : List (Act Context) :=
  (draft.call notingEnvironment).acts Rehearsal.world noting.outset.context (notingStage resultless)

/-- The agent gives no result, and still the step reports that its output is stored, because of what
the checkpoint holds. -/
theorem reports_output_of_resultless :
    Definition.validate notingDocument = .ok noting.workflow ∧
    ∃ a e event answer, noting.Makes Rehearsal.world (notingStage resultless) notingEnvironment a a
        false ∧
      a.Passage notingEnvironment false resultlessActs e ∧
      (deeds resultlessActs).Sublist (deeds (notingActs resultless)) ∧
      .report event answer ∈ deeds resultlessActs ∧ event.status = .completed ∧
      a.step.outputKey = some "notes" ∧
      event.metadata.get? "outputStored" = some (.bool true) ∧ ¬Stores "notes" resultlessActs := by
  refine ⟨by decide +kernel, ?_⟩
  have hends : ((draft.call notingEnvironment).run Rehearsal.world noting.outset.context
      (notingStage resultless)).1.isSome = true := by
    decide +kernel
  have hreports : (Process.reports resultlessActs).map outcomeOf =
      [(.started, none), (.completed, some (.bool true))] := by
    decide +kernel
  have hwrites : (writes resultlessActs).map (fun f ↦ (f .empty).vars) = [[]] := by decide +kernel
  obtain ⟨⟨event, answer⟩, hevent, heq⟩ := List.exists_of_mem_map
    (hreports ▸ List.mem_cons_of_mem _ List.mem_cons_self)
  rcases hrun : (draft.call notingEnvironment).run Rehearsal.world noting.outset.context
      (notingStage resultless) with ⟨_ | ⟨a, e⟩, y⟩
  · rw [hrun] at hends
    cases hends
  · have hcalls : Calls notingEnvironment Rehearsal.world
        ⟨[], [draft], noting.outset.context, notingStage resultless⟩ draft [] a e y :=
      ⟨rfl, rfl, hrun⟩
    obtain ⟨hpassage, hstep, -⟩ := hcalls.passage
    have hvisits : noting.Visits Rehearsal.world (notingStage resultless) notingEnvironment _ :=
      ⟨_, rfl, .refl⟩
    refine ⟨a, e, event, answer, ⟨⟨_, draft, [], e, y, hvisits, hcalls⟩, .refl⟩, hpassage, ?_,
      Process.mem_reports_iff.1 hevent, congrArg Prod.fst heq, ?_, congrArg Prod.snd heq, ?_⟩
    · have hacts : notingActs resultless = _ := hcalls.acts_eq true
      rw [hacts, Process.deeds_read, Process.deeds_append]
      exact List.sublist_append_left ..
    · rw [hstep]
      rfl
    · rintro ⟨f, hf, hset⟩
      obtain ⟨v, hv⟩ := hset .empty
      have hmem := List.mem_map_of_mem (f := fun f : Context → Context ↦ (f .empty).vars)
        (List.mem_of_getLast? hf)
      rw [hwrites, List.mem_singleton] at hmem
      cases hmem.symm.trans hv

end Run

end Workflow
