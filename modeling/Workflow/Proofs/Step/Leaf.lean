import Workflow.Proofs.Account.Call
import Workflow.Proofs.Json.Members
import Workflow.Proofs.Process.Recording
import Workflow.Rehearsal

/-!
# Steps without steps inside

A step that sends a prompt or calls a handler changes the context in one place only, after
everything that can fail: it takes the reply of its one call. So if it fails or is skipped, it has
written nothing at all, whatever it was answered before; and if it completes, it has set the
variable of its output, if there was a value for it, and has added files. `Step.Leaf` says so for
every path of such a step, and thus also for a step among others that use the same context.

What a run makes of the context is what the writes on its path make of it: `Process.state_eq`.
-/

namespace Workflow

open Json (Members Value)
open Process (Path Act reports writes settlements)

/-! ## Taking a reply -/

namespace Dispatch

/-- What a message gives as a result: a payload, or none. -/
def Message.payload? : Message → Option (Option Value)
  | .result payload => some payload
  | _ => none

/-- The payload of the last result among some messages. There is none if there is no result, or if
the last one has no payload. -/
def lastPayload? (ms : List Message) : Option Value := (ms.filterMap Message.payload?).getLast?.join

theorem output_foldl (o : Outcome) (ms : List Message) :
    (ms.foldl Outcome.add o).output = (ms.filterMap Message.payload?).getLast?.getD o.output := by
  induction ms generalizing o with
  | nil => rfl
  | cons m ms ih =>
    rw [List.foldl_cons, ih]
    cases m with
    | result payload =>
      have hcons : (Message.result payload :: ms).filterMap Message.payload? =
          payload :: ms.filterMap Message.payload? := rfl
      rw [hcons, List.getLast?_cons, Option.getD_some]
      rfl
    | _ => rfl

/-- Of all results only the last one counts. -/
theorem output_ofMessages (ms : List Message) :
    (Outcome.ofMessages ms).output = lastPayload? ms := by
  rw [Outcome.ofMessages, output_foldl, lastPayload?]
  cases (ms.filterMap Message.payload?).getLast? with
  | none => rfl
  | some payload => rfl

end Dispatch

/-- The variable that a step sets when it takes a reply, with its value. A prompt sets it if the
last result has a payload, a handler if there is an output for its value and the value is not
null. -/
def Step.assignment? : Step → Reply → Option (String × Value)
  | .agent s, reply =>
    (Dispatch.lastPayload? reply.messages).map fun v ↦ (s.output.getD s.name, v)
  | .code s, ⟨_, .ok v⟩ => if v.isNull then none else s.output.map fun key ↦ (key, v)
  | _, _ => none

theorem Step.outputKey_of_assignment? {s : Step} {reply : Reply} {key : String} {v : Value}
    (h : s.assignment? reply = some (key, v)) : s.outputKey = some key := by
  cases s with
  | agent s =>
    obtain ⟨v', -, hv⟩ := Option.map_eq_some_iff.1 h
    cases hv
    rfl
  | code s =>
    obtain ⟨messages, _ | v'⟩ := reply
    · cases h
    · rw [assignment?] at h
      split at h
      · cases h
      · obtain ⟨key', hkey, hv⟩ := Option.map_eq_some_iff.1 h
        cases hv
        exact hkey
  | _ => cases h

namespace Context

variable {c d : Context} {s : Step} {reply : Reply}

theorem addFiles_eq (c : Context) (paths : List String) :
    c.addFiles paths = { c with changedFiles := c.changedFiles.insertAll paths } := by
  induction paths generalizing c with
  | nil => rfl
  | cons path paths ih => exact ih (c.addFile path)

/-- What a step makes of a context by taking a reply: it may set the variable of its output and add
files, and nothing else changes. -/
structure Takes (s : Step) (reply : Reply) (c d : Context) : Prop where
  vars_eq : d.vars =
    match s.assignment? reply with
    | some (key, v) => c.vars.insert key v
    | none => c.vars
  changedFiles : c.changedFiles ⊆ d.changedFiles
  eq_frame : d = { c with vars := d.vars, changedFiles := d.changedFiles }

theorem Takes.get?_eq (h : Takes s reply c d) {name : String} (hname : s.outputKey ≠ some name) :
    d.vars.get? name = c.vars.get? name := by
  rw [h.vars_eq]
  split
  · next key v hassign =>
    rw [Members.get?_insert, if_neg]
    rintro rfl
    exact hname (Step.outputKey_of_assignment? hassign)
  · rfl

theorem takes_takeOutcome (s : AgentStep) (reply : Reply) (c : Context) :
    Takes (.agent s) reply c (c.takeOutcome s (.ofMessages reply.messages)) := by
  rw [takeOutcome, Dispatch.output_ofMessages]
  cases hv : Dispatch.lastPayload? reply.messages with
  | none =>
    dsimp only
    rw [addFiles_eq]
    refine ⟨?_, fun _ h ↦ Text.NameSet.mem_insertAll.2 (.inl h), rfl⟩
    rw [Step.assignment?, hv]
    rfl
  | some v =>
    dsimp only
    rw [addFiles_eq, addFiles_eq, set]
    refine ⟨?_, fun _ h ↦ ?_, rfl⟩
    · rw [Step.assignment?, hv]
      rfl
    · exact Text.NameSet.mem_insertAll.2 (.inl (Text.NameSet.mem_insertAll.2 (.inl h)))

theorem takes_takeValue (s : CodeStep) {v : Value} (hv : reply.ending = .ok v) (c : Context) :
    Takes (.code s) reply c (c.takeValue s v) := by
  obtain ⟨messages, ending⟩ := reply
  cases hv
  rw [takeValue]
  by_cases hnull : v.isNull = true
  · rw [if_pos hnull]
    refine ⟨?_, List.Subset.refl _, rfl⟩
    rw [Step.assignment?, if_pos hnull]
  · rw [if_neg hnull, addFiles_eq]
    have hfiles : c.changedFiles ⊆ c.changedFiles.insertAll (namedFiles v) := fun _ h ↦
      Text.NameSet.mem_insertAll.2 (.inl h)
    cases ho : s.output with
    | none =>
      refine ⟨?_, hfiles, rfl⟩
      rw [Step.assignment?, if_neg hnull, ho]
      rfl
    | some key =>
      refine ⟨?_, hfiles, rfl⟩
      rw [Step.assignment?, if_neg hnull, ho]
      rfl

end Context

/-! ## Paths -/

/-- What a step that has no steps inside did on a path on which it ended without being skipped. -/
inductive Step.Leaf (s : Step) (as : List (Act Context)) : Except StepError Unit → Prop where
  /-- It failed, and has not written anything. -/
  | failed (e : StepError) : writes as = [] → Leaf s as (.error e)
  /-- It heard a reply to its only call, and has taken that. -/
  | taken {reply : Reply} {v : Value} {f : Context → Context} :
      settlements as = [.replied reply] → reply.ending = .ok v → writes as = [f] →
        (∀ c, Context.Takes s reply c (f c)) → Leaf s as (.ok ())

variable {env : Environment} {s : Step} {as : List (Act Context)} {r : Except StepError Unit}

theorem Step.Leaf.of_eq {bs : List (Act Context)} (h : s.Leaf as r)
    (hwrites : writes bs = writes as) (hsettlements : settlements bs = settlements as) :
    s.Leaf bs r := by
  cases h with
  | failed e hnil => exact .failed e (hwrites.trans hnil)
  | taken hreply hok hf htakes =>
    exact .taken (hsettlements.trans hreply) hok (hwrites.trans hf) htakes

theorem leaf_of_error {e : StepError} (h : Path (.done (.error e)) as r) : s.Leaf as r := by
  obtain ⟨rfl, rfl⟩ := h.of_done
  exact .failed e rfl

theorem path_of_settle {c : Call} {limit : Option Nat} {settlement : Settlement}
    (h : Path (Process.settle c limit : Process Context Settlement) as settlement) :
    writes as = [] ∧ settlements as = [settlement] := by
  obtain ⟨b, bs, rfl, hb⟩ := h.of_call
  cases b with
  | settled s =>
    obtain ⟨rfl, rfl⟩ := hb.of_done
    exact ⟨rfl, rfl⟩
  | pending t =>
    obtain ⟨t, s, cs, rfl, hc⟩ := hb.of_await
    obtain ⟨rfl, rfl⟩ := hc.of_done
    exact ⟨rfl, rfl⟩

/-- A call whose reply is taken, unless the reply breaks off. -/
theorem leaf_of_calling {name : String} {call : Call} {failure : String → StepError}
    {take : Reply → Value → Context → Context}
    (htake : ∀ reply v, reply.ending = .ok v → ∀ c, Context.Takes s reply c (take reply v c))
    (h : Path (calling env name call fun reply ↦
      match reply.ending with
      | .error reason => .done (.error (failure reason))
      | .ok v => .write (take reply v) (.done (.ok ()))) as r) :
    s.Leaf as r := by
  obtain ⟨bs, settlement, cs, rfl, hb, hc⟩ := Path.of_bind h
  obtain ⟨hwrites, hsettlements⟩ := path_of_settle hb
  cases settlement with
  | timedOut _ | cancelled =>
    obtain ⟨rfl, rfl⟩ := hc.of_done
    rw [List.append_nil]
    exact .failed _ hwrites
  | replied reply =>
    dsimp only at hc
    cases hending : reply.ending with
    | error reason =>
      rw [hending] at hc
      obtain ⟨rfl, rfl⟩ := hc.of_done
      rw [List.append_nil]
      exact .failed _ hwrites
    | ok v =>
      rw [hending] at hc
      obtain ⟨ds, rfl, hd⟩ := hc.of_write
      obtain ⟨rfl, rfl⟩ := hd.of_done
      refine .taken ?_ hending ?_ (htake reply v hending)
      · rw [Process.settlements_append, hsettlements]
        rfl
      · rw [Process.writes_append, hwrites]
        rfl

theorem AgentStep.leaf_of_path {t : AgentStep} (h : Path (t.process env) as r) :
    (Step.agent t).Leaf as r := by
  unfold AgentStep.process at h
  split at h
  · exact leaf_of_error h
  · dsimp only at h
    split at h
    · exact leaf_of_error h
    · obtain ⟨c, bs, rfl, hb⟩ := h.of_read
      have hleaf : (Step.agent t).Leaf bs r :=
        leaf_of_calling (fun reply _ _ ↦ Context.takes_takeOutcome t reply) hb
      exact hleaf.of_eq rfl rfl

theorem CodeStep.leaf_of_path {t : CodeStep} (h : Path (t.process env) as r) :
    (Step.code t).Leaf as r := by
  unfold CodeStep.process at h
  split at h
  · exact leaf_of_error h
  · obtain ⟨c, bs, rfl, hb⟩ := h.of_read
    have hleaf : (Step.code t).Leaf bs r :=
      leaf_of_calling (fun _ _ hv ↦ Context.takes_takeValue t hv) hb
    exact hleaf.of_eq rfl rfl

theorem leaf_of_alone {p : Behaviour Unit} {course : Course}
    (hp : ∀ {as r}, Path p as r → s.Leaf as r) (h : Path p.alone as course) :
    s.Leaf as course.2 := by
  obtain ⟨bs, r, cs, rfl, hb, hc⟩ := Path.of_bind h
  obtain ⟨rfl, rfl⟩ := hc.of_done
  rw [List.append_nil]
  exact hp hb

/-- Where the sink accepts everything, a call is skipped, or it goes the way of what is inside
it. -/
theorem path_of_audited {body : Process Context Course} {a : Account}
    (h : Path (s.audited env body) as a) (haccepted : ∀ q ∈ reports as, q.2 = none) :
    (∃ c reason, skipReason env c s = some reason ∧ a.ending = .ok .skipped ∧ writes as = [] ∧
      settlements as = []) ∨
    ∃ c bs course, skipReason env c s = none ∧ Path body bs course ∧
      a.ending = course.2.map (fun _ ↦ .completed) ∧ writes as = writes bs ∧
      settlements as = settlements bs := by
  rcases path_audited_cases h with
    ⟨c, -, reason, -, hskipped⟩ | hrun | ⟨e, reason, hrefused, -⟩
  · exact .inl ⟨c, reason, hskipped⟩
  · exact .inr hrun
  · cases haccepted _ hrefused

theorem leaf_of_audited {body : Process Context Course} {a : Account}
    (hbody : ∀ {as course}, Path body as course → s.Leaf as course.2)
    (h : Path (s.audited env body) as a) (haccepted : ∀ q ∈ reports as, q.2 = none) :
    a.ending = .ok .skipped ∧ writes as = [] ∨
      ∃ r, a.ending = r.map (fun _ ↦ .completed) ∧ s.Leaf as r := by
  rcases path_of_audited h haccepted with
    ⟨-, -, -, hending, hwrites, -⟩ | ⟨-, bs, course, -, hb, hending, hwrites, hsettlements⟩
  · exact .inl ⟨hending, hwrites⟩
  · exact .inr ⟨course.2, hending, (hbody hb).of_eq hwrites hsettlements⟩

namespace Step

theorem leaf_of_path (hs : s.kind = .agent ∨ s.kind = .code) {a : Account}
    (h : Path (s.call env) as a) (haccepted : ∀ q ∈ reports as, q.2 = none) :
    a.ending = .ok .skipped ∧ writes as = [] ∨
      ∃ r, a.ending = r.map (fun _ ↦ .completed) ∧ s.Leaf as r := by
  cases s with
  | agent t =>
    rw [call] at h
    exact leaf_of_audited (leaf_of_alone AgentStep.leaf_of_path) h haccepted
  | code t =>
    rw [call] at h
    exact leaf_of_audited (leaf_of_alone CodeStep.leaf_of_path) h haccepted
  | _ => rcases hs with hs | hs <;> cases hs

theorem writes_of_path (hs : s.kind = .agent ∨ s.kind = .code) {r : Except StepError StepStatus}
    (h : Path (s.process env) as r) (haccepted : ∀ q ∈ reports as, q.2 = none) :
    (∀ e, r = .error e → writes as = []) ∧ (r = .ok .skipped → writes as = []) ∧
    (r = .ok .completed → ∃ reply v f, settlements as = [.replied reply] ∧ reply.ending = .ok v ∧
      writes as = [f] ∧ ∀ c, Context.Takes s reply c (f c)) := by
  obtain ⟨bs, a, cs, rfl, hb, hc⟩ := Path.of_bind h
  obtain ⟨rfl, rfl⟩ := hc.of_done
  rw [List.append_nil] at haccepted ⊢
  rcases leaf_of_path hs hb haccepted with ⟨ha, hnil⟩ | ⟨r, ha, hleaf⟩
  · refine ⟨fun _ _ ↦ hnil, fun _ ↦ hnil, fun hcompleted ↦ ?_⟩
    cases ha.symm.trans hcompleted
  · rw [ha]
    cases hleaf with
    | failed e hnil => exact ⟨fun _ _ ↦ hnil, fun _ ↦ hnil, nofun⟩
    | taken hreply hok hf htakes => exact ⟨nofun, nofun, fun _ ↦ ⟨_, _, _, hreply, hok, hf, htakes⟩⟩

variable {ω : Type} {w : World ω} {c c' : Context} {x y : ω} {r : Except StepError StepStatus}

/-- **Steps without steps inside.** If the sink accepts every event, a step that sends a prompt or
calls a handler leaves the context exactly as it was when it fails, whatever came before the
failure, and also when it is skipped. If it completes, a reply to its only call has come to its end,
and the context has taken that: of the variables only that of the output of the step may differ, and
it is set just if the reply has a value for it.

The same is true of what such a step writes on any path, whatever else is done to the context in the
meantime. -/
theorem takes_of_run (hs : s.kind = .agent ∨ s.kind = .code) (hw : w.Accepts)
    (h : (s.process env).run w c x = (some (r, c'), y)) :
    (∀ e, r = .error e → c' = c) ∧ (r = .ok .skipped → c' = c) ∧
    (r = .ok .completed → ∃ reply v,
      settlements ((s.process env).acts w c x) = [.replied reply] ∧ reply.ending = .ok v ∧
      (c'.vars =
        match s.assignment? reply with
        | some (key, v) => c.vars.insert key v
        | none => c.vars) ∧
      (∀ name, s.outputKey ≠ some name → c'.vars.get? name = c.vars.get? name) ∧
      c.changedFiles ⊆ c'.changedFiles ∧
      c' = { c with vars := c'.vars, changedFiles := c'.changedFiles }) ∧
    ∀ as r, Path (s.process env) as r → (∀ q ∈ reports as, q.2 = none) →
      (∀ e, r = .error e → writes as = []) ∧ (r = .ok .skipped → writes as = []) ∧
      (r = .ok .completed → ∃ reply v f, settlements as = [.replied reply] ∧
        reply.ending = .ok v ∧ writes as = [f] ∧ ∀ c, Context.Takes s reply c (f c)) := by
  have hstate := Process.state_eq h
  obtain ⟨herror, hskipped, hcompleted⟩ :=
    writes_of_path hs (Process.path_acts h) (Process.accepted_of_mem_reports hw _ c x)
  refine ⟨fun e he ↦ ?_, fun hskip ↦ ?_, fun hcomplete ↦ ?_, ?_⟩
  · rw [hstate, herror e he]
    rfl
  · rw [hstate, hskipped hskip]
    rfl
  · obtain ⟨reply, v, f, hreply, hok, hf, htakes⟩ := hcompleted hcomplete
    have hc' : c' = f c := by
      rw [hstate, hf]
      rfl
    have htaken := htakes c
    rw [← hc'] at htaken
    exact ⟨reply, v, hreply, hok, htaken.vars_eq, fun _ ↦ htaken.get?_eq, htaken.changedFiles,
      htaken.eq_frame⟩
  · intro as r hpath haccepted
    exact writes_of_path hs hpath haccepted

/-! ## Replies that break off, and results without a payload -/

/-- The world of rehearsals with a sink that accepts every event. -/
def acceptingWorld : World Rehearsal.Stage := { Rehearsal.world with report := fun _ x ↦ (none, x) }

def drafting : Step := .agent { name := "draft", agent := some "writer" }

def draftingEnvironment : Environment where
  files :=
    { entries := [(["project"], .folder), (["project", "agents"], .folder),
        (["project", "agents", "writer.md"], .file "---\nname: writer\n---\n")] }
  tiers := { project := "project" }

/-- A stage on which the agent answers with some pieces of a stream. -/
def draftingStage (cues : List Rehearsal.Cue) : Rehearsal.Stage where
  script := { replies := [("*", { answers := [cues] })] }

/-- A file is written and there is a result, and then the stream breaks off. -/
def brokenOff : List Rehearsal.Cue :=
  [.message (.toolUse "Write" (.object [("file_path", .string "a.md")])),
    .message (.result (some (.string "text"))), .fail "gone"]

/-- A result with a payload, and then one without. -/
def takenBack : List Rehearsal.Cue :=
  [.message (.result (some (.string "text"))), .message (.result none)]

def draftingRun (cues : List Rehearsal.Cue) :
    Option (Except StepError StepStatus × Context) × Rehearsal.Stage :=
  (drafting.process draftingEnvironment).run acceptingWorld .empty (draftingStage cues)

theorem takes_of_drafting :
    acceptingWorld.Accepts ∧
    (∃ y, draftingRun brokenOff = (some (.error (.dispatch "draft" "gone"), .empty), y)) ∧
    ∃ c' y, draftingRun takenBack = (some (.ok .completed, c'), y) ∧
      c'.contains "draft" = false ∧ c'.vars.get? "other" = none := by
  have hw : acceptingWorld.Accepts := fun _ _ ↦ rfl
  refine ⟨hw, ?_, ?_⟩
  · have hends :
        (draftingRun brokenOff).1.map (·.1) = some (.error (.dispatch "draft" "gone")) := by
      decide +kernel
    rcases hrun : draftingRun brokenOff with ⟨_ | ⟨r, c'⟩, y⟩
    · rw [hrun] at hends
      cases hends
    · rw [hrun] at hends
      cases hends
      obtain ⟨herror, -⟩ := takes_of_run (.inl rfl) hw hrun
      exact ⟨y, by rw [herror _ rfl]⟩
  · have hends : (draftingRun takenBack).1.map (fun r ↦ (r.1, r.2.contains "draft")) =
        some (.ok .completed, false) := by
      decide +kernel
    rcases hrun : draftingRun takenBack with ⟨_ | ⟨r, c'⟩, y⟩
    · rw [hrun] at hends
      cases hends
    · rw [hrun] at hends
      obtain ⟨rfl, hunset⟩ := Prod.mk.inj (Option.some.inj hends)
      obtain ⟨-, -, hcompleted, -⟩ := takes_of_run (.inl rfl) hw hrun
      obtain ⟨reply, v, -, -, -, hvars, -⟩ := hcompleted rfl
      exact ⟨c', y, rfl, hunset, hvars "other" (by decide)⟩

end Step

end Workflow
