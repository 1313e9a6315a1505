import Workflow.Proofs.Step.Answered

/-!
# The files that a step changes

A step that completes adds files to those that are changed, and takes none away: those that the
tools of the agent were told to write, and those that the result names. `Message.Names` and
`Value.Lists` say which these are without the functions that gather them. One kind of message does
not count: where the place of the file holds something that is not a text, the notebook beside it is
not looked at. `changedFiles_of_run` says what is added, and when that is all that is told.
-/

namespace Workflow

open Json (Members Value)
open Process (Act Path settlements writes)

/-! ## What messages and values name -/

namespace Dispatch

/-- The file that is given to a tool that writes files: the file it names, if that is a text, and
otherwise the notebook. -/
inductive Message.Names : Message → String → Prop where
  | file {tool : String} {input : Value} {path : String} : tool ∈ fileWritingTools →
      input.member? "file_path" = some (.string path) → Names (.toolUse tool input) path
  | notebook {tool : String} {input : Value} {path : String} : tool ∈ fileWritingTools →
      (∀ file, input.member? "file_path" ≠ some (.string file)) →
        input.member? "notebook_path" = some (.string path) → Names (.toolUse tool input) path

/-- A use of a tool in which the place of the file holds something that is not a text. -/
inductive Message.Masked : Message → Prop where
  | intro {tool : String} {input v : Value} : input.member? "file_path" = some v →
      (∀ file, v ≠ .string file) → Masked (.toolUse tool input)

/-- A message names a file that is not masked. -/
def Message.NamesOpenly (m : Message) (path : String) : Prop := m.Names path ∧ ¬m.Masked

theorem bind_string?_eq_some_iff {o : Option Value} {text : String} :
    o.bind Value.string? = some text ↔ o = some (.string text) := by
  rw [Option.bind_eq_some_iff]
  constructor
  · rintro ⟨v, rfl, hv⟩
    cases v with
    | string s =>
      cases hv
      rfl
    | _ => cases hv
  · rintro rfl
    exact ⟨_, rfl, rfl⟩

/-- A message counts as a change of the file that it names, unless that is masked. -/
theorem Message.changedFile_eq_some_iff {m : Message} {path : String} :
    m.changedFile = some path ↔ m.NamesOpenly path := by
  constructor
  · intro h
    cases m with
    | toolUse tool input =>
      rw [changedFile] at h
      split at h
      · next htool =>
        replace htool := List.contains_iff_mem.1 htool
        rw [bind_string?_eq_some_iff] at h
        cases hfile : input.member? "file_path" with
        | some v =>
          rw [hfile] at h
          cases h
          refine ⟨.file htool hfile, ?_⟩
          rintro ⟨hv, hno⟩
          exact hno path (Option.some.inj (hv.symm.trans hfile))
        | none =>
          rw [hfile] at h
          refine ⟨.notebook htool (by simp [hfile]) h, ?_⟩
          rintro ⟨hv, -⟩
          cases hfile.symm.trans hv
      · cases h
    | _ => cases h
  · rintro ⟨hnames, hmasked⟩
    cases hnames with
    | @file tool input path htool hfile =>
      rw [changedFile, if_pos (List.contains_iff_mem.2 htool), bind_string?_eq_some_iff, hfile]
      rfl
    | @notebook tool input path htool hno hbook =>
      rw [changedFile, if_pos (List.contains_iff_mem.2 htool), bind_string?_eq_some_iff]
      cases hfile : input.member? "file_path" with
      | some v =>
        refine absurd (.intro hfile fun file hv ↦ ?_) hmasked
        exact hno file (hv ▸ hfile)
      | none => exact hbook

/-- The changes on the way are those of the messages, in their order. -/
theorem changedFiles_ofMessages (ms : List Message) :
    (Outcome.ofMessages ms).changedFiles = ms.filterMap Message.changedFile := by
  have hfold : ∀ o : Outcome, (ms.foldl Outcome.add o).changedFiles =
      o.changedFiles ++ ms.filterMap Message.changedFile := by
    induction ms with
    | nil => exact fun o ↦ (List.append_nil _).symm
    | cons m ms ih =>
      intro o
      have hadd : (o.add m).changedFiles = o.changedFiles ++ m.changedFile.toList := rfl
      rw [List.foldl_cons, ih, hadd, List.append_assoc]
      cases hm : m.changedFile with
      | none => rw [List.filterMap_cons_none hm]; rfl
      | some path => rw [List.filterMap_cons_some hm]; rfl
  exact (hfold {}).trans (List.nil_append _)

end Dispatch

open Dispatch (Message)

/-- A value lists a file: as a text in one of its two arrays of changed files. -/
def Json.Value.Lists (v : Value) (path : String) : Prop :=
  ∃ key ∈ ["changedFiles", "filesChanged"], ∃ items,
    v.member? key = some (.array items) ∧ .string path ∈ items

theorem mem_namedFiles_iff {v : Value} {path : String} : path ∈ namedFiles v ↔ v.Lists path := by
  rw [namedFiles, List.mem_flatMap]
  refine exists_congr fun key ↦ and_congr_right fun _ ↦ ?_
  rw [List.mem_filterMap]
  constructor
  · rintro ⟨item, hitem, htext⟩
    cases hv : v.member? key with
    | none =>
      rw [hv] at hitem
      cases hitem
    | some w =>
      rw [hv] at hitem
      cases w with
      | array items =>
        cases item with
        | string s =>
          cases htext
          exact ⟨items, rfl, hitem⟩
        | _ => cases htext
      | _ => cases hitem
  · rintro ⟨items, hv, hpath⟩
    rw [hv]
    exact ⟨.string path, hpath, rfl⟩

/-! ## What a reply tells a step -/

namespace Step

/-- The files that a reply tells a step of: those that its messages name, in a certain sense, and
those that the payload of the last result lists; for a handler those that its value lists. -/
def Told (names : Message → String → Prop) : Step → Reply → String → Prop
  | .agent _, reply, path =>
    (∃ m ∈ reply.messages, names m path) ∨
      ∃ v, Dispatch.lastPayload? reply.messages = some v ∧ v.Lists path
  | .code _, reply, path => ∃ v, reply.ending = .ok v ∧ v.Lists path
  | _, _, _ => False

theorem mem_changedFiles_take {s : Step} {reply : Reply} {v : Value}
    (hs : s.kind = .agent ∨ s.kind = .code) (hv : reply.ending = .ok v) (c : Context)
    (path : String) :
    path ∈ (s.take reply v c).changedFiles ↔
      path ∈ c.changedFiles ∨ s.Told Message.NamesOpenly reply path := by
  cases s with
  | agent s =>
    have hnamed : path ∈ (Dispatch.Outcome.ofMessages reply.messages).changedFiles ↔
        ∃ m ∈ reply.messages, m.NamesOpenly path := by
      rw [Dispatch.changedFiles_ofMessages, List.mem_filterMap]
      simp only [Message.changedFile_eq_some_iff]
    rw [take, Context.takeOutcome, Dispatch.output_ofMessages, Told, ← hnamed]
    cases hout : Dispatch.lastPayload? reply.messages with
    | none => simp [Context.addFiles_eq]
    | some w => simp [Context.addFiles_eq, Context.set, mem_namedFiles_iff, or_assoc]
  | code s =>
    have htold : (Step.code s).Told Message.NamesOpenly reply path ↔
        v.Lists path := by
      rw [Told, hv]
      constructor
      · rintro ⟨w, hw, hlists⟩
        cases hw
        exact hlists
      · exact fun hlists ↦ ⟨v, rfl, hlists⟩
    rw [take, Context.takeValue, htold, ← mem_namedFiles_iff]
    split
    · next hnull =>
      cases v with
      | null => simp [namedFiles, Value.member?]
      | _ => cases hnull
    · cases s.output with
      | none => simp [Context.addFiles_eq]
      | some key => simp [Context.addFiles_eq, Context.set]
  | _ => rcases hs with hs | hs <;> cases hs

theorem Told.mono {names names' : Message → String → Prop} {s : Step} {reply : Reply}
    {path : String} (hnames : ∀ m path, names m path → names' m path)
    (h : s.Told names reply path) : s.Told names' reply path := by
  cases s with
  | agent s =>
    rcases h with ⟨m, hm, hpath⟩ | hlists
    · exact .inl ⟨m, hm, hnames m path hpath⟩
    · exact .inr hlists
  | code s => exact h
  | _ => cases h

end Step

/-! ## Steps that complete -/

variable {env : Environment} {s : Step} {as : List (Act Context)}

theorem path_of_completed {body : Process Context Course} {a : Account}
    (h : Path (s.audited env body) as a) (hcompleted : a.ending = .ok .completed) :
    ∃ bs inside, Path body bs (inside, .ok ()) ∧ writes as = writes bs ∧
      settlements as = settlements bs := by
  rcases path_audited_cases h with
    ⟨-, -, -, -, -, hending, -⟩ |
    ⟨-, bs, ⟨inside, r⟩, -, hb, hending, hwrites, hsettlements⟩ | ⟨_, _, -, hending⟩
  · cases hending.symm.trans hcompleted
  · cases r with
    | ok _ => exact ⟨bs, inside, hb, hwrites, hsettlements⟩
    | error e => cases hending.symm.trans hcompleted
  · cases hending.symm.trans hcompleted

namespace Step

/-- A step without steps inside that completes has heard a reply to its call, which came to its end,
and it has taken that and written nothing else. -/
theorem taken_of_path (hs : s.kind = .agent ∨ s.kind = .code)
    (h : Path (s.process env) as (.ok .completed)) :
    ∃ reply v, settlements as = [.replied reply] ∧ reply.ending = .ok v ∧
      writes as = [s.take reply v] := by
  obtain ⟨bs, a, cs, rfl, hb, hc⟩ := Path.of_bind h
  obtain ⟨rfl, hcompleted⟩ := hc.of_done
  rw [call_eq] at hb
  obtain ⟨ds, inside, hbody, hwrites, hsettlements⟩ := path_of_completed hb hcompleted.symm
  rw [List.append_nil, hwrites, hsettlements]
  rcases answered_of_body hs hbody with ⟨e, hfails⟩ | ⟨-, answer, hanswer, -, heq⟩
  · rw [hfails] at hbody
    cases hbody.of_done.2
  · obtain ⟨reply, v, rfl, hv, htaken⟩ := eq_replied_of_ok heq
    exact ⟨reply, v, hanswer, hv, htaken⟩

/-- Files to which the open ones are added are all that is told of, if what is masked is among
them. -/
theorem forall_mem_iff_told {reply : Reply} {before after : List String}
    (h : ∀ path, path ∈ after ↔
      path ∈ before ∨ s.Told Message.NamesOpenly reply path) :
    (∀ path, path ∈ after ↔ path ∈ before ∨ s.Told Message.Names reply path) ↔
      (s.kind = .agent → ∀ m ∈ reply.messages, m.Masked → ∀ path, m.Names path → path ∈ after) := by
  constructor
  · intro hall hs m hm _ path hnames
    cases s with
    | agent s => exact (hall path).2 (.inr (.inl ⟨m, hm, hnames⟩))
    | _ => cases hs
  · intro hmasked path
    constructor
    · intro hpath
      exact ((h path).1 hpath).imp_right (Told.mono fun _ _ hopen ↦ hopen.1)
    · rintro (hpath | htold)
      · exact (h path).2 (.inl hpath)
      · cases s with
        | agent s =>
          rcases htold with ⟨m, hm, hnames⟩ | hlists
          · by_cases hm' : m.Masked
            · exact hmasked rfl m hm hm' path hnames
            · exact (h path).2 (.inr (.inl ⟨m, hm, hnames, hm'⟩))
          · exact (h path).2 (.inr (.inr hlists))
        | code s => exact (h path).2 (.inr htold)
        | _ => cases htold

variable {ω : Type} {w : World ω} {c c' : Context} {x y : ω}

/-- **Changed files.** If a step that sends a prompt or calls a handler completes, it has heard one
reply, and the changed files are those there were, the files that the messages for an agent name
without a mask, and the files that the payload of the last result or the value of the handler lists;
a variable for the value makes no difference. So they are all that the reply tells of, unless a
message names a notebook under a mask and that is not among them in another way.

The same is added by what such a step writes on any path, whatever else is done to the context in
the meantime. -/
theorem changedFiles_of_run (hs : s.kind = .agent ∨ s.kind = .code)
    (h : (s.process env).run w c x = (some (.ok .completed, c'), y)) :
    (∃ reply v, settlements ((s.process env).acts w c x) = [.replied reply] ∧
      reply.ending = .ok v ∧
      (∀ path, path ∈ c'.changedFiles ↔ path ∈ c.changedFiles ∨
        s.Told Message.NamesOpenly reply path) ∧
      ((∀ path, path ∈ c'.changedFiles ↔
          path ∈ c.changedFiles ∨ s.Told Message.Names reply path) ↔
        (s.kind = .agent → ∀ m ∈ reply.messages, m.Masked → ∀ path, m.Names path →
          path ∈ c'.changedFiles))) ∧
    ∀ as, Path (s.process env) as (.ok .completed) → ∃ reply v f,
      settlements as = [.replied reply] ∧ reply.ending = .ok v ∧ writes as = [f] ∧
      ∀ m path, path ∈ (f m).changedFiles ↔ path ∈ m.changedFiles ∨
        s.Told Message.NamesOpenly reply path := by
  constructor
  · obtain ⟨reply, v, hreply, hv, hwrites⟩ := taken_of_path hs (Process.path_acts h)
    have hstate := Process.state_eq h
    rw [hwrites] at hstate
    have hfiles : ∀ path, path ∈ c'.changedFiles ↔ path ∈ c.changedFiles ∨
        s.Told Message.NamesOpenly reply path := by
      rw [hstate]
      exact mem_changedFiles_take hs hv c
    exact ⟨reply, v, hreply, hv, hfiles, forall_mem_iff_told hfiles⟩
  · intro as hpath
    obtain ⟨reply, v, hreply, hv, hwrites⟩ := taken_of_path hs hpath
    exact ⟨reply, v, s.take reply v, hreply, hv, hwrites, mem_changedFiles_take hs hv⟩

end Step

/-! ## A notebook under a mask -/

def Settlement.messages : Settlement → List Message
  | .replied reply => reply.messages
  | _ => []

namespace Step

def draftingAnswers (ms : List Message) : List Settlement :=
  settlements ((drafting.process draftingEnvironment).acts acceptingWorld .empty
    (draftingStage (ms.map .message)))

theorem exists_reply_of_drafting (ms : List Message) (files : List String)
    (hends : (draftingRun (ms.map .message)).1.map (fun r ↦ (r.1, r.2.changedFiles)) =
      some (.ok .completed, files))
    (hheard : (draftingAnswers ms).map Settlement.messages = [ms]) :
    ∃ c' y reply, draftingRun (ms.map .message) = (some (.ok .completed, c'), y) ∧
      draftingAnswers ms = [.replied reply] ∧ reply.messages = ms ∧ c'.changedFiles = files := by
  rcases hrun : draftingRun (ms.map .message) with ⟨_ | ⟨r, c'⟩, y⟩
  · rw [hrun] at hends
    cases hends
  · rw [hrun] at hends
    obtain ⟨rfl, hfiles⟩ := Prod.mk.inj (Option.some.inj hends)
    obtain ⟨reply, v, hreply, -⟩ := taken_of_path (.inl rfl) (Process.path_acts hrun)
    have hanswers : draftingAnswers ms = [.replied reply] := hreply
    rw [hanswers] at hheard
    exact ⟨c', y, reply, rfl, hanswers, (List.cons.inj hheard).1, hfiles⟩

/-- The agent writes a file and a notebook, reads another file, and lists what it has changed, with
an item that is no text. -/
def noted : List Message :=
  [.toolUse "Write" (.object [("file_path", .string "a.md")]),
    .toolUse "Read" (.object [("file_path", .string "b.md")]),
    .toolUse "NotebookEdit" (.object [("notebook_path", .string "c.ipynb")]),
    .result (some (.object
      [("changedFiles", .array [.string "d.md", .ofNat 1]), ("filesChanged", .string "e.md")]))]

theorem not_masked_of_mem_noted {m : Message} (hm : m ∈ noted) : ¬m.Masked := by
  intro hmasked
  simp only [noted, List.mem_cons, List.not_mem_nil, or_false] at hm
  rcases hm with rfl | rfl | rfl | rfl
  · obtain ⟨hv, hno⟩ := hmasked
    cases hv
    exact hno "a.md" rfl
  · obtain ⟨hv, hno⟩ := hmasked
    cases hv
    exact hno "b.md" rfl
  · obtain ⟨hv, -⟩ := hmasked
    cases hv
  · cases hmasked

theorem changedFiles_noted : ∃ c' y reply,
    draftingRun (noted.map .message) = (some (.ok .completed, c'), y) ∧
    draftingAnswers noted = [.replied reply] ∧ reply.messages = noted ∧
    c'.changedFiles = ["a.md", "c.ipynb", "d.md"] ∧
    ∀ path, path ∈ c'.changedFiles ↔ path ∈ ([] : List String) ∨
      drafting.Told Message.Names reply path := by
  obtain ⟨c', y, reply, hrun, hanswers, hmessages, hfiles⟩ :=
    exists_reply_of_drafting noted ["a.md", "c.ipynb", "d.md"] (by decide +kernel)
      (by decide +kernel)
  obtain ⟨⟨heard, v, hheard, -, -, hall⟩, -⟩ := changedFiles_of_run (.inl rfl) hrun
  obtain rfl : reply = heard := by cases hanswers.symm.trans hheard; rfl
  refine ⟨c', y, reply, hrun, hanswers, hmessages, hfiles, hall.2 fun _ m hm hmasked ↦ ?_⟩
  exact absurd hmasked (not_masked_of_mem_noted (hmessages ▸ hm))

/-- The only message names a notebook, beside a file that is null. -/
def maskedNotebook : Message :=
  .toolUse "NotebookEdit" (.object [("file_path", .null), ("notebook_path", .string "a.ipynb")])

theorem notebook_overlooked : ∃ c' y reply,
    draftingRun [.message maskedNotebook] = (some (.ok .completed, c'), y) ∧
    draftingAnswers [maskedNotebook] = [.replied reply] ∧
    drafting.Told Message.Names reply "a.ipynb" ∧ "a.ipynb" ∉ c'.changedFiles := by
  obtain ⟨c', y, reply, hrun, hanswers, hmessages, hfiles⟩ :=
    exists_reply_of_drafting [maskedNotebook] [] (by decide +kernel) (by decide +kernel)
  refine ⟨c', y, reply, hrun, hanswers, .inl ⟨maskedNotebook, ?_, ?_⟩, ?_⟩
  · rw [hmessages]
    exact List.mem_singleton_self _
  · exact .notebook (by decide) (fun _ h ↦ by cases h) rfl
  · rw [hfiles]
    exact List.not_mem_nil

end Step

end Workflow
