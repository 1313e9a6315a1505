import Workflow.Proofs.Run.StoredOutput
import Workflow.Proofs.Step.Order
import Workflow.Proofs.Text.Split

/-!
# What a group gathers

A group that completes puts an object under its output. The object is meant to have an entry for
each child that has stored a value, and no other entry (`Group.Gathers`). But the group does not ask
what its children did: it looks the outputs of all of them up in the context that they leave. So
there is an entry under the output of a child that was skipped if anything is found there, left by
an earlier step or by a checkpoint, or reached by a dotted path; and what a child has stored is not
there any more if somebody else has stored another value under the same name.

`Account.Passage.gathers_iff` says that these are the only ways in which the object can be wrong.
-/

namespace Workflow

open Json (Members Value)
open Process (Act Leads deeds settlements writes)
open Context (anyGrowth Rely)

/-! ## Look-up -/

namespace Context

variable {c d : Context} {name : String} {v : Value}

theorem get?_eq_of_contains (h : c.contains name = true) : c.get? name = c.vars.get? name := by
  obtain ⟨v, hv⟩ := Option.isSome_iff_exists.1 h
  rw [get?, hv]

theorem get?_eq_of_notMem (h : '.' ∉ name.toList) : c.get? name = c.vars.get? name := by
  rw [get?, Text.segments, Text.splitOn_of_notMem h]
  cases hv : c.vars.get? name with
  | some v => rfl
  | none => simp [hv]

/-- The entries of the object that a group sets are what is found under the outputs of its
children. -/
theorem outputs_eq (ss : List Step) (c : Context) : ∃ ms : Members Value,
    c.outputs ss = .object ms ∧ ms.Sorted ∧
    ∀ name v, ms.get? name = some v ↔
      name ∈ ss.filterMap Step.outputKey ∧ c.get? name = some v := by
  have hfound : c.outputs ss = .object (Members.ofList
      ((ss.filterMap Step.outputKey).filterMap fun key ↦ (c.get? key).map fun v ↦ (key, v))) := by
    rw [outputs, List.filterMap_filterMap]
    congr 3
    funext s
    cases s.outputKey with
    | none => rfl
    | some key => exact Option.map_eq_bind.symm
  refine ⟨_, hfound, Members.sorted_ofList _, fun name v ↦ ?_⟩
  rw [Members.ofList, Members.get?_insertAll_filterMap, Members.get?_nil, Option.or_none]
  by_cases hname : name ∈ ss.filterMap Step.outputKey
  · rw [if_pos hname]
    exact (and_iff_right hname).symm
  · rw [if_neg hname]
    exact iff_of_false (by simp) fun h ↦ hname h.1

end Context

/-! ## Children -/

namespace Group

/-- A call inside a group: what was done in it, its account, and the context that it left. -/
structure Child where
  acts : List (Act Context)
  account : Account
  left : Context

def Child.outputKey (k : Child) : Option String := k.account.step.outputKey

/-- A child has stored a value under its output: it has set the variable, and the value is there
when it ends. -/
structure Child.Stored (k : Child) (name : String) (v : Value) : Prop where
  outputKey_eq : k.outputKey = some name
  stores : Stores name k.acts
  get?_eq : k.left.vars.get? name = some v

/-- The calls inside a group, interleaved in what was done in it. They begin and end between the
context that the group begins in and one in which all of them have ended. If nobody else works on
the context, that one is made by their writes. -/
structure Ran (env : Environment) (shared : Bool) (a : Account) (as : List (Act Context))
    (ks : List Child) (m : Context) : Prop where
  inside_eq : ks.map Child.account = a.inside
  passage : ∀ k ∈ ks, k.account.Passage env true k.acts k.left
  begins : ∀ k ∈ ks, anyGrowth.Later a.context k.account.context
  ends : ∀ k ∈ ks, anyGrowth.Later k.left m
  acts : ∃ ns, Interleaved (ks.map Child.acts) ns ∧ (deeds ns).Sublist (deeds as) ∧
    (writes ns).Sublist (writes as) ∧
    (shared = false → m = (writes ns).foldl (fun c f ↦ f c) a.context)

/-- No two children have stored a value under the same name. -/
def Apart (ks : List Child) : Prop :=
  ks.Pairwise fun k k' ↦ ∀ name v v', k.Stored name v → ¬k'.Stored name v'

/-- Some members are one entry for each child that has stored a value, and there are no others. -/
structure Gathers (ks : List Child) (ms : Members Value) : Prop where
  entry : ∀ k ∈ ks, ∀ name v, k.Stored name v → ms.get? name = some v
  only : ∀ name v, ms.get? name = some v → ∃ k ∈ ks, k.Stored name v
  apart : Apart ks

variable {env : Environment} {shared : Bool} {g : Group} {ss : List Step} {a : Account}
  {as : List (Act Context)} {c d m : Context} {ks : List Child} {name : String} {v : Value}

theorem Child.Stored.contains {k : Child} (h : k.Stored name v) (hm : anyGrowth.Later k.left m) :
    m.contains name = true :=
  Context.contains_of_later hm (by rw [Context.contains, Members.contains, h.get?_eq]; rfl)

theorem exists_children {ls : List (List (Act Context) × Account)}
    {P : List (Act Context) × Account → Context → Prop} (h : ∀ l ∈ ls, ∃ e, P l e) :
    ∃ ks : List Child, ks.map (fun k ↦ (k.acts, k.account)) = ls ∧
      ∀ k ∈ ks, P (k.acts, k.account) k.left := by
  induction ls with
  | nil => exact ⟨[], rfl, nofun⟩
  | cons l ls ih =>
    obtain ⟨⟨e, he⟩, h⟩ := List.forall_mem_cons.1 h
    obtain ⟨ks, rfl, hks⟩ := ih h
    exact ⟨⟨l.1, l.2, e⟩ :: ks, rfl, List.forall_mem_cons.2 ⟨he, hks⟩⟩

theorem exists_ran (h : a.Passage env shared as d) (hstep : a.step = .parallel g ss) {key : String}
    (hkey : g.output = some key) (hcompleted : a.ending = .ok .completed) :
    ∃ ks m, Ran env shared a as ks m ∧ (ks.map fun k ↦ k.account.step).Perm ss ∧
      (∀ k ∈ ks, k.account.error? = none) ∧ d = m.set key (m.outputs ss) := by
  rcases h.cases with hdeclines | ⟨bs, r, answer, hperforms⟩
  · obtain ⟨status, n, answer, -, -, hending, -⟩ := hdeclines.deeds_eq
    rw [hcompleted] at hending
    cases answer <;> cases hending
  · have hbody := hperforms.body
    rw [hstep] at hbody
    obtain ⟨es, inside, m, fs, rfl, hchildren, hclosing⟩ := Leads.of_bind hbody
    obtain ⟨heq, hleft, -⟩ := eq_left_of_closing hclosing
    obtain ⟨rfl, rfl⟩ := Prod.mk.inj heq
    have hok : firstError a.inside = .ok () := hperforms.eq_ok (by rw [Account.error?, hcompleted])
    unfold left at hleft
    rw [hok, hkey] at hleft
    obtain ⟨ls, ns, hls, hsteps, hpassages, hi, hsub, hdeeds, hstate⟩ := leads_of_children hchildren
    obtain ⟨ks, rfl, hks⟩ := exists_children hpassages
    rw [List.map_map] at hls hi
    have hinside : ks.map Child.account = a.inside := hls
    have hinterleaved : Interleaved (ks.map Child.acts) ns := hi
    refine ⟨ks, m, ⟨hinside, fun k hk ↦ (hks k hk).2.1, fun k hk ↦ (hks k hk).1,
      fun k hk ↦ (hks k hk).2.2, ns, hinterleaved, ?_, ?_, hstate⟩, ?_, fun k hk ↦ ?_, hleft⟩
    · obtain ⟨n, t, heq⟩ := hperforms.deeds_eq
      rw [heq, hdeeds, Process.deeds_append]
      exact ((List.sublist_append_left _ _).trans (List.sublist_append_left _ _)).cons _
    · rw [hperforms.writes_eq, Process.writes_append]
      exact (hsub.filterMap Act.write?).trans (List.sublist_append_left _ _)
    · rw [← hinside, List.map_map] at hsteps
      exact hsteps
    · rw [← hinside] at hok
      exact firstError_eq_ok_iff.1 hok k.account (List.mem_map_of_mem hk)

theorem exists_child_of_mem_writes {ns : List (Act Context)}
    (hns : Interleaved (ks.map Child.acts) ns) {f : Context → Context} (hf : f ∈ writes ns) :
    ∃ k ∈ ks, f ∈ writes k.acts := by
  obtain ⟨l, hl, hf⟩ := (hns.filterMap Act.write?).exists_mem hf
  rw [List.map_map] at hl
  obtain ⟨k, hk, rfl⟩ := List.mem_map.1 hl
  exact ⟨k, hk, hf⟩

/-! ## Children without steps inside -/

/-- A child without steps inside that succeeds has done nothing to the context, or it has taken a
reply, and then the context that it leaves is what it has made of the one that it found. -/
theorem Child.took {k : Child} (hs : k.account.step.kind = .agent ∨ k.account.step.kind = .code)
    (h : k.account.Passage env shared k.acts k.left) (hok : k.account.error? = none) :
    (settlements k.acts = [] ∧ writes k.acts = []) ∨
      ∃ reply files, ∃ m : Context, settlements k.acts = [.replied reply] ∧
        writes k.acts = [Context.taking files (k.account.step.assignment? reply)] ∧
        k.left = m.taking files (k.account.step.assignment? reply) := by
  rcases h.cases with hdeclines | ⟨bs, r, answer, hperforms⟩
  · exact .inl ⟨hdeclines.settlements_eq, hdeclines.writes_eq⟩
  · obtain rfl := hperforms.eq_ok hok
    obtain ⟨reply, v, m, hreply, hending, hwrites, hleft⟩ := Step.taken_of_body hs hperforms.body
    obtain ⟨files, htake⟩ := Step.exists_take_eq hs hending
    rw [htake] at hwrites hleft
    exact .inr ⟨reply, files, m, hperforms.settlements_eq.trans hreply,
      hperforms.writes_eq.trans hwrites, hleft⟩

theorem Child.stored_iff {k : Child}
    (hs : k.account.step.kind = .agent ∨ k.account.step.kind = .code)
    (h : k.account.Passage env shared k.acts k.left) (hok : k.account.error? = none) :
    k.Stored name v ↔ ∃ reply, settlements k.acts = [.replied reply] ∧
      k.account.step.assignment? reply = some (name, v) := by
  rcases k.took hs h hok with ⟨hnone, hwrites⟩ | ⟨reply, files, m, hreply, hwrites, hleft⟩
  · refine iff_of_false (fun hstored ↦ ?_) fun ⟨reply, hreply, _⟩ ↦ ?_
    · obtain ⟨f, hf, -⟩ := hstored.stores
      rw [hwrites] at hf
      cases hf
    · cases hnone.symm.trans hreply
  · constructor
    · intro hstored
      obtain ⟨f, hf, hset⟩ := hstored.stores
      rw [hwrites, List.getLast?_singleton] at hf
      cases hf
      refine ⟨reply, hreply, ?_⟩
      -- from the empty context it can be seen which variable is set
      obtain ⟨u, hu⟩ := hset .empty
      have hget := hstored.get?_eq
      rw [hleft] at hget
      cases hassign : k.account.step.assignment? reply with
      | none =>
        rw [hassign] at hu
        cases hu
      | some kv =>
        obtain ⟨key, w⟩ := kv
        rw [hassign] at hu hget
        obtain rfl : key = name := congrArg Prod.fst (List.singleton_inj.1 hu)
        rw [Context.get?_taking_self] at hget
        rw [Option.some.inj hget]
    · rintro ⟨reply', hreply', hassign⟩
      cases hreply.symm.trans hreply'
      have hlast : (writes k.acts).getLast? = some (Context.taking files (some (name, v))) := by
        rw [hwrites, hassign, List.getLast?_singleton]
      refine ⟨Step.outputKey_of_assignment? hassign, ⟨_, hlast, fun c ↦ ⟨v, rfl⟩⟩, ?_⟩
      rw [hleft, hassign]
      exact m.get?_taking_self files name v

/-- The children of a group act by themselves on the context of the group, and have different
outputs. -/
structure Plain (env : Environment) (a : Account) (as : List (Act Context)) (ks : List Child)
    (m : Context) : Prop where
  ran : Ran env false a as ks m
  leaf : ∀ k ∈ ks, k.account.step.kind = .agent ∨ k.account.step.kind = .code
  ok : ∀ k ∈ ks, k.account.error? = none
  nodup : (ks.filterMap Child.outputKey).Nodup

namespace Plain

variable (h : Plain env a as ks m)

include h

theorem unique {k k' : Child} (hk : k ∈ ks) (hk' : k' ∈ ks) (hkey : k.outputKey = some name)
    (hkey' : k'.outputKey = some name) : k = k' :=
  eq_of_nodup_filterMap h.nodup hk hk' hkey hkey'

/-- A write of a child sets a variable to what the child has stored there, or does not touch it. -/
theorem write_cases {k : Child} (hk : k ∈ ks) {f : Context → Context} (hf : f ∈ writes k.acts)
    (name : String) :
    (∃ v, k.Stored name v ∧ ∀ c, (f c).vars.get? name = some v) ∨
      ∀ c, (f c).vars.get? name = c.vars.get? name := by
  have hpassage := h.ran.passage k hk
  rcases k.took (h.leaf k hk) hpassage (h.ok k hk) with
    ⟨-, hwrites⟩ | ⟨reply, files, n, hreply, hwrites, -⟩
  · rw [hwrites] at hf
    cases hf
  · rw [hwrites, List.mem_singleton] at hf
    subst hf
    by_cases hname : name ∈ (k.account.step.assignment? reply).map Prod.fst
    · obtain ⟨⟨key, v⟩, hassign, rfl⟩ := Option.map_eq_some_iff.1 hname
      have hstored : k.Stored key v :=
        (k.stored_iff (h.leaf k hk) hpassage (h.ok k hk)).2 ⟨reply, hreply, hassign⟩
      refine .inl ⟨v, hstored, fun c ↦ ?_⟩
      rw [hassign]
      exact c.get?_taking_self files key v
    · exact .inr (Context.get?_taking hname)

theorem get?_eq {k : Child} (hk : k ∈ ks) (hstored : k.Stored name v) :
    m.vars.get? name = some v := by
  obtain ⟨ns, hns, -, -, hm⟩ := h.ran.acts
  have hsame : ∀ {k' w}, k' ∈ ks → k'.Stored name w → w = v := by
    intro k' w hk' hstored'
    obtain rfl := h.unique hk' hk hstored'.outputKey_eq hstored.outputKey_eq
    exact Option.some.inj (hstored'.get?_eq.symm.trans hstored.get?_eq)
  rw [hm rfl]
  refine get?_foldl ?_ (fun f hf ↦ ?_) a.context
  · -- the write that sets the variable cannot be one that leaves it as it was
    obtain ⟨f, hlast, hset⟩ := hstored.stores
    have hf := List.mem_of_getLast? hlast
    refine ⟨f, ((hns.sublist _ (List.mem_map_of_mem hk)).filterMap Act.write?).subset hf, ?_⟩
    rcases h.write_cases hk hf name with ⟨w, hstored', hsets⟩ | hleaves
    · exact hsame hk hstored' ▸ hsets
    · obtain ⟨u, hu⟩ := hset .empty
      have hget := hleaves .empty
      rw [hu, Members.get?_insert, if_pos rfl] at hget
      cases hget
  · obtain ⟨k', hk', hf⟩ := exists_child_of_mem_writes hns hf
    exact (h.write_cases hk' hf name).imp_left fun ⟨_, hstored', hsets⟩ ↦ hsame hk' hstored' ▸ hsets

/-- A variable that no child has stored is left as it was. -/
theorem get?_eq_of_unstored (hnone : ∀ k ∈ ks, ∀ v, ¬k.Stored name v) :
    m.vars.get? name = a.context.vars.get? name := by
  obtain ⟨ns, hns, -, -, hm⟩ := h.ran.acts
  rw [hm rfl]
  refine get?_foldl_eq (fun f hf ↦ ?_) a.context
  obtain ⟨k, hk, hf⟩ := exists_child_of_mem_writes hns hf
  rcases h.write_cases hk hf name with ⟨v, hstored, -⟩ | hleaves
  · exact absurd hstored (hnone k hk v)
  · exact hleaves

theorem apart : Apart ks := by
  refine (List.pairwise_filterMap.1 h.nodup).imp fun hne name v v' hstored hstored' ↦ ?_
  exact hne name hstored.outputKey_eq name hstored'.outputKey_eq rfl

end Plain

/-! ## The object of a group -/

/-- Members that are found in the context are those that the children have stored if these are found
there, and nothing else is. -/
theorem Ran.gathers_iff_of_found {ms : Members Value} (hran : Ran env shared a as ks m)
    (hsteps : (ks.map fun k ↦ k.account.step).Perm ss)
    (hms : ∀ name v, ms.get? name = some v ↔
      name ∈ ss.filterMap Step.outputKey ∧ m.get? name = some v) :
    Gathers ks ms ↔
      (∀ k ∈ ks, ∀ name v, k.Stored name v → m.vars.get? name = some v) ∧
      (∀ name ∈ ss.filterMap Step.outputKey, (∀ k ∈ ks, ∀ v, ¬k.Stored name v) →
        m.get? name = none) ∧
      Apart ks := by
  -- what has been stored is never taken away, so no path is looked up in its place
  have hlookup : ∀ {k name v}, k ∈ ks → k.Stored name v → m.get? name = m.vars.get? name :=
    fun hk hstored ↦ Context.get?_eq_of_contains (hstored.contains (hran.ends _ hk))
  constructor
  · intro hgathers
    refine ⟨fun k hk name v hstored ↦ ?_, fun name hname hnone ↦ ?_, hgathers.apart⟩
    · rw [← hlookup hk hstored]
      exact ((hms name v).1 (hgathers.entry k hk name v hstored)).2
    · cases hv : m.get? name with
      | none => rfl
      | some v =>
        obtain ⟨k, hk, hstored⟩ := hgathers.only name v ((hms name v).2 ⟨hname, hv⟩)
        exact absurd hstored (hnone k hk v)
  · rintro ⟨hthere, hnothing, hapart⟩
    refine ⟨fun k hk name v hstored ↦ ?_, fun name v hv ↦ ?_, hapart⟩
    · have hstep : k.account.step ∈ ss := hsteps.mem_iff.1 (List.mem_map_of_mem hk)
      refine (hms name v).2 ⟨List.mem_filterMap.2 ⟨_, hstep, hstored.outputKey_eq⟩, ?_⟩
      rw [hlookup hk hstored, hthere k hk name v hstored]
    · obtain ⟨hname, hv⟩ := (hms name v).1 hv
      by_cases hstored : ∃ k ∈ ks, ∃ w, k.Stored name w
      · obtain ⟨k, hk, w, hstored⟩ := hstored
        rw [hlookup hk hstored, hthere k hk name w hstored] at hv
        exact ⟨k, hk, Option.some.inj hv ▸ hstored⟩
      · have hnone := hnothing name hname fun k hk w hw ↦ hstored ⟨k, hk, w, hw⟩
        cases hnone.symm.trans hv

end Group

/-- **The object of a group.** Take any call of a group with an output that completes, in whatever
context and with whatever children. It sets its output to an object, which has an entry for the
output of a child just if something is found there when all children have ended, and this is the
value of the entry. So there is an entry for each child that has stored a value. The object is what
the children have stored, with one entry for each of them and no other entry, just if all that they
have stored is still there, no two of them have stored under one name, and nothing is found under
the output of a child where none has stored a value.

So it is, for example, if nobody else works on the context and the children have no steps inside and
have different outputs, if a child with nothing to store has an output without dots that was not
there when the group began. -/
theorem Account.Passage.gathers_iff {env : Environment} {shared : Bool} {a : Account}
    {as : List (Act Context)} {d : Context} {g : Group} {ss : List Step} {key : String}
    (h : a.Passage env shared as d) (hstep : a.step = .parallel g ss) (hkey : g.output = some key)
    (hcompleted : a.ending = .ok .completed) :
    ∃ ks m, ∃ ms : Members Value, Group.Ran env shared a as ks m ∧
      (ks.map fun k ↦ k.account.step).Perm ss ∧
      d = m.set key (.object ms) ∧ ms.Sorted ∧
      (∀ name v, ms.get? name = some v ↔
        name ∈ ss.filterMap Step.outputKey ∧ m.get? name = some v) ∧
      (∀ k ∈ ks, ∀ name v, k.Stored name v → ms.contains name = true) ∧
      (Group.Gathers ks ms ↔
        (∀ k ∈ ks, ∀ name v, k.Stored name v → m.vars.get? name = some v) ∧
        (∀ name ∈ ss.filterMap Step.outputKey, (∀ k ∈ ks, ∀ v, ¬k.Stored name v) →
          m.get? name = none) ∧
        Group.Apart ks) ∧
      (shared = false → (∀ s ∈ ss, s.kind = .agent ∨ s.kind = .code) →
        (ss.filterMap Step.outputKey).Nodup →
        (∀ name ∈ ss.filterMap Step.outputKey, (∃ k ∈ ks, ∃ v, k.Stored name v) ∨
          '.' ∉ name.toList ∧ a.context.contains name = false) → Group.Gathers ks ms) := by
  obtain ⟨ks, m, hran, hsteps, hok, hd⟩ := Group.exists_ran h hstep hkey hcompleted
  obtain ⟨ms, hobject, hsorted, hms⟩ := m.outputs_eq ss
  have hiff := hran.gathers_iff_of_found hsteps hms
  refine ⟨ks, m, ms, hran, hsteps, hobject ▸ hd, hsorted, hms, fun k hk name v hstored ↦ ?_, hiff,
    ?_⟩
  · have hthere := hstored.contains (hran.ends k hk)
    obtain ⟨w, hw⟩ := Option.isSome_iff_exists.1 hthere
    have hmem : k.account.step ∈ ss := hsteps.mem_iff.1 (List.mem_map_of_mem hk)
    refine Option.isSome_iff_exists.2 ⟨w, (hms name w).2 ⟨?_, ?_⟩⟩
    · exact List.mem_filterMap.2 ⟨_, hmem, hstored.outputKey_eq⟩
    · exact (Context.get?_eq_of_contains hthere).trans hw
  · rintro rfl hleaf hnodup hfound
    have hplain : Group.Plain env a as ks m := by
      refine ⟨hran, fun k hk ↦ hleaf _ (hsteps.mem_iff.1 (List.mem_map_of_mem hk)), hok, ?_⟩
      have hkeys := hsteps.filterMap Step.outputKey
      rw [List.filterMap_map] at hkeys
      exact hkeys.nodup_iff.2 hnodup
    refine hiff.2 ⟨fun k hk name v ↦ hplain.get?_eq hk, fun name hname hnone ↦ ?_, hplain.apart⟩
    rcases hfound name hname with ⟨k, hk, v, hstored⟩ | ⟨hdots, hfresh⟩
    · exact absurd hstored (hnone k hk v)
    · rw [Context.get?_eq_of_notMem hdots, hplain.get?_eq_of_unstored hnone]
      exact Option.isNone_iff_eq_none.1 (Option.isSome_eq_false_iff.1 hfresh)

/-! ## A group with a child that is skipped -/

namespace Run

/-- A workflow of one group with an output. One of its children gives a value, and the other one is
disabled. -/
def gatheringDocument : Value :=
  .object [("name", .string "gathering"),
    ("phases", .array [
      .object [("name", .string "both"), ("output", .string "all"),
        ("steps", .array [
          .object [("handler", .string "give"), ("name", .string "loud"),
            ("output", .string "text"), ("type", .string "code")],
          .object [("agent", .string "dev"), ("enabled", .bool false), ("name", .string "quiet"),
            ("output", .string "notes")]]),
        ("type", .string "parallel")]]),
    ("version", .string "1")]

def both : Group := ⟨"both", some "all"⟩

def bothSteps : List Step :=
  [.code ⟨"loud", "give", none, some "text"⟩,
    .agent { name := "quiet", agent := some "dev", output := some "notes", enabled := false }]

/-- A run of that workflow from a checkpoint with some variables. -/
def gathering (vars : Members Value) : Launch where
  host :=
    { files := {}
      tiers := { project := "project" }
      handlers := ["give"] }
  runId := ⟨0⟩
  workflow := ⟨"gathering", "1", {}, none, [.parallel both bothSteps]⟩
  outset := .resumed { vars } none

def gatheringStage : Rehearsal.Stage where
  script := { handlers := [("give", { answers := [{ act := .give (.string "new") }] })] }

def gatheringEnvironment : Environment :=
  environment (gathering []).host (gathering []).workflow (gathering []).runId none

def gatheringActs (vars : Members Value) : List (Act Context) :=
  ((Step.parallel both bothSteps).call gatheringEnvironment).acts Rehearsal.world
    (gathering vars).outset.context gatheringStage

def gatheringEnd (vars : Members Value) : Option (Option StepStatus × Members Value) :=
  (((Step.parallel both bothSteps).call gatheringEnvironment).run Rehearsal.world
    (gathering vars).outset.context gatheringStage).1.map fun p ↦
      (p.1.ending.toOption, p.2.vars)

theorem exists_makes_gathering (vars left : Members Value)
    (h : gatheringEnd vars = some (some .completed, left)) :
    ∃ a d, (gathering vars).Makes Rehearsal.world gatheringStage gatheringEnvironment a a false ∧
      a.Passage gatheringEnvironment false (gatheringActs vars) d ∧
      a.step = .parallel both bothSteps ∧ a.context = (gathering vars).outset.context ∧
      a.ending = .ok .completed ∧ d.vars = left := by
  rw [gatheringEnd] at h
  rcases hrun : ((Step.parallel both bothSteps).call gatheringEnvironment).run Rehearsal.world
      (gathering vars).outset.context gatheringStage with ⟨_ | ⟨a, d⟩, y⟩
  · rw [hrun] at h
    cases h
  · rw [hrun] at h
    obtain ⟨hending, hleft⟩ := Prod.mk.inj (Option.some.inj h)
    have hcalls : Calls gatheringEnvironment Rehearsal.world
        ⟨[], [.parallel both bothSteps], (gathering vars).outset.context, gatheringStage⟩
        (.parallel both bothSteps) [] a d y := ⟨rfl, rfl, hrun⟩
    obtain ⟨hpassage, hstep, hctx⟩ := hcalls.passage
    have hvisits : (gathering vars).Visits Rehearsal.world gatheringStage gatheringEnvironment _ :=
      ⟨_, rfl, .refl⟩
    refine ⟨a, d, ⟨⟨_, _, [], d, y, hvisits, hcalls⟩, .refl⟩, hpassage, hstep, hctx, ?_, hleft⟩
    dsimp only at hending
    cases he : a.ending with
    | ok status =>
      rw [he] at hending
      exact congrArg Except.ok (Option.some.inj hending)
    | error e =>
      rw [he] at hending
      cases hending

/-- A variable of an earlier step that is no output of a child does not get into the object. -/
theorem gathers_beside_plan :
    ∃ a d ks m, a.Passage gatheringEnvironment false (gatheringActs [("plan", .string "old")]) d ∧
      a.step = .parallel both bothSteps ∧ a.ending = .ok .completed ∧
      d.vars.get? "all" = some (.object [("text", .string "new")]) ∧
      Group.Ran gatheringEnvironment false a (gatheringActs [("plan", .string "old")]) ks m ∧
      Group.Gathers ks [("text", .string "new")] := by
  obtain ⟨a, d, -, hpassage, hstep, hctx, hending, hvars⟩ := exists_makes_gathering
    [("plan", .string "old")]
    [("all", .object [("text", .string "new")]), ("plan", .string "old"),
      ("text", .string "new")]
    (by decide +kernel)
  obtain ⟨ks, m, ms, hran, -, hd, -, -, -, -, hgathers⟩ :=
    hpassage.gathers_iff hstep rfl hending
  have hall : d.vars.get? "all" = some (.object [("text", .string "new")]) := by
    rw [hvars]
    rfl
  obtain rfl : ms = [("text", .string "new")] := by
    rw [hd, Context.set, Members.get?_insert, if_pos rfl] at hall
    cases hall
    rfl
  have hkeys : ∀ name ∈ bothSteps.filterMap Step.outputKey, '.' ∉ name.toList ∧
      (gathering [("plan", .string "old")]).outset.context.contains name = false := by
    decide +kernel
  refine ⟨a, d, ks, m, hpassage, hstep, hending, hall, hran, hgathers rfl ?_ (by decide) ?_⟩
  · intro s hs
    rcases List.mem_pair.1 hs with rfl | rfl
    · exact .inr rfl
    · exact .inl rfl
  · exact fun name hname ↦ .inr (hctx ▸ hkeys name hname)

/-- What the checkpoint holds under the output of the child that is skipped gets into the object,
although none of the children has stored it. -/
theorem not_gathers_of_skipped :
    Definition.validate gatheringDocument = .ok (gathering [("notes", .string "old")]).workflow ∧
    ∃ a d, (gathering [("notes", .string "old")]).Makes Rehearsal.world gatheringStage
        gatheringEnvironment a a false ∧
      a.Passage gatheringEnvironment false (gatheringActs [("notes", .string "old")]) d ∧
      a.step = .parallel both bothSteps ∧ a.ending = .ok .completed ∧
      d.vars.get? "all" = some (.object [("notes", .string "old"), ("text", .string "new")]) ∧
      ∀ ks m, Group.Ran gatheringEnvironment false a (gatheringActs [("notes", .string "old")])
          ks m →
        (∀ k ∈ ks, ∀ v, ¬k.Stored "notes" v) ∧
        ¬Group.Gathers ks [("notes", .string "old"), ("text", .string "new")] := by
  refine ⟨by decide +kernel, ?_⟩
  obtain ⟨a, d, hmakes, hpassage, hstep, -, hending, hvars⟩ := exists_makes_gathering
    [("notes", .string "old")]
    [("all", .object [("notes", .string "old"), ("text", .string "new")]),
      ("notes", .string "old"), ("text", .string "new")]
    (by decide +kernel)
  have hwrites : (writes (gatheringActs [("notes", .string "old")])).all
      (fun f ↦ !(f .empty).contains "notes") = true := by
    decide +kernel
  refine ⟨a, d, hmakes, hpassage, hstep, hending, by rw [hvars]; rfl, fun ks m hran ↦ ?_⟩
  have hnone : ∀ k ∈ ks, ∀ v, ¬k.Stored "notes" v := by
    intro k hk v hstored
    obtain ⟨f, hlast, hset⟩ := hstored.stores
    obtain ⟨ns, hns, -, hsub, -⟩ := hran.acts
    have hle := (hns.sublist _ (List.mem_map_of_mem hk)).filterMap Act.write?
    have hf := hsub.subset (hle.subset (List.mem_of_getLast? hlast))
    have hunset := List.all_eq_true.1 hwrites f hf
    obtain ⟨u, hu⟩ := hset .empty
    rw [Context.contains_of_insert hu] at hunset
    cases hunset
  refine ⟨hnone, fun hgathers ↦ ?_⟩
  obtain ⟨k, hk, hstored⟩ := hgathers.only "notes" (.string "old") rfl
  exact hnone k hk _ hstored

end Run

end Workflow
