import Mathlib.Data.List.Perm.Basic
import Workflow.Proofs.Step.Answered

/-!
# The order in which children act

The children of a group start, hear their answers and write in some order, which the outside
decides on. `Group.Order` is such an order, for children that hear given answers: what they do is
interleaved in any way that keeps the order of each, and their ends come in any order at all. Every
run of a group is one, by `Group.exists_order_of_run`, and there are more of them than runs, because
a group starts its children in the order of its list.

If the children write to different variables, their writes commute (`Group.Order.comm`), and so
nothing that is left in the end depends on the order.
-/

namespace Workflow

open Json (Value)
open Process (Act Leads Path deeds reports settlements writes)
open Context (anyGrowth Rely)

/-! ## Lists -/

theorem eq_of_nodup_filterMap {α β : Type} {f : α → Option β} {l : List α}
    (h : (l.filterMap f).Nodup) {a b : α} {x : β} (ha : a ∈ l) (hb : b ∈ l) (hfa : f a = some x)
    (hfb : f b = some x) : a = b := by
  induction l with
  | nil => cases ha
  | cons c l ih =>
    rcases List.mem_cons.1 ha with rfl | ha'
    · rcases List.mem_cons.1 hb with rfl | hb'
      · rfl
      · rw [List.filterMap_cons, hfa] at h
        exact absurd (List.mem_filterMap.2 ⟨b, hb', hfb⟩) (List.nodup_cons.1 h).1
    · rcases List.mem_cons.1 hb with rfl | hb'
      · rw [List.filterMap_cons, hfb] at h
        exact absurd (List.mem_filterMap.2 ⟨a, ha', hfa⟩) (List.nodup_cons.1 h).1
      · refine ih ?_ ha' hb'
        rw [List.filterMap_cons] at h
        split at h
        · exact h
        · exact (List.nodup_cons.1 h).2

theorem exists_mem_zip {α β : Type} {l : List α} {m : List β} (h : l.length = m.length) {b : β}
    (hb : b ∈ m) : ∃ a, (a, b) ∈ l.zip m := by
  obtain ⟨i, hi, rfl⟩ := List.getElem_of_mem hb
  have hil : i < l.length := h ▸ hi
  refine ⟨l[i], List.mem_iff_getElem.2 ⟨i, ?_, List.getElem_zip⟩⟩
  rw [List.length_zip, h, Nat.min_self]
  exact hi

theorem firstError_eq_ok_iff {as : List Account} :
    firstError as = .ok () ↔ ∀ a ∈ as, a.error? = none := by
  rw [← List.findSome?_eq_none_iff, firstError]
  cases as.findSome? Account.error? with
  | none => exact iff_of_true rfl rfl
  | some e => exact iff_of_false (by simp) (by simp)

/-! ## Orders -/

namespace Group

/-- The context that a group leaves, by how it ends and the context that its children leave. -/
def left (g : Group) (ss : List Step) (r : Except StepError Unit) (c : Context) : Context :=
  match r, g.output with
  | .ok (), some key => c.set key (c.outputs ss)
  | _, _ => c

/-- An order in which the children of a group act, each of which hears an answer to its call. What
they do is interleaved, and they end in some order. The group ends with the first error to come, or
without one it sets its output. -/
structure Order (env : Environment) (g : Group) (asked : List (Step × Settlement)) (c : Context)
    (ways : List (List (Act Context) × Account)) (r : Except StepError Unit) (d : Context) :
    Prop where
  hears : List.Forall₂ (fun q k ↦ q.1.Hears env q.2 k.1 k.2) asked ways
  ends : ∃ inside, inside.Perm (ways.map (·.2)) ∧ r = firstError inside
  leaves : ∃ ns, Interleaved (ways.map (·.1)) ns ∧
    d = g.left (asked.map (·.1)) r ((writes ns).foldl (fun c f ↦ f c) c)

/-- The children of a group act on no condition and write to different variables. -/
structure Separate (asked : List (Step × Settlement)) : Prop where
  unconditional : ∀ q ∈ asked, q.1.Unconditional
  nodup : (asked.filterMap (·.1.outputKey)).Nodup

namespace Order

variable {env : Environment} {g : Group} {asked : List (Step × Settlement)} {c d d' : Context}
  {ways ways' : List (List (Act Context) × Account)} {r r' : Except StepError Unit}

theorem hears_of_mem (h : g.Order env asked c ways r d) {q : Step × Settlement}
    {k : List (Act Context) × Account} (hqk : (q, k) ∈ asked.zip ways) :
    q.1.Hears env q.2 k.1 k.2 := (List.forall₂_iff_zip.1 h.hears).2 hqk

theorem exists_of_mem_writes (h : g.Order env asked c ways r d) (hs : Separate asked)
    {f : Context → Context} (hf : f ∈ (ways.map fun k ↦ writes k.1).flatten) :
    ∃ q k reply files, (q, k) ∈ asked.zip ways ∧ q.2 = .replied reply ∧ writes k.1 = [f] ∧
      f = Context.taking files (q.1.assignment? reply) := by
  obtain ⟨l, hl, hf⟩ := List.mem_flatten.1 hf
  obtain ⟨k, hk, rfl⟩ := List.mem_map.1 hl
  obtain ⟨q, hqk⟩ := exists_mem_zip h.hears.length_eq hk
  have hleaf := (hs.unconditional q (List.of_mem_zip hqk).1).leaf
  rcases (h.hears_of_mem hqk).writes_eq hleaf with ⟨-, hnil⟩ | ⟨reply, files, hreply, -, hw⟩
  · rw [hnil] at hf
    cases hf
  · rw [hw, List.mem_singleton] at hf
    exact ⟨q, k, reply, files, hqk, hreply, hf ▸ hw, hf⟩

/-- The writes of two children that assign a common variable are the same: it is one child. -/
theorem eq_of_mem_writes (h : g.Order env asked c ways r d) (hs : Separate asked)
    {q q' : Step × Settlement} {k k' : List (Act Context) × Account} (hqk : (q, k) ∈ asked.zip ways)
    (hqk' : (q', k') ∈ asked.zip ways) {key : String} (hkey : q.1.outputKey = some key)
    (hkey' : q'.1.outputKey = some key) : q = q' ∧ writes k.1 = writes k'.1 := by
  have hq := (List.of_mem_zip hqk).1
  obtain rfl := eq_of_nodup_filterMap hs.nodup hq (List.of_mem_zip hqk').1 hkey hkey'
  exact ⟨rfl, ((h.hears_of_mem hqk).unique (hs.unconditional q hq) (h.hears_of_mem hqk')).2⟩

theorem key_of_mem {q : Step × Settlement} {reply : Reply} {key : String}
    (h : key ∈ (q.1.assignment? reply).map Prod.fst) : q.1.outputKey = some key := by
  obtain ⟨kv, hkv, rfl⟩ := Option.map_eq_some_iff.1 h
  exact Step.outputKey_of_assignment? hkv

/-- The writes of the children commute. -/
theorem comm (h : g.Order env asked c ways r d) (hs : Separate asked) :
    ∀ f ∈ (ways.map fun k ↦ writes k.1).flatten, ∀ f' ∈ (ways.map fun k ↦ writes k.1).flatten,
      ∀ m : Context, f' (f m) = f (f' m) := by
  intro f hf f' hf' m
  obtain ⟨q, k, reply, files, hqk, -, hw, heq⟩ := h.exists_of_mem_writes hs hf
  obtain ⟨q', k', reply', files', hqk', -, hw', heq'⟩ := h.exists_of_mem_writes hs hf'
  by_cases hkeys : ∃ key ∈ (q.1.assignment? reply).map Prod.fst,
      key ∈ (q'.1.assignment? reply').map Prod.fst
  · obtain ⟨key, hkey, hkey'⟩ := hkeys
    obtain ⟨-, hsame⟩ := h.eq_of_mem_writes hs hqk hqk' (key_of_mem hkey) (key_of_mem hkey')
    obtain rfl := List.singleton_inj.1 (hw.symm.trans (hsame.trans hw'))
    rfl
  · rw [heq, heq']
    exact Context.taking_comm (fun key hkey hkey' ↦ hkeys ⟨key, hkey, hkey'⟩) m

theorem perm_writes {ns : List (Act Context)} (h : Interleaved (ways.map (·.1)) ns) :
    (writes ns).Perm (ways.map fun k ↦ writes k.1).flatten := by
  have hw := (h.filterMap Act.write?).perm_flatten
  rwa [List.map_map] at hw

/-- What the children come to does not depend on the order. -/
theorem children_eq (hs : Separate asked) (h : g.Order env asked c ways r d)
    (h' : g.Order env asked c ways' r' d') :
    (ways.map fun k ↦ writes k.1) = (ways'.map fun k ↦ writes k.1) ∧
      (ways.map fun k ↦ k.2.error?) = ways'.map fun k ↦ k.2.error? := by
  obtain ⟨hears, -, -⟩ := h
  obtain ⟨hears', -, -⟩ := h'
  replace hs := hs.unconditional
  induction hears generalizing ways' with
  | nil =>
    cases hears'
    exact ⟨rfl, rfl⟩
  | cons hq _ ih =>
    cases hears' with
    | @cons _ k' _ _ hq' hrest =>
      obtain ⟨hsq, hs⟩ := List.forall_mem_cons.1 hs
      obtain ⟨hending, hwrites⟩ := hq.unique hsq hq'
      obtain ⟨hws, hes⟩ := ih hrest hs
      refine ⟨congrArg₂ List.cons hwrites hws, congrArg₂ List.cons ?_ hes⟩
      simp only [Account.error?, hending]

theorem ok_iff (h : g.Order env asked c ways r d) :
    r = .ok () ↔ ∀ e ∈ ways.map fun k ↦ k.2.error?, e = none := by
  obtain ⟨inside, hperm, rfl⟩ := h.ends
  rw [firstError_eq_ok_iff]
  constructor
  · intro hall e he
    obtain ⟨k, hk, rfl⟩ := List.mem_map.1 he
    exact hall k.2 (hperm.mem_iff.2 (List.mem_map_of_mem hk))
  · intro hall a ha
    obtain ⟨k, hk, rfl⟩ := List.mem_map.1 (hperm.mem_iff.1 ha)
    exact hall _ (List.mem_map.2 ⟨k, hk, rfl⟩)

/-- **Two orders.** They leave the same context, and the group succeeds in both or in none. -/
theorem unique (hs : Separate asked) (h : g.Order env asked c ways r d)
    (h' : g.Order env asked c ways' r' d') : d = d' ∧ (r = .ok () ↔ r' = .ok ()) := by
  obtain ⟨hwrites, herrors⟩ := children_eq hs h h'
  have hok : r = .ok () ↔ r' = .ok () := by rw [h.ok_iff, h'.ok_iff, herrors]
  refine ⟨?_, hok⟩
  obtain ⟨ns, hns, hd⟩ := h.leaves
  obtain ⟨ns', hns', hd'⟩ := h'.leaves
  have hperm : (writes ns).Perm (writes ns') :=
    (perm_writes hns).trans (hwrites ▸ (perm_writes hns').symm)
  have hstate : (writes ns).foldl (fun c f ↦ f c) c = (writes ns').foldl (fun c f ↦ f c) c :=
    hperm.foldl_eq' (fun f hf f' hf' m ↦ h.comm hs f ((perm_writes hns).mem_iff.1 hf) f'
      ((perm_writes hns).mem_iff.1 hf') m) c
  rw [hd, hd', hstate]
  rcases r with e | ⟨⟩
  · rcases r' with e' | ⟨⟩
    · rfl
    · cases hok.2 rfl
  · rcases r' with e' | ⟨⟩
    · cases hok.1 rfl
    · rfl

end Order

end Group

/-! ## What is stored -/

/-- Among some writes there is one that gives a variable a value, and no other one touches it. -/
theorem get?_foldl {fs : List (Context → Context)} {name : String} {v : Value}
    (hset : ∃ f ∈ fs, ∀ c, (f c).vars.get? name = some v)
    (hrest : ∀ f ∈ fs, (∀ c, (f c).vars.get? name = some v) ∨
      ∀ c, (f c).vars.get? name = c.vars.get? name) (c : Context) :
    (fs.foldl (fun c f ↦ f c) c).vars.get? name = some v := by
  -- from the first write that gives it the value on, it has the value
  have hkept : ∀ {fs : List (Context → Context)} {c : Context},
      (∀ f ∈ fs, (∀ c, (f c).vars.get? name = some v) ∨
        ∀ c, (f c).vars.get? name = c.vars.get? name) →
      c.vars.get? name = some v → (fs.foldl (fun c f ↦ f c) c).vars.get? name = some v := by
    intro fs
    induction fs with
    | nil => exact fun _ hc ↦ hc
    | cons f fs ih =>
      intro c hrest hc
      obtain ⟨hf, hrest⟩ := List.forall_mem_cons.1 hrest
      refine ih hrest ?_
      rcases hf with hf | hf
      · exact hf c
      · rw [hf, hc]
  induction fs generalizing c with
  | nil =>
    obtain ⟨f, hf, -⟩ := hset
    cases hf
  | cons f fs ih =>
    obtain ⟨-, htail⟩ := List.forall_mem_cons.1 hrest
    obtain ⟨f', hf', hset⟩ := hset
    rcases List.mem_cons.1 hf' with rfl | hf'
    · exact hkept (c := f' c) htail (hset c)
    · exact ih ⟨f', hf', hset⟩ htail (f c)

/-- A variable that no write touches is left as it is. -/
theorem get?_foldl_eq {fs : List (Context → Context)} {name : String}
    (h : ∀ f ∈ fs, ∀ c, (f c).vars.get? name = c.vars.get? name) (c : Context) :
    (fs.foldl (fun c f ↦ f c) c).vars.get? name = c.vars.get? name := by
  induction fs generalizing c with
  | nil => rfl
  | cons f fs ih =>
    obtain ⟨hf, h⟩ := List.forall_mem_cons.1 h
    exact (ih h (f c)).trans (hf c)

namespace Group

variable {env : Environment} {g : Group} {asked : List (Step × Settlement)} {c d : Context}
  {ways : List (List (Act Context) × Account)} {r : Except StepError Unit}

theorem get?_left {name : String} (h : g.output ≠ some name) (ss : List Step)
    (r : Except StepError Unit) (c : Context) :
    (g.left ss r c).vars.get? name = c.vars.get? name := by
  unfold left
  split
  · next key hkey =>
    have hne : key ≠ name := fun heq ↦ h (heq ▸ hkey)
    exact (Json.Members.get?_insert name key _ c.vars).trans (if_neg hne)
  · rfl

/-- What a child stores is there in the end, whatever becomes of the others. -/
theorem Order.get?_eq (hs : Separate asked) (h : g.Order env asked c ways r d)
    {q : Step × Settlement} {k : List (Act Context) × Account} (hqk : (q, k) ∈ asked.zip ways)
    (hcompleted : k.2.ending = .ok .completed) {reply : Reply} (hreply : q.2 = .replied reply)
    {key : String} {v : Value} (hassign : q.1.assignment? reply = some (key, v))
    (hown : g.output ≠ some key) : d.vars.get? key = some v := by
  obtain ⟨ns, hns, rfl⟩ := h.leaves
  have hkey := Step.outputKey_of_assignment? hassign
  have hleaf := (hs.unconditional q (List.of_mem_zip hqk).1).leaf
  rw [get?_left hown]
  rcases (h.hears_of_mem hqk).writes_eq hleaf with ⟨hne, -⟩ | ⟨reply', files, hreply', -, hw⟩
  · exact absurd hcompleted hne
  · obtain rfl := Settlement.replied.inj (hreply'.symm.trans hreply)
    rw [hassign] at hw
    have hsets : ∀ c, (Context.taking files (some (key, v)) c).vars.get? key = some v :=
      Context.get?_taking_self files key v
    refine get?_foldl ⟨_, (Order.perm_writes hns).mem_iff.2 ?_, hsets⟩ (fun f hf ↦ ?_) c
    · refine List.mem_flatten.2 ⟨_, List.mem_map.2 ⟨k, (List.of_mem_zip hqk).2, rfl⟩, ?_⟩
      rw [hw]
      exact List.mem_singleton_self _
    · obtain ⟨q', k', reply', files', hqk', -, hw', rfl⟩ :=
        h.exists_of_mem_writes hs ((Order.perm_writes hns).mem_iff.1 hf)
      by_cases hkey' : key ∈ (q'.1.assignment? reply').map Prod.fst
      · obtain ⟨-, hsame⟩ := h.eq_of_mem_writes hs hqk hqk' hkey (Order.key_of_mem hkey')
        have heq := List.singleton_inj.1 (hw.symm.trans (hsame.trans hw'))
        exact .inl (heq ▸ hsets)
      · exact .inr (Context.get?_taking hkey')

end Group

/-! ## Runs of groups -/

/-- The call of a step without steps inside hears one answer at most. -/
theorem heard_of_passage {env : Environment} {shared : Bool} {a : Account}
    {as : List (Act Context)} {d : Context} (hs : a.step.kind = .agent ∨ a.step.kind = .code)
    (h : a.Passage env shared as d) :
    ∃ answer, ∀ settlement ∈ settlements as, settlement = answer := by
  rcases h.cases with hdeclines | ⟨bs, r, answer, hperforms⟩
  · refine ⟨.cancelled, ?_⟩
    rw [hdeclines.settlements_eq]
    exact nofun
  · rw [hperforms.settlements_eq]
    have hpath := hperforms.body.path
    rcases Step.answered_of_body hs hpath with ⟨e, hbody⟩ | ⟨-, answer, hanswer, -⟩
    · rw [hbody] at hpath
      obtain ⟨rfl, -⟩ := hpath.of_done
      exact ⟨.cancelled, nofun⟩
    · rw [hanswer]
      exact ⟨answer, fun _ ↦ List.mem_singleton.1⟩

namespace Group

section

variable {env : Environment} {g : Group} {ss : List Step} {c d m : Context}
  {as : List (Act Context)} {ls : List (List (Act Context) × Account)}

theorem exists_hears_of_between (hss : ∀ s ∈ ss, s.kind = .agent ∨ s.kind = .code)
    (h : List.Forall₂ (fun s l ↦ Leads.Between anyGrowth (Step.call env s) c l.1 l.2 d) ss ls)
    (haccepted : ∀ l ∈ ls, ∀ q ∈ reports l.1, q.2 = none) :
    ∃ answers : List Settlement, answers.length = ss.length ∧
      List.Forall₂ (fun q l ↦ q.1.Hears env q.2 l.1 l.2) (ss.zip answers) ls := by
  induction h with
  | nil => exact ⟨[], rfl, .nil⟩
  | cons hl _ ih =>
    obtain ⟨hs, hss⟩ := List.forall_mem_cons.1 hss
    obtain ⟨hl', haccepted⟩ := List.forall_mem_cons.1 haccepted
    obtain ⟨answers, hlength, hears⟩ := ih hss haccepted
    obtain ⟨u, v, -, hlead, -⟩ := hl
    have hshared : Leads anyGrowth (Rely true) _ u _ _ v := hlead.mono fun _ _ h ↦ h
    obtain ⟨rfl, -, -⟩ := leads_of_call hshared
    obtain ⟨answer, hanswer⟩ := heard_of_passage hs (Account.passage_of_leads hshared)
    exact ⟨answer :: answers, congrArg Nat.succ hlength, .cons ⟨hlead.path, hl', hanswer⟩ hears⟩

theorem eq_left_of_closing {R : Context → Context → Prop} {inside : List Account} {course : Course}
    (h : Leads anyGrowth R (g.closing ss inside) m as course d) :
    course = (inside, firstError inside) ∧ d = g.left ss (firstError inside) m ∧ deeds as = [] := by
  obtain ⟨rfl, ⟨hok, key, hkey, rfl, rfl⟩ | ⟨rfl, rfl, hnone⟩⟩ := leads_of_closing h
  · refine ⟨rfl, ?_, rfl⟩
    unfold left
    rw [hok, hkey]
  · refine ⟨rfl, ?_, rfl⟩
    unfold left
    split
    · next key hok hkey =>
      cases (hnone hok).symm.trans hkey
    · rfl

variable {ω : Type} {w : World ω} {x y : ω} {a : Account}

/-- Every run of a group is an order in which its children act. -/
theorem exists_order_of_run (hss : ∀ s ∈ ss, s.kind = .agent ∨ s.kind = .code) (hw : w.Accepts)
    (h : ((Step.parallel g ss).call env).run w c x = (some (a, d), y)) :
    ∃ answers ways r, answers.length = ss.length ∧ g.Order env (ss.zip answers) c ways r d ∧
      a.ending = r.map (fun _ ↦ .completed) ∧ a.inside.Perm (ways.map (·.2)) ∧
      ∀ k ∈ ways, (deeds k.1).Sublist (deeds (((Step.parallel g ss).call env).acts w c x)) := by
  have hleads := (Step.telling_call env (.parallel g ss) (Set.subset_univ _) c).leads h
  have halone : Leads anyGrowth (Rely false) _ c _ a d := hleads.mono fun _ _ h ↦ h
  have haccepted : ∀ {e answer}, .report e answer ∈
      deeds (((Step.parallel g ss).call env).acts w c x) → answer = none := fun hmem ↦
    Process.accepted_of_mem_reports hw _ c x _ (Process.mem_reports_iff.2 hmem)
  obtain ⟨hstep, rfl, hdeclines | ⟨bs, r, answer, hperforms⟩⟩ := leads_of_call halone
  · -- a group is not skipped
    obtain ⟨status, n, answer, -, hdeeds, -, hskip⟩ := hdeclines.deeds_eq
    rw [hdeeds, hstep] at haccepted
    rw [hstep] at hskip
    cases hskip (haccepted (List.mem_singleton_self _))
  · have hbody := hperforms.body
    rw [hstep] at hbody
    obtain ⟨n, t, hdeeds⟩ := hperforms.deeds_eq
    obtain ⟨es, inside, m, fs, rfl, hchildren, hclosing⟩ := Leads.of_bind hbody
    obtain ⟨heq, rfl, hnone⟩ := eq_left_of_closing hclosing
    obtain ⟨rfl, rfl⟩ := Prod.mk.inj heq
    obtain ⟨ls, ks, ns, hls, hperm, hinside, hi, -, hns, hstate⟩ :=
      hchildren.of_arrivals fun _ _ ↦ Rely.later
    have hsub : ∀ l ∈ ls, (deeds l.1).Sublist
        (deeds (((Step.parallel g ss).call env).acts w a.context x)) := by
      intro l hl
      have hle := (hi.sublist _ (List.mem_map_of_mem (hperm.mem_iff.2 hl))).filterMap Act.deed?
      rw [hdeeds, Process.deeds_append, hnone, List.append_nil, ← hns]
      exact (hle.trans (List.sublist_append_left _ _)).cons _
    obtain ⟨answers, hlength, hears⟩ :=
      exists_hears_of_between hss (List.forall₂_map_left_iff.1 hls) fun l hl q hq ↦
        haccepted ((hsub l hl).subset (Process.mem_reports_iff.1 hq))
    have hclosed : answer = none := by
      rw [hdeeds] at haccepted
      exact haccepted (List.mem_cons_of_mem _
        (List.mem_append_right _ (List.mem_singleton_self _)))
    have hin : a.inside.Perm (ls.map (·.2)) := hinside ▸ hperm.map _
    refine ⟨answers, ls, firstError a.inside, hlength, ⟨hears, ⟨a.inside, hin, rfl⟩, ?_⟩, ?_, hin,
      hsub⟩
    · refine ⟨ns, hi.perm (hperm.map _), ?_⟩
      rw [List.map_fst_zip hlength.ge, hstate fun _ _ h ↦ h]
    · rw [hperforms.ending_eq, hclosed]
      rfl

end

/-- **The order makes no difference.** Take a group whose children are steps that send prompts or
call handlers, that are skipped on no condition, and whose outputs are different variables, none of
them that of the group. Let the sink accept every report, and let the answer that each child hears
depend on nothing but the child. Every run of the group is an order in which the children start,
hear their answers and write. If they hear the same answers, all orders from a context leave the
same context, so the same variables and the same changed files, and the group succeeds in all of
them or in none. What a child that completes has stored is there in the end, also if the group fails
because of others. -/
theorem order_irrelevant (env : Environment) (g : Group) {ss : List Step}
    (hss : ∀ s ∈ ss, s.Unconditional) (hkeys : (ss.filterMap Step.outputKey).Nodup)
    (hown : ∀ key ∈ ss.filterMap Step.outputKey, g.output ≠ some key) (c : Context) :
    (∀ {ω : Type} {w : World ω} {x y : ω} {a d}, w.Accepts →
      ((Step.parallel g ss).call env).run w c x = (some (a, d), y) →
        ∃ answers ways r, answers.length = ss.length ∧ g.Order env (ss.zip answers) c ways r d ∧
          a.ending = r.map (fun _ ↦ .completed) ∧ a.inside.Perm (ways.map (·.2)) ∧
          ∀ k ∈ ways, (deeds k.1).Sublist (deeds (((Step.parallel g ss).call env).acts w c x))) ∧
    ∀ answers : List Settlement, answers.length = ss.length →
      ∀ {ways r d}, g.Order env (ss.zip answers) c ways r d →
        (∀ {ways' r' d'}, g.Order env (ss.zip answers) c ways' r' d' →
          d = d' ∧ (r = .ok () ↔ r' = .ok ())) ∧
        ∀ {s reply k}, ((s, .replied reply), k) ∈ (ss.zip answers).zip ways →
          k.2.ending = .ok .completed → ∀ key v, s.assignment? reply = some (key, v) →
            d.vars.get? key = some v := by
  refine ⟨fun hw h ↦ exists_order_of_run (fun s hs ↦ (hss s hs).leaf) hw h, ?_⟩
  intro answers hlength ways r d h
  have hfst : (ss.zip answers).map Prod.fst = ss := List.map_fst_zip hlength.ge
  have hs : Separate (ss.zip answers) := by
    refine ⟨fun q hq ↦ hss q.1 (List.of_mem_zip hq).1, ?_⟩
    rw [← hfst, List.filterMap_map] at hkeys
    exact hkeys
  refine ⟨fun h' ↦ ?_, fun {s reply k} hqk hcompleted key v hassign ↦ ?_⟩
  · exact h.unique hs h'
  · have hmem : s ∈ ss := (List.of_mem_zip (List.of_mem_zip hqk).1).1
    have hkey := List.mem_filterMap.2 ⟨s, hmem, Step.outputKey_of_assignment? hassign⟩
    exact h.get?_eq hs hqk hcompleted rfl hassign (hown key hkey)

end Group

/-! ## Two orders of two children -/

/-- A world that gives one answer to every call. -/
def World.answering (answer : Settlement) : World Unit where
  report _ x := (none, x)
  clock _ := 0
  announce _ _ x := (none, x)
  call _ _ x := (.settled answer, x)
  limit _ x := x
  settle ts x := (some (ts.headD 0, answer), x)

theorem exists_run_answering {α : Type} (answer : Settlement) (p : Process Context α)
    (c : Context) : ∃ a d, p.run (.answering answer) c () = (some (a, d), ()) := by
  induction p generalizing c with
  | done a => exact ⟨a, c, rfl⟩
  | read k ih => exact ih c c
  | write f p ih => exact ih (f c)
  | report e k ih => exact ih none c
  | clock k ih => exact ih 0 c
  | announce n s k ih => exact ih none c
  | call asked l k ih => exact ih (.settled answer) c
  | await ts k ih => exact ih (ts.headD 0) answer c

theorem settlements_answering {α : Type} (answer : Settlement) (p : Process Context α)
    (c : Context) : ∀ s ∈ settlements (p.acts (.answering answer) c ()), s = answer := by
  induction p generalizing c with
  | done a => exact nofun
  | read k ih => exact ih c c
  | write f p ih => exact ih (f c)
  | report e k ih => exact ih none c
  | clock k ih => exact ih 0 c
  | announce n s k ih => exact ih none c
  | call asked l k ih => exact List.forall_mem_cons.2 ⟨rfl, ih (.settled answer) c⟩
  | await ts k ih => exact List.forall_mem_cons.2 ⟨rfl, ih (ts.headD 0) answer c⟩

theorem Step.exists_hears (env : Environment) (s : Step) (answer : Settlement) :
    ∃ as a, s.Hears env answer as a := by
  obtain ⟨a, d, hrun⟩ := exists_run_answering answer (s.call env) .empty
  exact ⟨_, a, Process.path_acts hrun,
    Process.accepted_of_mem_reports (fun _ _ ↦ rfl) _ Context.empty (),
    settlements_answering answer _ .empty⟩

namespace Group

/-- A group of two handlers. -/
def pair : Group := ⟨"both", some "all"⟩

def pairSteps : List Step :=
  [.code ⟨"left", "give", none, some "x"⟩, .code ⟨"right", "give", none, some "y"⟩]

def pairEnvironment : Environment where
  files := {}
  tiers := { project := "project" }
  handlers := ["give"]

/-- What the two hear: a value, and a failure. -/
def pairAnswers : List Settlement :=
  [.replied { ending := .ok (.ofNat 1) }, .replied { ending := .error "no" }]

/-- What children come to that act one after the other. -/
def oneByOne (ks : List (List (Act Context) × Account)) : Context :=
  pair.left pairSteps (firstError (ks.map (·.2)))
    ((writes (ks.map (·.1)).flatten).foldl (fun c f ↦ f c) .empty)

theorem order_oneByOne {ways ks : List (List (Act Context) × Account)}
    (h : List.Forall₂ (fun q k ↦ q.1.Hears pairEnvironment q.2 k.1 k.2)
      (pairSteps.zip pairAnswers) ways) (hks : ks.Perm ways) :
    pair.Order pairEnvironment (pairSteps.zip pairAnswers) .empty ways
      (firstError (ks.map (·.2))) (oneByOne ks) :=
  ⟨h, ⟨_, hks.map _, rfl⟩, _, (Interleaved.flatten _).perm (hks.map _), rfl⟩

/-- One child does all that it does before the other begins, or the other way round. Both ways lead
to the same context, and the value of the child that succeeds is in it. -/
theorem order_irrelevant_pair :
    ∃ k k', List.Forall₂ (fun q k ↦ q.1.Hears pairEnvironment q.2 k.1 k.2)
        (pairSteps.zip pairAnswers) [k, k'] ∧
      oneByOne [k, k'] = oneByOne [k', k] ∧
      (oneByOne [k, k']).vars.get? "x" = some (.ofNat 1) := by
  have hss : ∀ s ∈ pairSteps, s.Unconditional := by
    rintro s hs
    rcases List.mem_pair.1 hs with rfl | rfl
    · exact .code _
    · exact .code _
  have hown : ∀ key ∈ pairSteps.filterMap Step.outputKey, pair.output ≠ some key := by decide
  obtain ⟨-, horders⟩ := order_irrelevant pairEnvironment pair hss (by decide) hown .empty
  obtain ⟨as, a, ha⟩ := Step.exists_hears pairEnvironment (.code ⟨"left", "give", none, some "x"⟩)
    (.replied { ending := .ok (.ofNat 1) })
  obtain ⟨bs, b, hb⟩ := Step.exists_hears pairEnvironment (.code ⟨"right", "give", none, some "y"⟩)
    (.replied { ending := .error "no" })
  have hears : List.Forall₂ (fun q k ↦ q.1.Hears pairEnvironment q.2 k.1 k.2)
      (pairSteps.zip pairAnswers) [(as, a), (bs, b)] := .cons ha (.cons hb .nil)
  obtain ⟨hsame, hstored⟩ := horders pairAnswers rfl (order_oneByOne hears (.refl _))
  obtain ⟨heq, -⟩ := hsame (order_oneByOne hears (.swap _ _ _))
  refine ⟨(as, a), (bs, b), hears, heq, hstored (List.mem_cons_self ..) ?_ "x" _ rfl⟩
  -- the handler is known, so the child gets to its call
  rcases ha.cases (.inr rfl) with ⟨c, reason, hskip, -⟩ | ⟨c, e, -, hbody, -⟩ | ⟨c, -, -, hend, -⟩
  · cases hskip
  · cases hbody
  · exact hend

end Group

end Workflow
