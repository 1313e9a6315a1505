import Workflow.Json.Decode
import Workflow.Proofs.Except
import Workflow.Proofs.Json.Members

/-!
# Records and their members

A record without other names for its fields is read from an object by looking its fields up:
`Record.get_of_fields` says so of any object that is accepted. An object whose members have
different names is accepted if every field finds what it asks for, by `Record.fields_eq_ok`. Both
come together in `Record.exists_fields_iff`, which is all that the records need.

The order of members only matters for which of two faults is told, so it is absent here.
-/

namespace Workflow.Json

variable {α : Type}

namespace Decoder

theorem optional_eq_map {d : Decoder α} {v : Value} (h : v ≠ .null) :
    d.optional v = (d v).map some := by
  cases v with
  | null => exact absurd rfl h
  | _ => rfl

theorem eq_ok_of_optional {d : Decoder α} {v : Value} {a : α}
    (h : d.optional v = .ok (some a)) : d v = .ok a := by
  by_cases hv : v = .null
  · subst hv
    cases h
  · rw [optional_eq_map hv] at h
    cases ha : d v with
    | error e =>
      rw [ha] at h
      cases h
    | ok b =>
      rw [ha] at h
      cases h
      rfl

theorem isSome_of_optional {d : Decoder α} {v : Value} {o : Option α}
    (h : d.optional v = .ok o) (hv : v ≠ .null) : o.isSome = true := by
  rw [optional_eq_map hv] at h
  cases ha : d v with
  | error e =>
    rw [ha] at h
    cases h
  | ok b =>
    rw [ha] at h
    cases h
    rfl

end Decoder

namespace FieldRule

/-- What a field finds among members passes its check, or it finds nothing and is not required. -/
def Accepts (r : FieldRule) (ms : Members Value) : Prop :=
  match ms.get? r.name with
  | some v => r.check v = .ok ()
  | none => r.required = false

end FieldRule

namespace Record

/-- No field of a record goes by another name. -/
def Plain (rules : List FieldRule) : Prop := ∀ r ∈ rules, r.aliases = []

variable {rules : List FieldRule}

theorem Plain.of_ruleFor (h : Plain rules) {name : String} {r : FieldRule}
    (hr : ruleFor rules name = some r) : r ∈ rules ∧ r.name = name := by
  have hmem : r ∈ rules := List.mem_of_find?_eq_some hr
  refine ⟨hmem, ?_⟩
  have hname := List.find?_some hr
  rw [h r hmem] at hname
  simpa using hname

theorem isSome_ruleFor {r : FieldRule} (hr : r ∈ rules) : (ruleFor rules r.name).isSome = true := by
  rw [ruleFor, List.find?_isSome]
  exact ⟨r, hr, by simp⟩

/-- The members of an object that belong to a field. -/
def known (rules : List FieldRule) (ms : Members Value) : Members Value :=
  ms.filter fun m ↦ (ruleFor rules m.1).isSome

theorem known_cons_of_none {name : String} (hr : ruleFor rules name = none) (v : Value)
    (ms : Members Value) : known rules ((name, v) :: ms) = known rules ms :=
  List.filter_cons_of_neg (by simp [hr])

theorem known_cons_of_some {name : String} {r : FieldRule} (hr : ruleFor rules name = some r)
    (v : Value) (ms : Members Value) :
    known rules ((name, v) :: ms) = (name, v) :: known rules ms :=
  List.filter_cons_of_pos (by simp [hr])

theorem get?_known {name : String} (hr : (ruleFor rules name).isSome = true)
    (ms : Members Value) : (known rules ms).get? name = ms.get? name :=
  Members.get?_filter (fun n ↦ (ruleFor rules n).isSome) hr ms

theorem distinct_known {ms : Members Value} (h : ms.Distinct) (rules : List FieldRule) :
    (known rules ms).Distinct :=
  h.sublist (List.filter_sublist.map _)

/-! ## What is read -/

/-- The members that are read are those that belong to a field. -/
theorem Plain.eq_of_fromMembers (h : Plain rules) {seen ms out : Members Value}
    (hout : fromMembers rules seen ms = .ok out) : out = seen ++ known rules ms := by
  induction ms generalizing seen with
  | nil =>
    rw [fromMembers] at hout
    split at hout
    · cases hout
    · cases hout
      exact (List.append_nil _).symm
  | cons m ms ih =>
    obtain ⟨n, v⟩ := m
    rw [fromMembers] at hout
    split at hout
    · next hr => rw [ih hout, known_cons_of_none hr]
    · next r hr =>
      split at hout
      · cases hout
      · obtain ⟨-, -, hout⟩ := exists_of_bind_eq_ok hout
        rw [ih hout, known_cons_of_some hr, (h.of_ruleFor hr).2, List.append_assoc]
        rfl

theorem Plain.get?_of_fields (h : Plain rules) {name : String} {ms out : Members Value}
    (hout : fields name rules (.object ms) = .ok out) {r : FieldRule} (hr : r ∈ rules) :
    out.get? r.name = ms.get? r.name := by
  rw [fields_object] at hout
  rw [h.eq_of_fromMembers hout, List.nil_append, get?_known (isSome_ruleFor hr)]

theorem get_of_fields (h : Plain rules) {name : String} {ms out : Members Value}
    (hout : fields name rules (.object ms) = .ok out) {f : RecordField α} (hf : f.rule ∈ rules) :
    get out f = get ms f := by
  have hget : out.get? f.name = ms.get? f.name := h.get?_of_fields hout hf
  rw [get, get, hget]

/-! ## What is accepted -/

theorem accepts_of_get {f : RecordField α} {ms : Members Value} {a : α} (h : get ms f = .ok a) :
    f.rule.Accepts ms := by
  unfold FieldRule.Accepts
  have hname : f.rule.name = f.name := rfl
  rw [get] at h
  rw [hname]
  cases hv : ms.get? f.name with
  | some v =>
    rw [hv] at h
    have hread : f.read v = .ok a := h
    dsimp only [RecordField.rule]
    rw [hread]
    rfl
  | none =>
    rw [hv] at h
    cases ha : f.absent with
    | none =>
      rw [ha] at h
      cases h
    | some b => simp [RecordField.rule, ha]

theorem Plain.fromMembers_eq_ok (h : Plain rules) {seen ms : Members Value}
    (hdistinct : Members.Distinct (seen ++ ms))
    (hcheck : ∀ r ∈ rules, ∀ v, (r.name, v) ∈ ms → r.check v = .ok ())
    (hrequired : ∀ r ∈ rules, r.required = true → ∃ v, (r.name, v) ∈ seen ++ ms) :
    ∃ out, fromMembers rules seen ms = .ok out := by
  induction ms generalizing seen with
  | nil =>
    have hnone : rules.find? (fun r ↦ r.required && !seen.contains r.name) = none := by
      refine List.find?_eq_none.2 fun r hr ↦ ?_
      cases hreq : r.required with
      | false => simp
      | true =>
        obtain ⟨v, hv⟩ := hrequired r hr hreq
        have hget : seen.get? r.name = some v := by
          rw [List.append_nil] at hdistinct hv
          exact hdistinct.get?_of_mem hv
        simp [Members.contains, hget]
    rw [fromMembers, hnone]
    exact ⟨seen, rfl⟩
  | cons m ms ih =>
    obtain ⟨n, v⟩ := m
    have hcheck' : ∀ r ∈ rules, ∀ v, (r.name, v) ∈ ms → r.check v = .ok () :=
      fun r hr v hv ↦ hcheck r hr v (List.mem_cons_of_mem _ hv)
    rw [fromMembers]
    cases hrule : ruleFor rules n with
    | none =>
      refine ih (hdistinct.sublist ?_) hcheck' fun r hr hreq ↦ ?_
      · exact (((List.sublist_cons_self _ _).append_left seen).map _)
      · -- a required field has a rule, so it is not the member that is passed over
        obtain ⟨v', hv'⟩ := hrequired r hr hreq
        refine ⟨v', ?_⟩
        rcases List.mem_append.1 hv' with hseen | hms
        · exact List.mem_append_left _ hseen
        · rcases List.mem_cons.1 hms with heq | hms
          · cases heq
            have hsome := isSome_ruleFor hr
            rw [hrule] at hsome
            cases hsome
          · exact List.mem_append_right _ hms
    | some r =>
      obtain ⟨hr, rfl⟩ := h.of_ruleFor hrule
      have hseen : seen.contains r.name = false := by
        have hnot : r.name ∉ seen.map (·.1) := by
          rw [Members.Distinct, List.map_append, List.map_cons, List.nodup_middle,
            List.nodup_cons] at hdistinct
          exact fun hmem ↦ hdistinct.1 (List.mem_append_left _ hmem)
        rw [Members.contains, Members.get?_eq_none hnot]
        rfl
      have happend : seen ++ [(r.name, v)] ++ ms = seen ++ (r.name, v) :: ms := by
        rw [List.append_assoc]
        rfl
      rw [← happend] at hdistinct
      obtain ⟨out, hout⟩ := ih hdistinct hcheck' (happend ▸ hrequired)
      refine ⟨out, ?_⟩
      dsimp only
      rw [if_neg (by simp [hseen]), hcheck r hr v List.mem_cons_self]
      exact hout

/-- **Records.** An object whose members have different names is read if every field accepts what it
finds. -/
theorem fields_eq_ok (h : Plain rules) (name : String) {ms : Members Value} (hms : ms.Distinct)
    (haccepts : ∀ r ∈ rules, r.Accepts ms) : ∃ out, fields name rules (.object ms) = .ok out := by
  rw [fields_object]
  refine h.fromMembers_eq_ok hms (fun r hr v hv ↦ ?_) fun r hr hreq ↦ ?_
  · have hr := haccepts r hr
    unfold FieldRule.Accepts at hr
    rwa [hms.get?_of_mem hv] at hr
  · have hr := haccepts r hr
    unfold FieldRule.Accepts at hr
    cases hv : ms.get? r.name with
    | some v => exact ⟨v, Members.mem_of_get? hv⟩
    | none =>
      rw [hv] at hr
      rw [hreq] at hr
      cases hr

/-! ## Members that belong to no field -/

theorem fromMembers_known (seen ms : Members Value) :
    fromMembers rules seen (known rules ms) = fromMembers rules seen ms := by
  induction ms generalizing seen with
  | nil => rfl
  | cons m ms ih =>
    obtain ⟨n, v⟩ := m
    cases hrule : ruleFor rules n with
    | none =>
      rw [known_cons_of_none hrule, ih, fromMembers, hrule]
    | some r =>
      rw [known_cons_of_some hrule, fromMembers, fromMembers, hrule]
      dsimp only
      rw [ih]

theorem distinct_of_fromMembers {seen ms out : Members Value} (hseen : seen.Distinct)
    (hout : fromMembers rules seen ms = .ok out) : out.Distinct := by
  induction ms generalizing seen with
  | nil =>
    rw [fromMembers] at hout
    split at hout
    · cases hout
    · cases hout
      exact hseen
  | cons m ms ih =>
    obtain ⟨n, v⟩ := m
    rw [fromMembers] at hout
    split at hout
    · exact ih hseen hout
    · next r hr =>
      split at hout
      · cases hout
      · next hnew =>
        obtain ⟨-, -, hout⟩ := exists_of_bind_eq_ok hout
        refine ih ?_ hout
        have hnot : r.name ∉ seen.map (·.1) := by
          intro hmem
          obtain ⟨⟨k, w⟩, hk, rfl⟩ := List.mem_map.1 hmem
          exact hnew (by rw [Members.contains, hseen.get?_of_mem hk]; rfl)
        rw [Members.Distinct, List.map_append, List.map_singleton]
        refine List.nodup_append.2 ⟨hseen, List.nodup_singleton _, ?_⟩
        intro a ha b hb hab
        have hname : a = r.name := hab.trans (List.mem_singleton.1 hb)
        exact hnot (hname ▸ ha)

theorem distinct_known_of_fields (h : Plain rules) {name : String} {ms out : Members Value}
    (hout : fields name rules (.object ms) = .ok out) : (known rules ms).Distinct := by
  rw [fields_object] at hout
  have hdistinct := distinct_of_fromMembers Members.sorted_nil.distinct hout
  rwa [h.eq_of_fromMembers hout, List.nil_append] at hdistinct

/-- Only the members that belong to a field have to be different. -/
theorem fields_eq_ok_of_known (h : Plain rules) (name : String) {ms : Members Value}
    (hms : (known rules ms).Distinct) (haccepts : ∀ r ∈ rules, r.Accepts ms) :
    ∃ out, fields name rules (.object ms) = .ok out := by
  have hknown : ∀ r ∈ rules, r.Accepts (known rules ms) := by
    intro r hr
    rw [FieldRule.Accepts, get?_known (isSome_ruleFor hr)]
    exact haccepts r hr
  obtain ⟨out, hout⟩ := fields_eq_ok h name hms hknown
  rw [fields_object, fromMembers_known] at hout
  exact ⟨out, hout⟩

/-! ## Readings -/

/-- A field of a record, and what it is read as. -/
structure Reading where
  {type : Type}
  field : RecordField type
  value : type

/-- The field is read so among some members. -/
def Reading.In (ms : Members Value) (g : Reading) : Prop := get ms g.field = .ok g.value

/-- The rules of the fields that are read. -/
def rulesOf (gs : List Reading) : List FieldRule := gs.map fun g ↦ g.field.rule

variable {gs : List Reading}

/-- **Readings.** The fields of a record are read so of what is read from an object if and only if
they are read so of the object itself, and it has none of them twice. -/
theorem exists_fields_iff (h : Plain (rulesOf gs)) (name : String) (ms : Members Value) :
    (∃ out, fields name (rulesOf gs) (.object ms) = .ok out ∧ ∀ g ∈ gs, g.In out) ↔
      (known (rulesOf gs) ms).Distinct ∧ ∀ g ∈ gs, g.In ms := by
  have hrule : ∀ g ∈ gs, g.field.rule ∈ rulesOf gs := fun g hg ↦ List.mem_map.2 ⟨g, hg, rfl⟩
  constructor
  · rintro ⟨out, hout, hread⟩
    refine ⟨distinct_known_of_fields h hout, fun g hg ↦ ?_⟩
    rw [Reading.In, ← get_of_fields h hout (hrule g hg)]
    exact hread g hg
  · rintro ⟨hdistinct, hread⟩
    have haccepts : ∀ r ∈ rulesOf gs, r.Accepts ms := by
      intro r hr
      obtain ⟨g, hg, rfl⟩ := List.mem_map.1 hr
      exact accepts_of_get (hread g hg)
    obtain ⟨out, hout⟩ := fields_eq_ok_of_known h name hdistinct haccepts
    refine ⟨out, hout, fun g hg ↦ ?_⟩
    rw [Reading.In, get_of_fields h hout (hrule g hg)]
    exact hread g hg

/-! ## Fields that are read back -/

theorem get_eq_read {ms : Members Value} {f : RecordField α} {v : Value}
    (hv : ms.get? f.name = some v) : get ms f = f.read v := by
  rw [get, hv]

theorem get_eq_absent {ms : Members Value} {f : RecordField α} {a : α}
    (hv : ms.get? f.name = none) (ha : f.absent = some a) : get ms f = .ok a := by
  rw [get, hv, ha]

/-- An optional field is read back from the member that is written if there is a value. -/
theorem get_optional {ms : Members Value} {name : String} {d : Decoder α} {write : α → Value}
    {o : Option α} (hget : ms.get? name = o.map write)
    (hd : ∀ a, o = some a → d.optional (write a) = .ok (some a)) :
    get ms (.optional name d) = .ok o := by
  cases o with
  | none => exact get_eq_absent hget rfl
  | some a => exact (get_eq_read hget).trans (hd a rfl)

theorem get_optionalText {ms : Members Value} {name : String} {o : Option String}
    (hget : ms.get? name = o.map .string) : get ms (.optional name .text) = .ok o :=
  get_optional hget fun _ _ ↦ rfl

theorem exists_of_get_optional {ms : Members Value} {name : String} {d : Decoder α} {a : α}
    (h : get ms (.optional name d) = .ok (some a)) :
    ∃ v, ms.get? name = some v ∧ d v = .ok a := by
  cases hv : ms.get? name with
  | none =>
    rw [get_eq_absent (f := .optional name d) hv rfl] at h
    cases h
  | some v =>
    rw [get_eq_read (f := .optional name d) hv] at h
    exact ⟨v, rfl, Decoder.eq_ok_of_optional h⟩

theorem isSome_of_get_optional {ms : Members Value} {name : String} {d : Decoder α} {o : Option α}
    (h : get ms (.optional name d) = .ok o) {v : Value} (hv : ms.get? name = some v)
    (hnull : v ≠ .null) : o.isSome = true := by
  rw [get_eq_read (f := .optional name d) hv] at h
  exact Decoder.isSome_of_optional h hnull

end Record

end Workflow.Json
