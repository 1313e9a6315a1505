import Workflow.Json.Value
import Workflow.Proofs.Json.Members

/-!
# Rearranged values

A value is written in one order and read in another: what is written has its members in the order
of a declaration, and what was read from a text has them in ascending order. `Value.Rearranges`
describes functions that only move members about, with the identity and `Value.normalize` as its
two instances, so that what is proved of rearranged documents holds of both.
-/

namespace Workflow.Json.Value

/-! ## Normalizing -/

theorem normalizeItems_eq_map (xs : List Value) : normalizeItems xs = xs.map normalize := by
  induction xs with
  | nil => rfl
  | cons x xs ih => rw [normalizeItems, List.map_cons, ih]

theorem normalizeMembers_eq_mapValues (ms : Members Value) :
    normalizeMembers ms = ms.mapValues normalize := by
  induction ms with
  | nil => rfl
  | cons m ms ih =>
    rw [normalizeMembers, ih]
    rfl

theorem normalize_object (ms : Members Value) :
    normalize (.object ms) = .object (Members.ofList (ms.mapValues normalize)) := by
  rw [normalize, normalizeMembers_eq_mapValues]

mutual

/-- **Canonical form.** Values that are normalized stay as they are. -/
theorem normalize_normalize : (v : Value) → v.normalize.normalize = v.normalize
  | null | bool _ | number _ | string _ => rfl
  | array xs => by rw [normalize, normalize, normalizeItems_normalizeItems xs]
  | object ms => by
    -- the values are normalized already, and members in ascending order stay where they are
    have hmembers := normalizeMembers_normalizeMembers ms
    rw [normalizeMembers_eq_mapValues, normalizeMembers_eq_mapValues] at hmembers
    rw [normalize_object, normalize_object, Members.mapValues_ofList, hmembers,
      Members.ofList_eq_self (Members.sorted_ofList _)]

theorem normalizeItems_normalizeItems :
    (xs : List Value) → normalizeItems (normalizeItems xs) = normalizeItems xs
  | [] => rfl
  | x :: xs => by
    rw [normalizeItems, normalizeItems, normalize_normalize x, normalizeItems_normalizeItems xs]

theorem normalizeMembers_normalizeMembers :
    (ms : List (String × Value)) → normalizeMembers (normalizeMembers ms) = normalizeMembers ms
  | [] => rfl
  | (k, x) :: ms => by
    rw [normalizeMembers, normalizeMembers, normalize_normalize x,
      normalizeMembers_normalizeMembers ms]

end

/-! ## Moving members about -/

/-- A function on values that changes nothing but the order of members. It is asked to be good only
for objects whose members have different names; what it leaves as it is, it leaves so to the last
value inside. -/
structure Rearranges (f : Value → Value) : Prop where
  bool (b : Bool) : f (.bool b) = .bool b
  number (n : Number) : f (.number n) = .number n
  string (s : String) : f (.string s) = .string s
  array (xs : List Value) : f (.array xs) = .array (xs.map f)
  object {ms : Members Value} : ms.Distinct → ∃ ns : Members Value,
    f (.object ms) = .object ns ∧ ns.Distinct ∧ ∀ name, ns.get? name = (ms.get? name).map f
  inside {ms : Members Value} : f (.object ms) = .object ms → ∀ m ∈ ms, f m.2 = m.2

theorem rearranges_id : Rearranges id where
  bool _ := rfl
  number _ := rfl
  string _ := rfl
  array xs := by rw [List.map_id, id]
  object {ms} h := ⟨ms, rfl, h, fun name ↦ (Option.map_id_apply).symm⟩
  inside _ _ _ := rfl

theorem rearranges_normalize : Rearranges normalize where
  bool _ := rfl
  number _ := rfl
  string _ := rfl
  array xs := by rw [normalize, normalizeItems_eq_map]
  object {ms} h := by
    refine ⟨_, normalize_object ms, (Members.sorted_ofList _).distinct, fun name ↦ ?_⟩
    rw [Members.get?_ofList (h.mapValues _), Members.get?_mapValues]
  inside {ms} h m hm := by
    obtain ⟨name, v⟩ := m
    rw [normalize_object] at h
    have heq : Members.ofList (ms.mapValues normalize) = ms := Value.object.inj h
    -- what comes out in ascending order has different names, so it can be looked up
    have hms : ms.Distinct := heq ▸ (Members.sorted_ofList _).distinct
    have hv : ms.get? name = some v := hms.get?_of_mem hm
    have hget := Members.get?_ofList (hms.mapValues normalize) name
    rw [heq, Members.get?_mapValues, hv] at hget
    exact (Option.some.inj hget).symm

namespace Rearranges

variable {f : Value → Value}

theorem items (hf : Rearranges f) {xs : List Value} (h : f (.array xs) = .array xs) :
    ∀ x ∈ xs, f x = x := by
  rw [hf.array] at h
  have hmap : xs.map f = xs.map id := (Value.array.inj h).trans (List.map_id xs).symm
  exact List.map_inj_left.1 hmap

theorem ofNat (hf : Rearranges f) (n : Nat) : f (.ofNat n) = .ofNat n := hf.number _

theorem texts (hf : Rearranges f) (ss : List String) :
    f (.array (ss.map .string)) = .array (ss.map .string) := by
  have hmap : (ss.map Value.string).map f = ss.map Value.string := by
    rw [List.map_map]
    exact List.map_congr_left fun s _ ↦ hf.string s
  rw [hf.array, hmap]

end Rearranges

/-! ## Members that were written -/

/-- Members that are, wherever they stand, what some slots are written as. -/
structure Written (f : Value → Value) (slots : Members (Option Value)) (ms : Members Value) :
    Prop where
  distinct : ms.Distinct
  get?_eq (name : String) : ms.get? name = (slots.get? name).join.map f

theorem Rearranges.exists_written {f : Value → Value} (hf : Rearranges f)
    {slots : Members (Option Value)} (h : slots.Distinct) :
    ∃ ms : Members Value, f (.object (Members.present slots)) = .object ms ∧
      Written f slots ms := by
  obtain ⟨ms, hms, hdistinct, hget⟩ := hf.object h.present
  refine ⟨ms, hms, hdistinct, fun name ↦ ?_⟩
  rw [hget, Members.get?_present h]

namespace Written

variable {f : Value → Value} {slots : Members (Option Value)} {ms : Members Value} {name : String}

theorem none (h : Written f slots ms) (hs : slots.get? name = .none) : ms.get? name = .none := by
  rw [h.get?_eq, hs]
  rfl

theorem some (h : Written f slots ms) {v w : Value} (hs : slots.get? name = .some (.some v))
    (hv : f v = w) : ms.get? name = .some w := by
  rw [h.get?_eq, hs, ← hv]
  rfl

theorem text (h : Written f slots ms) (hf : Rearranges f) {s : String}
    (hs : slots.get? name = .some (.some (.string s))) : ms.get? name = .some (.string s) :=
  h.some hs (hf.string s)

theorem optional {α : Type} (h : Written f slots ms) {write : α → Value} {o : Option α}
    (hs : slots.get? name = .some (o.map write))
    (hwrite : ∀ a, o = .some a → f (write a) = write a) : ms.get? name = o.map write := by
  cases o with
  | none =>
    rw [h.get?_eq, hs]
    rfl
  | some a => exact h.some hs (hwrite a rfl)

theorem optionalText (h : Written f slots ms) (hf : Rearranges f) {o : Option String}
    (hs : slots.get? name = .some (o.map .string)) : ms.get? name = o.map .string :=
  h.optional hs fun s _ ↦ hf.string s

end Written

end Workflow.Json.Value
