import Mathlib.Algebra.Ring.Nat
import Workflow.Proofs.Text.Split
import Workflow.Uuid

/-!
# Texts of identifiers

An identifier is written in 32 digits, in groups with hyphens between them. The reader takes this
text back to the identifier: `Uuid.ofText?_text`. It takes other notations as well, and all it takes
is 32 characters long or has a text of 36 characters inside, as `Uuid.length_or_exists_of_ofText?`
says.

All texts of identifiers have digits and hyphens at the same places. So where two of them differ
first, there are digits in both, and their order is that of the identifiers:
`Uuid.precedes_of_lt`. `Text.Precedes` is this order by the first difference, which is kept whatever
is put before or after the texts.
-/

namespace Workflow

/-! ## The first difference of two texts -/

namespace Text

/-- Two texts differ, and the first of them has the smaller character where they do so first. -/
inductive Precedes : List Char → List Char → Prop where
  | here {a b : Char} (s t : List Char) : a < b → Precedes (a :: s) (b :: t)
  | next {s t : List Char} (a : Char) : Precedes s t → Precedes (a :: s) (a :: t)

namespace Precedes

variable {s t : List Char}

theorem lt (h : Precedes s t) : s < t := by
  induction h with
  | here s t hab => exact List.cons_lt_cons_iff.2 (.inl hab)
  | next a _ ih => exact List.cons_lt_cons_iff.2 (.inr ⟨rfl, ih⟩)

theorem append_left (h : Precedes s t) (p : List Char) : Precedes (p ++ s) (p ++ t) := by
  induction p with
  | nil => exact h
  | cons a p ih => exact .next a ih

theorem append_right (h : Precedes s t) (u v : List Char) : Precedes (s ++ u) (t ++ v) := by
  induction h with
  | here s t hab => exact .here _ _ hab
  | next a _ ih => exact .next a ih

theorem take_or_drop (h : Precedes s t) (n : Nat) :
    Precedes (s.take n) (t.take n) ∨ s.take n = t.take n ∧ Precedes (s.drop n) (t.drop n) := by
  induction h generalizing n with
  | @here a b s t hab =>
    cases n with
    | zero => exact .inr ⟨rfl, .here s t hab⟩
    | succ n => exact .inl (.here _ _ hab)
  | @next s t a h ih =>
    cases n with
    | zero => exact .inr ⟨rfl, .next a h⟩
    | succ n =>
      rcases ih n with htake | ⟨htake, hdrop⟩
      · exact .inl (.next a htake)
      · exact .inr ⟨congrArg (a :: ·) htake, hdrop⟩

end Precedes

/-! ## Digits -/

theorem length_hexDigits (width n : Nat) : (hexDigits width n).length = width := by
  induction width generalizing n with
  | zero => rfl
  | succ width ih => rw [hexDigits, List.length_append, ih, List.length_singleton]

theorem exists_of_mem_hexDigits {width n : Nat} {c : Char} (h : c ∈ hexDigits width n) :
    ∃ d < 16, c = hexDigit d := by
  induction width generalizing n with
  | zero => cases h
  | succ width ih =>
    rcases List.mem_append.1 h with h | h
    · exact ih h
    · exact ⟨n % 16, Nat.mod_lt _ (by decide), List.mem_singleton.1 h⟩

theorem hexValue?_hexDigit : ∀ d < 16, hexValue? (hexDigit d) = some d := by decide

theorem hexDigit_lt : ∀ b < 16, ∀ a < b, hexDigit a < hexDigit b := by decide

/-- Digits are read from the left, each one times sixteen for every digit after it. -/
theorem foldlM_hexDigits (width n a : Nat) :
    (hexDigits width n).foldlM (fun n c ↦ (hexValue? c).map (16 * n + ·)) a =
      some (a * 16 ^ width + n % 16 ^ width) := by
  induction width generalizing n with
  | zero => simp [hexDigits, Nat.mod_one]
  | succ width ih =>
    have hlast : hexValue? (hexDigit (n % 16)) = some (n % 16) :=
      hexValue?_hexDigit _ (Nat.mod_lt _ (by decide))
    have hsplit : n % 16 ^ (width + 1) = 16 * (n / 16 % 16 ^ width) + n % 16 := by
      rw [Nat.pow_succ', Nat.mod_mul]
      omega
    rw [hexDigits, List.foldlM_append, ih, hsplit]
    simp only [List.foldlM_cons, List.foldlM_nil, hlast, Option.map_some, Option.bind_eq_bind,
      Option.bind_some, Option.pure_def, Nat.pow_succ']
    rw [Nat.mul_add, Nat.mul_left_comm, Nat.add_assoc]

theorem precedes_hexDigits {width n m : Nat} (hnm : n < m) (hm : m < 16 ^ width) :
    Precedes (hexDigits width n) (hexDigits width m) := by
  induction width generalizing n m with
  | zero => omega
  | succ width ih =>
    have hm' : m / 16 < 16 ^ width := by
      rw [Nat.pow_succ] at hm
      exact Nat.div_lt_of_lt_mul (by omega)
    rw [hexDigits, hexDigits]
    rcases Nat.lt_or_eq_of_le (Nat.div_le_div_right (c := 16) (Nat.le_of_lt hnm)) with hlt | heq
    · exact (ih hlt hm').append_right _ _
    · have hlast : n % 16 < m % 16 := by omega
      rw [heq]
      exact (Precedes.here [] [] (hexDigit_lt _ (Nat.mod_lt _ (by decide)) _ hlast)).append_left _

end Text

open Text (Precedes hexDigits)

namespace Uuid

/-! ## Groups of digits -/

section

variable {α : Type} {ns : List Nat} {s : List α}

theorem mem_of_mem_cutInto {l : List α} (hl : l ∈ cutInto ns s) {a : α} (ha : a ∈ l) : a ∈ s := by
  induction ns generalizing s with
  | nil => cases hl
  | cons n ns ih =>
    rcases List.mem_cons.1 hl with rfl | hl
    · exact List.mem_of_mem_take ha
    · exact List.mem_of_mem_drop (ih hl)

theorem cutInto_spec (h : s.length = ns.sum) :
    (cutInto ns s).map List.length = ns ∧ (cutInto ns s).flatten = s := by
  induction ns generalizing s with
  | nil => exact ⟨rfl, (List.length_eq_zero_iff.1 h).symm⟩
  | cons n ns ih =>
    rw [List.sum_cons] at h
    have hdrop : (s.drop n).length = ns.sum := by
      rw [List.length_drop, h, Nat.add_sub_cancel_left]
    have htake : (s.take n).length = n := by
      rw [List.length_take, h, Nat.min_eq_left (Nat.le_add_right _ _)]
    obtain ⟨hlengths, hflatten⟩ := ih hdrop
    rw [cutInto, List.map_cons, htake, hlengths, List.flatten_cons, hflatten, List.take_append_drop]
    exact ⟨rfl, rfl⟩

end

variable {ns : List Nat} {s t : List Char}

/-- Hyphens in front of the groups do not change which of two texts comes first. -/
theorem precedes_cutInto (h : Precedes s t) (hs : s.length = ns.sum) (ht : t.length = ns.sum) :
    Precedes ((cutInto ns s).flatMap ('-' :: ·)) ((cutInto ns t).flatMap ('-' :: ·)) := by
  induction ns generalizing s t with
  | nil =>
    rw [List.length_eq_zero_iff.1 hs] at h
    cases h
  | cons n ns ih =>
    rw [List.sum_cons] at hs ht
    rw [cutInto, cutInto, List.flatMap_cons, List.flatMap_cons]
    rcases h.take_or_drop n with htake | ⟨htake, hdrop⟩
    · exact (Precedes.next '-' htake).append_right _ _
    · rw [htake]
      refine (ih hdrop ?_ ?_).append_left _
      · rw [List.length_drop, hs, Nat.add_sub_cancel_left]
      · rw [List.length_drop, ht, Nat.add_sub_cancel_left]

/-! ## The text of an identifier -/

abbrev digits (u : Uuid) : List Char := hexDigits 32 u.value.toNat

theorem length_digits (u : Uuid) : u.digits.length = groups.sum := Text.length_hexDigits 32 _

theorem cons_chars (u : Uuid) : '-' :: u.chars = (cutInto groups u.digits).flatMap ('-' :: ·) := by
  rw [chars, groups, cutInto, Text.intercalate_cons, List.flatMap_cons]
  rfl

theorem length_flatMap_cons (pieces : List (List Char)) :
    (pieces.flatMap ('-' :: ·)).length = (pieces.map List.length).sum + pieces.length := by
  induction pieces with
  | nil => rfl
  | cons piece pieces ih =>
    rw [List.flatMap_cons, List.length_append, ih, List.length_cons, List.map_cons, List.sum_cons,
      List.length_cons]
    omega

theorem length_intercalate {pieces : List (List Char)} (h : pieces.map List.length = groups) :
    (['-'].intercalate pieces).length = 36 := by
  cases pieces with
  | nil => cases h
  | cons piece pieces =>
    obtain ⟨hpiece, hpieces⟩ := List.cons.inj h
    have hcount : pieces.length = 4 := by
      rw [← List.length_map (f := List.length), hpieces]
      rfl
    rw [Text.intercalate_cons, List.length_append, hpiece]
    have hrest := length_flatMap_cons pieces
    rw [hpieces, hcount] at hrest
    exact congrArg (8 + ·) hrest

theorem length_chars (u : Uuid) : u.chars.length = 36 :=
  length_intercalate (cutInto_spec u.length_digits).1

/-- An identifier is written in digits and hyphens. -/
theorem of_mem_chars {u : Uuid} {c : Char} (h : c ∈ u.chars) :
    c = '-' ∨ ∃ d < 16, c = Text.hexDigit d := by
  rcases Text.mem_of_mem_intercalate h with h | ⟨l, hl, h⟩
  · exact .inl (List.mem_singleton.1 h)
  · exact .inr (Text.exists_of_mem_hexDigits (mem_of_mem_cutInto hl h))

theorem toList_text (u : Uuid) : u.text.toList = u.chars := String.toList_ofList

theorem notMem_chars {c : Char} (hc : c ≠ '-') (hdigits : ∀ d < 16, c ≠ Text.hexDigit d)
    (u : Uuid) : c ∉ u.chars := by
  intro h
  rcases of_mem_chars h with rfl | ⟨d, hd, rfl⟩
  · exact hc rfl
  · exact hdigits d hd rfl

theorem notMem_text {c : Char} (h : c = '/' ∨ c = '\x00') (u : Uuid) : c ∉ u.text.toList := by
  rw [toList_text]
  rcases h with rfl | rfl
  · exact notMem_chars (by decide) (by decide) u
  · exact notMem_chars (by decide) (by decide) u

/-- The text starts with four digits, so the first hyphen is not among its first characters. -/
theorem notMem_take (u : Uuid) : '-' ∉ u.chars.take 4 := by
  have hdigits : ∀ d < 16, '-' ≠ Text.hexDigit d := by decide
  have hfirst : u.chars.take 4 = (u.digits.take 8).take 4 := by
    rw [chars, groups, cutInto, Text.intercalate_cons, List.take_append_of_le_length]
    rw [List.length_take, Text.length_hexDigits]
    decide
  rw [hfirst]
  intro h
  obtain ⟨d, hd, heq⟩ :=
    Text.exists_of_mem_hexDigits (List.mem_of_mem_take (List.mem_of_mem_take h))
  exact hdigits d hd heq

theorem precedes_of_lt {u v : Uuid} (h : u.value < v.value) :
    Precedes ('-' :: u.chars) ('-' :: v.chars) := by
  have hv : v.value.toNat < 16 ^ 32 := v.value.isLt
  rw [cons_chars, cons_chars]
  exact precedes_cutInto (Text.precedes_hexDigits (BitVec.lt_def.1 h) hv) u.length_digits
    v.length_digits

/-! ## Reading -/

theorem ofDigits?_digits (u : Uuid) : ofDigits? u.digits = some u := by
  have hvalue : u.value.toNat < 16 ^ 32 := u.value.isLt
  rw [ofDigits?, Text.length_hexDigits, Text.foldlM_hexDigits, Nat.mod_eq_of_lt hvalue,
    Nat.zero_mul, Nat.zero_add]
  change some (⟨BitVec.ofNat 128 u.value.toNat⟩ : Uuid) = some u
  rw [BitVec.ofNat_toNat, BitVec.setWidth_eq]

theorem length_of_ofDigits? {u : Uuid} (h : ofDigits? s = some u) : s.length = 32 := by
  rw [ofDigits?] at h
  split at h
  · cases h
  · next hlength => exact Decidable.not_not.1 fun hne ↦ hlength (bne_iff_ne.2 hne)

theorem ofGroups?_chars (u : Uuid) : ofGroups? u.chars = some u := by
  have hdigits : ∀ d < 16, '-' ≠ Text.hexDigit d := by decide
  obtain ⟨hlengths, hflatten⟩ := cutInto_spec u.length_digits
  have hsplit : Text.splitOn '-' u.chars = cutInto groups u.digits := by
    rw [Text.splitOn_eq, chars]
    refine List.splitOn_intercalate _ (fun l hl hmem ↦ ?_) (List.cons_ne_nil _ _)
    obtain ⟨d, hd, heq⟩ := Text.exists_of_mem_hexDigits (mem_of_mem_cutInto hl hmem)
    exact hdigits d hd heq
  rw [ofGroups?, hsplit, hlengths, if_pos (beq_self_eq_true groups), hflatten, ofDigits?_digits]

theorem length_of_ofGroups? {u : Uuid} (h : ofGroups? s = some u) : s.length = 36 := by
  rw [ofGroups?] at h
  split at h
  · next hlengths =>
    have hlength := length_intercalate (eq_of_beq hlengths)
    rwa [Text.splitOn_eq, List.intercalate_splitOn] at hlength
  · cases h

/-- There may be braces or the words of a URN around an identifier. -/
theorem unwrap_cases (s : List Char) :
    (unwrap s).1 = s ∨ s = '\x7b' :: ((unwrap s).1 ++ ['\x7d']) ∨ s = urn ++ (unwrap s).1 := by
  fun_cases unwrap s with
  | case1 r hlast =>
    obtain ⟨t, rfl⟩ := List.getLast?_eq_some_iff.1 (eq_of_beq hlast)
    rw [List.dropLast_concat]
    exact .inr (.inl rfl)
  | case2 r _ => exact .inl rfl
  | case3 s _ r hr => exact .inr (.inr (Text.dropStart?_eq_some_iff.1 hr))
  | case4 s _ _ => exact .inl rfl

theorem unwrap_chars (u : Uuid) : (unwrap u.chars).1 = u.chars := by
  rcases unwrap_cases u.chars with h | h | h
  · exact h
  · have hmem : '\x7b' ∈ u.chars := by
      rw [h]
      exact List.mem_cons_self
    exact absurd hmem (notMem_chars (by decide) (by decide) u)
  · have hmem : 'u' ∈ u.chars := by
      rw [h]
      exact List.mem_append_left _ (by decide)
    exact absurd hmem (notMem_chars (by decide) (by decide) u)

theorem ofText?_text (u : Uuid) : ofText? u.text = some u := by
  have hnone : ofDigits? u.chars = none := by
    rw [Option.eq_none_iff_forall_ne_some]
    intro v hv
    have hlength := length_of_ofDigits? hv
    rw [length_chars] at hlength
    cases hlength
  rw [ofText?, toList_text, hnone, unwrap_chars, ofGroups?_chars]

/-- What is read as an identifier has 32 characters, or 36 characters that may stand in braces or
after the words of a URN. -/
theorem length_or_exists_of_ofText? {u : Uuid} (h : ofText? (String.ofList s) = some u) :
    s.length = 32 ∨ ∃ t : List Char, t.length = 36 ∧
      (s = t ∨ s = '\x7b' :: (t ++ ['\x7d']) ∨ s = urn ++ t) := by
  rw [ofText?, String.toList_ofList] at h
  split at h
  · next v hv => exact .inl (length_of_ofDigits? hv)
  · exact .inr ⟨_, length_of_ofGroups? h, (unwrap_cases s).imp_left Eq.symm⟩

end Uuid

end Workflow
