import Workflow.Proofs.Condition.Missing
import Workflow.Proofs.Text.Split

/-!
# Dotted paths as conditions

A path of names with dots between them is an expression: `parse_path` says that it is read as a
variable with one access after another. The text is followed piece by piece, first into tokens and
from there into the expression.
-/

namespace Workflow.Condition

/-! ## Names -/

namespace Token

def keywords : List String := ["true", "false", "null", "in"]

/-- A text is a name: a letter or an underscore, then letters, digits and underscores, and no
keyword. -/
structure IsName (s : String) : Prop where
  chars : ∃ c cs, s.toList = c :: cs ∧ isNameStart c = true ∧ ∀ d ∈ cs, isNameChar d = true
  notKeyword : s ∉ keywords

theorem toNat_of_isNameStart {c : Char} (h : isNameStart c = true) :
    (65 ≤ c.toNat ∧ c.toNat ≤ 90) ∨ c.toNat = 95 ∨ (97 ≤ c.toNat ∧ c.toNat ≤ 122) := by
  rcases (Bool.or_eq_true _ _).mp h with halpha | hunderscore
  · rcases (Bool.or_eq_true _ _).mp halpha with hupper | hlower
    · have hrange : c.val ≥ 'A'.val ∧ c.val ≤ 'Z'.val := of_decide_eq_true hupper
      exact .inl ⟨UInt32.le_iff_toNat_le.1 hrange.1, UInt32.le_iff_toNat_le.1 hrange.2⟩
    · obtain ⟨hlow, hhigh⟩ := (Bool.and_eq_true _ _).mp hlower
      exact .inr (.inr ⟨UInt32.le_iff_toNat_le.1 (of_decide_eq_true hlow),
        UInt32.le_iff_toNat_le.1 (of_decide_eq_true hhigh)⟩)
  · rw [eq_of_beq hunderscore]
    exact .inr (.inl rfl)

theorem toNat_of_isDigit {c : Char} (h : c.isDigit = true) : 48 ≤ c.toNat ∧ c.toNat ≤ 57 := by
  simp only [Char.isDigit, Bool.and_eq_true, decide_eq_true_eq] at h
  exact ⟨UInt32.le_iff_toNat_le.1 h.1, UInt32.le_iff_toNat_le.1 h.2⟩

theorem isDigit_of_isNameStart {c : Char} (h : isNameStart c = true) : c.isDigit = false := by
  refine Bool.eq_false_iff.2 fun hdigit ↦ ?_
  have hstart := toNat_of_isNameStart h
  have hrange := toNat_of_isDigit hdigit
  omega

theorem isBlank_of_isNameStart {c : Char} (h : isNameStart c = true) : Text.isBlank c = false := by
  have hstart := toNat_of_isNameStart h
  simp only [Text.isBlank, Bool.or_eq_false_iff, Bool.and_eq_false_iff, decide_eq_false_iff_not,
    beq_eq_false_iff_ne]
  omega

theorem toNat_lt_of_isNameChar {c : Char} (h : isNameChar c = true) : c.toNat < 128 := by
  have hcases : isNameStart c = true ∨ c.isDigit = true := by
    simp only [isNameChar, isNameStart, Char.isAlphanum, Bool.or_eq_true] at h ⊢
    rcases h with (halpha | hdigit) | hunderscore
    · exact .inl (.inl halpha)
    · exact .inr hdigit
    · exact .inl (.inr hunderscore)
  rcases hcases with hstart | hdigit
  · have hrange := toNat_of_isNameStart hstart
    omega
  · have hrange := toNat_of_isDigit hdigit
    omega

theorem ofWord_of_notKeyword {w : List Char} (h : String.ofList w ∉ keywords) :
    ofWord w = .name (String.ofList w) := by
  unfold ofWord
  split
  · next heq => exact absurd (heq ▸ by decide) h
  · next heq => exact absurd (heq ▸ by decide) h
  · next heq => exact absurd (heq ▸ by decide) h
  · next heq => exact absurd (heq ▸ by decide) h
  · rfl

/-! ## Tokens -/

/-- A text that does not go on with a name that stands before it. -/
def EndsName (s : List Char) : Prop := s.takeWhile isNameChar = [] ∧ s.dropWhile isNameChar = s

theorem endsName_nil : EndsName [] := ⟨rfl, rfl⟩

theorem endsName_dot (s : List Char) : EndsName ('.' :: s) := ⟨rfl, rfl⟩

variable {fuel : Nat} {s : List Char} {name root : String} {rest : List String}

theorem scanWithin?_of_first {c : Char} {r : List Char} {t : Token}
    (hblank : Text.isBlank c = false) (h : first? c s = some (t, r)) :
    scanWithin? (fuel + 1) (c :: s) = (scanWithin? fuel r).map (t :: ·) := by
  rw [scanWithin?, if_neg (by rw [hblank]; exact Bool.false_ne_true), h, Option.map_eq_bind]
  rfl

theorem IsName.scanWithin?_append (h : IsName name) (hs : EndsName s) :
    scanWithin? (fuel + 1) (name.toList ++ s) = (scanWithin? fuel s).map (.name name :: ·) := by
  obtain ⟨c, cs, hname, hstart, hcs⟩ := h.chars
  have htake : (cs ++ s).takeWhile isNameChar = cs := by
    rw [List.takeWhile_append_of_pos hcs, hs.1, List.append_nil]
  have hdrop : (cs ++ s).dropWhile isNameChar = s := by
    rw [List.dropWhile_append_of_pos hcs, hs.2]
  have hword : ofWord (c :: cs) = .name name := by
    have hofList : String.ofList (c :: cs) = name := by rw [← hname, String.ofList_toList]
    rw [ofWord_of_notKeyword (hofList ▸ h.notKeyword), hofList]
  rw [hname, List.cons_append]
  refine scanWithin?_of_first (isBlank_of_isNameStart hstart) ?_
  rw [first?.eq_def, if_pos hstart, htake, hdrop, hword]

/-- A dot before a name is an access, and does not begin a number. -/
theorem IsName.scanWithin?_dot (h : IsName name) :
    scanWithin? (fuel + 1) ('.' :: (name.toList ++ s)) =
      (scanWithin? fuel (name.toList ++ s)).map (.dot :: ·) := by
  obtain ⟨c, cs, hname, hstart, -⟩ := h.chars
  refine scanWithin?_of_first (by decide) ?_
  have hstartDot : isNameStart '.' = false := by decide
  rw [hname, List.cons_append]
  simp [first?, hstartDot, isDigit_of_isNameStart hstart]

def ofPath (root : String) (rest : List String) : List Token :=
  .name root :: rest.flatMap fun name ↦ [.dot, .name name]

theorem scanWithin?_path (hroot : IsName root) (hrest : ∀ name ∈ rest, IsName name)
    (hfuel : 2 * rest.length < fuel) :
    scanWithin? fuel (root.toList ++ rest.flatMap ('.' :: ·.toList)) =
      some (ofPath root rest) := by
  obtain ⟨fuel, rfl⟩ : ∃ n, fuel = n + 1 := ⟨fuel - 1, by omega⟩
  induction rest generalizing root fuel with
  | nil =>
    rw [List.flatMap_nil, hroot.scanWithin?_append endsName_nil]
    cases fuel <;> rfl
  | cons name rest ih =>
    obtain ⟨hname, hrest⟩ := List.forall_mem_cons.1 hrest
    rw [List.length_cons] at hfuel
    obtain ⟨fuel, rfl⟩ : ∃ n, fuel = n + 2 := ⟨fuel - 2, by omega⟩
    rw [List.flatMap_cons, List.cons_append, hroot.scanWithin?_append (endsName_dot _),
      hname.scanWithin?_dot, ih hname hrest fuel (by omega)]
    rfl

theorem IsName.toList_ne_nil (h : IsName name) : name.toList ≠ [] := by
  obtain ⟨c, cs, hname, -⟩ := h.chars
  rw [hname]
  exact List.cons_ne_nil _ _

theorem IsName.toNat_lt (h : IsName name) {c : Char} (hc : c ∈ name.toList) : c.toNat < 128 := by
  obtain ⟨d, ds, hname, hstart, hds⟩ := h.chars
  rw [hname] at hc
  rcases List.mem_cons.1 hc with rfl | hc
  · have hrange := toNat_of_isNameStart hstart
    omega
  · exact toNat_lt_of_isNameChar (hds c hc)

theorem two_mul_length_lt (hroot : IsName root) (hrest : ∀ name ∈ rest, IsName name) :
    2 * rest.length < (root.toList ++ rest.flatMap ('.' :: ·.toList)).length := by
  have hpos := List.length_pos_iff.2 hroot.toList_ne_nil
  have hdots : 2 * rest.length ≤ (rest.flatMap ('.' :: ·.toList)).length := by
    induction rest with
    | nil => exact Nat.le_refl _
    | cons name rest ih =>
      obtain ⟨hname, hrest⟩ := List.forall_mem_cons.1 hrest
      have hlength := List.length_pos_iff.2 hname.toList_ne_nil
      have hsum := ih hrest
      rw [List.flatMap_cons, List.length_append, List.length_cons, List.length_cons]
      omega
  rw [List.length_append]
  omega

theorem scan?_path {path : String} (hpath : Text.segments path = root :: rest)
    (hnames : ∀ name ∈ Text.segments path, IsName name) :
    scan? path = some (ofPath root rest) := by
  rw [hpath] at hnames
  obtain ⟨hroot, hrest⟩ := List.forall_mem_cons.1 hnames
  have hascii : ∀ c ∈ path.toList, c.toNat < 128 := by
    intro c hc
    rw [Text.toList_eq_of_segments hpath] at hc
    rcases List.mem_append.1 hc with hc | hc
    · exact hroot.toNat_lt hc
    · obtain ⟨name, hname, hc⟩ := List.mem_flatMap.1 hc
      rcases List.mem_cons.1 hc with rfl | hc
      · decide
      · exact (hrest name hname).toNat_lt hc
  have hall : path.toList.all (fun c ↦ c.toNat < 128) = true :=
    List.all_eq_true.2 fun c hc ↦ decide_eq_true (hascii c hc)
  rw [scan?, if_pos hall, Text.toList_eq_of_segments hpath]
  exact scanWithin?_path hroot hrest (two_mul_length_lt hroot hrest)

end Token

/-! ## Expressions -/

namespace Expr

variable {fuel : Nat} {e : Expr} {root : String} {rest : List String}

/-- The expression of a path: a variable, and one access after another. -/
def ofPath (root : String) (rest : List String) : Expr := rest.foldl .member (.name root)

theorem accesses?_path (hfuel : rest.length < fuel) :
    accesses? fuel e (rest.flatMap fun name ↦ [.dot, .name name]) =
      some (rest.foldl .member e, []) := by
  obtain ⟨fuel, rfl⟩ : ∃ n, fuel = n + 1 := ⟨fuel - 1, by omega⟩
  induction rest generalizing e fuel with
  | nil => rfl
  | cons name rest ih =>
    rw [List.length_cons] at hfuel
    obtain ⟨fuel, rfl⟩ : ∃ n, fuel = n + 1 := ⟨fuel - 1, by omega⟩
    exact ih fuel (by omega)

/-- An operand that all tokens make up is the whole expression: no operator follows at any level. -/
theorem binary?_of_accessed? {ts : List Token} (h : accessed? (fuel + 1) ts = some (e, [])) :
    binary? (fuel + 8) 1 ts = some (e, []) := by
  have htransformed : transformed? (fuel + 2) ts = some (e, []) := by
    rw [transformed?, h]
    rfl
  have hbinary : binary? (fuel + 3) 6 ts = some (e, []) := by
    rw [binary?, if_neg (by decide), htransformed]
    rfl
  have hstep : ∀ n level, level ≤ 5 → binary? (n + 1) (level + 1) ts = some (e, []) →
      binary? (n + 2) level ts = some (e, []) := by
    intro n level hlevel hnext
    rw [binary?, if_pos hlevel, hnext]
    rfl
  exact hstep _ 1 (by decide) (hstep _ 2 (by decide) (hstep _ 3 (by decide)
    (hstep _ 4 (by decide) (hstep _ 5 (by decide) hbinary))))

theorem ofTokens?_path : ofTokens? (Token.ofPath root rest) = some (ofPath root rest) := by
  have hlength : (Token.ofPath root rest).length = 2 * rest.length + 1 := by
    rw [Token.ofPath, List.length_cons, List.length_flatMap]
    simp [List.map_const', Nat.mul_comm]
  obtain ⟨fuel, hfuel, hrest⟩ : ∃ n,
      12 * (Token.ofPath root rest).length + 12 = n + 9 ∧ rest.length < n + 1 :=
    ⟨24 * rest.length + 15, by omega, by omega⟩
  have haccessed : accessed? (fuel + 2) (Token.ofPath root rest) = some (ofPath root rest, []) :=
    accesses?_path hrest
  rw [ofTokens?, hfuel, binary?_of_accessed? haccessed]

end Expr

/-- **Paths.** A path of names is a condition, and it is read as a variable with one access after
another. -/
theorem parse_path {path root : String} {rest : List String}
    (hpath : Text.segments path = root :: rest)
    (hnames : ∀ name ∈ Text.segments path, Token.IsName name) :
    parse path = .ok ⟨path, Expr.ofPath root rest⟩ := by
  have hblank : Text.isBlankText path = false := by
    obtain ⟨c, cs, hroot, hstart, -⟩ := (hnames root (hpath ▸ List.mem_cons_self)).chars
    refine List.all_eq_false.2 ⟨c, ?_, by rw [Token.isBlank_of_isNameStart hstart]; decide⟩
    rw [Text.toList_eq_of_segments hpath, hroot]
    exact List.mem_cons_self
  exact parse_of_tokens hblank (Token.scan?_path hpath hnames) Expr.ofTokens?_path

end Workflow.Condition
