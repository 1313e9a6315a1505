import Workflow.Decimal.Binary64

/-!
# The two zeros

There are two doubles that are zero, and they are equal as numbers. `Alike` is the relation of
doubles that differ in nothing but the sign of a zero. No comparison tells such doubles apart, and
arithmetic on them has results that are alike again. There is one exception: a division by the one
zero and a division by the other, also inside a power, have different infinities as their results.
But neither result is finite, and that is what `AlikeIfFinite` allows for.

The logical model of doubles unpacks them into a sign, a mantissa and an exponent. A zero keeps its
sign there, so whatever is to be known of zeros is read off the cases of unpacked doubles.
-/

open Float.Model (Format UnpackedFloat)
open Float.Model.UnpackedFloat (Sign)

namespace Workflow.Decimal

/-! ## Unpacked doubles -/

/-- Unpacked doubles that differ in nothing but the sign of a zero. -/
inductive AlikeUnpacked : UnpackedFloat → UnpackedFloat → Prop where
  | refl (u : UnpackedFloat) : AlikeUnpacked u u
  | zeros (s t : Sign) : AlikeUnpacked (.zero s) (.zero t)

namespace AlikeUnpacked

variable {format : Format} {u u' v v' w : UnpackedFloat}

theorem trans (h : AlikeUnpacked u v) (h' : AlikeUnpacked v w) : AlikeUnpacked u w := by
  cases h with
  | refl u => exact h'
  | zeros s t =>
    cases h' with
    | refl u => exact .zeros s t
    | zeros t r => exact .zeros s r

/-- What is the same of both zeros is the same of unpacked doubles that are alike. -/
theorem apply_eq {β : Type} {f : UnpackedFloat → β} (h : AlikeUnpacked u v)
    (hf : ∀ s t, f (.zero s) = f (.zero t)) : f u = f v := by
  cases h with
  | refl u => rfl
  | zeros s t => exact hf s t

theorem map₂ {f : UnpackedFloat → UnpackedFloat → UnpackedFloat}
    (left : ∀ s t v, AlikeUnpacked (f (.zero s) v) (f (.zero t) v))
    (right : ∀ s t u, AlikeUnpacked (f u (.zero s)) (f u (.zero t)))
    (hu : AlikeUnpacked u u') (hv : AlikeUnpacked v v') : AlikeUnpacked (f u v) (f u' v') := by
  have hleft : AlikeUnpacked (f u v) (f u' v) := by
    cases hu with
    | refl u => exact .refl _
    | zeros s t => exact left s t v
  have hright : AlikeUnpacked (f u' v) (f u' v') := by
    cases hv with
    | refl v => exact .refl _
    | zeros s t => exact right s t u'
  exact hleft.trans hright

theorem add (hu : AlikeUnpacked u u') (hv : AlikeUnpacked v v') :
    AlikeUnpacked (u.add format v) (u'.add format v') := by
  refine map₂ (fun s t v ↦ ?_) (fun s t u ↦ ?_) hu hv
  · cases v with
    | zero r => cases r <;> cases s <;> cases t <;> exact .zeros _ _
    | _ => exact .refl _
  · cases u with
    | zero r => cases r <;> cases s <;> cases t <;> exact .zeros _ _
    | _ => exact .refl _

theorem sub (hu : AlikeUnpacked u u') (hv : AlikeUnpacked v v') :
    AlikeUnpacked (u.sub format v) (u'.sub format v') := by
  refine map₂ (fun s t v ↦ ?_) (fun s t u ↦ ?_) hu hv
  · cases v with
    | zero r => cases r <;> cases s <;> cases t <;> exact .zeros _ _
    | _ => exact .refl _
  · cases u with
    | zero r => cases r <;> cases s <;> cases t <;> exact .zeros _ _
    | _ => exact .refl _

theorem mul (hu : AlikeUnpacked u u') (hv : AlikeUnpacked v v') :
    AlikeUnpacked (u.mul format v) (u'.mul format v') := by
  refine map₂ (fun s t v ↦ ?_) (fun s t u ↦ ?_) hu hv
  · cases v with
    | zero _ | finite _ _ _ _ => exact .zeros _ _
    | _ => exact .refl _
  · cases u with
    | zero _ | finite _ _ _ _ => exact .zeros _ _
    | _ => exact .refl _

/-- Quotients are alike, or they are different infinities. -/
theorem div (hu : AlikeUnpacked u u') (hv : AlikeUnpacked v v') :
    AlikeUnpacked (u.div format v) (u'.div format v') ∨
      ∃ s t, u.div format v = .infinity s ∧ u'.div format v' = .infinity t := by
  have hleft : ∀ s t v, AlikeUnpacked (UnpackedFloat.div format (.zero s) v)
      (UnpackedFloat.div format (.zero t) v) := by
    intro s t v
    cases v with
    | infinity _ | finite _ _ _ _ => exact .zeros _ _
    | _ => exact .refl _
  have hdividend : ∀ v, AlikeUnpacked (u.div format v) (u'.div format v) := by
    intro v
    cases hu with
    | refl u => exact .refl _
    | zeros s t => exact hleft s t v
  cases hv with
  | refl v => exact .inl (hdividend v)
  | zeros s t =>
    cases hu with
    | zeros r r' => exact .inl (.refl _)
    | refl u =>
      cases u with
      | infinity _ | finite _ _ _ _ => exact .inr ⟨_, _, rfl, rfl⟩
      | _ => exact .inl (.refl _)

theorem abs (h : AlikeUnpacked u v) : AlikeUnpacked u.abs v.abs := by
  rw [h.apply_eq (f := UnpackedFloat.abs) fun _ _ ↦ rfl]
  exact .refl _

theorem compare_eq (hu : AlikeUnpacked u u') (hv : AlikeUnpacked v v') :
    u.compare v = u'.compare v' := by
  cases hu with
  | refl u =>
    cases hv with
    | refl v => rfl
    | zeros s t =>
      cases u with
      | infinity r => cases r <;> rfl
      | finite r _ _ _ => cases r <;> rfl
      | _ => rfl
  | zeros s t =>
    cases hv with
    | zeros r r' => rfl
    | refl v =>
      cases v with
      | infinity r => cases r <;> rfl
      | finite r _ _ _ => cases r <;> rfl
      | _ => rfl

theorem of_beq (h : u.beq v = true) : AlikeUnpacked u v := by
  have hcompare : u.compare v = some .eq := eq_of_beq h
  cases u with
  | notANumber => cases hcompare
  | infinity s =>
    cases v with
    | infinity t =>
      cases s <;> cases t
      · exact .refl _
      · cases hcompare
      · cases hcompare
      · exact .refl _
    | _ => cases s <;> cases hcompare
  | zero s =>
    cases v with
    | zero t => exact .zeros s t
    | infinity t | finite t _ _ _ => cases t <;> cases hcompare
    | notANumber => cases hcompare
  | finite s m e _ =>
    cases v with
    | finite t n f _ =>
      have hsame : ∀ r, (compare e f).then (compare m n) = .eq →
          AlikeUnpacked (.finite r m e ‹_›) (.finite r n f ‹_›) := by
        intro r hthen
        obtain ⟨he, hm⟩ := Ordering.then_eq_eq.1 hthen
        obtain rfl := Int.compare_eq_eq.1 he
        obtain rfl := Nat.compare_eq_eq.1 hm
        exact .refl _
      cases s <;> cases t
      · exact hsame _ (Ordering.swap_eq_eq.1 (Option.some.inj hcompare))
      · cases hcompare
      · cases hcompare
      · exact hsame _ (Option.some.inj hcompare)
    | infinity t => cases t <;> cases s <;> cases hcompare
    | zero t => cases s <;> cases hcompare
    | notANumber => cases hcompare

end AlikeUnpacked

/-! ## Doubles -/

/-- Doubles that differ in nothing but the sign of a zero. -/
def Alike (x y : Float) : Prop := x = y ∨ (x == 0.0) = true ∧ (y == 0.0) = true

/-- Doubles that are alike, or neither of which is finite. -/
def AlikeIfFinite (x y : Float) : Prop := Alike x y ∨ x.isFinite = false ∧ y.isFinite = false

variable {x x' y y' : Float} {u v : UnpackedFloat}

theorem beq_zero_iff : (x == 0.0) = true ↔ ∃ s, x.toModel.unpack = .zero s := by
  have hzero : (0.0 : Float).toModel.unpack = .zero .positive := rfl
  change x.toModel.unpack.beq (0.0 : Float).toModel.unpack = true ↔ _
  rw [hzero]
  cases x.toModel.unpack with
  | zero s => exact iff_of_true rfl ⟨s, rfl⟩
  | infinity s | finite s _ _ _ => cases s <;> exact iff_of_false nofun nofun
  | notANumber => exact iff_of_false nofun nofun

theorem Alike.refl (x : Float) : Alike x x := .inl rfl

theorem Alike.unpack (h : Alike x y) : AlikeUnpacked x.toModel.unpack y.toModel.unpack := by
  rcases h with rfl | ⟨hx, hy⟩
  · exact .refl _
  · obtain ⟨s, hs⟩ := beq_zero_iff.1 hx
    obtain ⟨t, ht⟩ := beq_zero_iff.1 hy
    rw [hs, ht]
    exact .zeros s t

theorem Alike.of_unpacked (h : AlikeUnpacked u v) :
    Alike (.ofModel (.pack u)) (.ofModel (.pack v)) := by
  cases h with
  | refl u => exact .refl _
  | zeros s t =>
    have hzero : ∀ r : Sign, (Float.ofModel (.pack (.zero r)) == 0.0) = true := fun r ↦
      beq_zero_iff.2 ⟨r, by cases r <;> rfl⟩
    exact .inr ⟨hzero s, hzero t⟩

/-! ## Comparisons -/

theorem beq_congr (hx : Alike x x') (hy : Alike y y') : (x == y) = (x' == y') :=
  congrArg (fun o : Option Ordering ↦ o == some .eq) (hx.unpack.compare_eq hy.unpack)

theorem lt_congr (hx : Alike x x') (hy : Alike y y') : x < y ↔ x' < y' := by
  have hlt : x.toModel.unpack.lt y.toModel.unpack = x'.toModel.unpack.lt y'.toModel.unpack :=
    congrArg (fun o : Option Ordering ↦ o == some .lt) (hx.unpack.compare_eq hy.unpack)
  change decide (x.toModel.unpack.lt y.toModel.unpack = true) = true ↔ _
  rw [hlt]
  exact Iff.rfl

theorem le_congr (hx : Alike x x') (hy : Alike y y') : x ≤ y ↔ x' ≤ y' := by
  have hle : x.toModel.unpack.le y.toModel.unpack = x'.toModel.unpack.le y'.toModel.unpack :=
    congrArg (fun o : Option Ordering ↦ o.any Ordering.isLE) (hx.unpack.compare_eq hy.unpack)
  change decide (x.toModel.unpack.le y.toModel.unpack = true) = true ↔ _
  rw [hle]
  exact Iff.rfl

theorem isFinite_congr (h : Alike x y) : x.isFinite = y.isFinite := h.unpack.apply_eq fun _ _ ↦ rfl

theorem toUInt64_congr (h : Alike x y) : x.toUInt64 = y.toUInt64 := h.unpack.apply_eq fun _ _ ↦ rfl

theorem toUInt64_eq_of_beq (h : (x == y) = true) : x.toUInt64 = y.toUInt64 :=
  (AlikeUnpacked.of_beq h).apply_eq fun _ _ ↦ rfl

/-! ## Arithmetic -/

theorem Alike.add (hx : Alike x x') (hy : Alike y y') : Alike (x + y) (x' + y') :=
  .of_unpacked (hx.unpack.add hy.unpack)

theorem Alike.sub (hx : Alike x x') (hy : Alike y y') : Alike (x - y) (x' - y') :=
  .of_unpacked (hx.unpack.sub hy.unpack)

theorem Alike.mul (hx : Alike x x') (hy : Alike y y') : Alike (x * y) (x' * y') :=
  .of_unpacked (hx.unpack.mul hy.unpack)

theorem Alike.div (hx : Alike x x') (hy : Alike y y') : AlikeIfFinite (x / y) (x' / y') := by
  rcases hx.unpack.div hy.unpack with h | ⟨s, t, hs, ht⟩
  · exact .inl (.of_unpacked h)
  · have hinfinite : ∀ r : Sign, (Float.ofModel (.pack (.infinity r))).isFinite = false := by
      intro r
      cases r <;> rfl
    refine .inr ⟨?_, ?_⟩
    · have heq : x / y = .ofModel (.pack (.infinity s)) :=
        congrArg (fun u ↦ Float.ofModel (.pack u)) hs
      rw [heq, hinfinite]
    · have heq : x' / y' = .ofModel (.pack (.infinity t)) :=
        congrArg (fun u ↦ Float.ofModel (.pack u)) ht
      rw [heq, hinfinite]

theorem Alike.abs (h : Alike x y) : Alike x.abs y.abs := .of_unpacked h.unpack.abs

theorem Alike.floor (h : Alike x y) : Alike (floor x) (floor y) := by
  rcases h with rfl | ⟨hx, hy⟩
  · exact .refl _
  · rw [Decimal.floor, Decimal.floor, hx, hy]
    exact .inr ⟨hx, hy⟩

theorem AlikeIfFinite.floor (h : AlikeIfFinite x y) : AlikeIfFinite (floor x) (floor y) := by
  rcases h with halike | ⟨hx, hy⟩
  · exact .inl halike.floor
  · have hself : ∀ z : Float, z.isFinite = false → Decimal.floor z = z := by
      intro z hz
      rw [Decimal.floor, hz, Bool.not_false, Bool.or_true]
      exact if_pos rfl
    rw [hself x hx, hself y hy]
    exact .inr ⟨hx, hy⟩

theorem Alike.remainder (hx : Alike x x') (hy : Alike y y') :
    Alike (remainder x y) (remainder x' y') := by
  rcases hy with rfl | ⟨hy, hy'⟩
  · rcases hx with rfl | ⟨hx, hx'⟩
    · exact .refl _
    · rw [Decimal.remainder, Decimal.remainder, if_pos hx, if_pos hx']
      split
      · exact .refl _
      · split
        · exact .refl _
        · exact .inr ⟨hx, hx'⟩
  · rw [Decimal.remainder, Decimal.remainder, if_pos hy, if_pos hy']
    exact .refl _

theorem Alike.power (hx : Alike x x') (hy : Alike y y') :
    AlikeIfFinite (power x y) (power x' y') := by
  rcases hy with rfl | ⟨hy, hy'⟩
  · rcases hx with rfl | ⟨hx, hx'⟩
    · exact .inl (.refl _)
    · have hzero : Alike (if isOdd y then x else 0.0) (if isOdd y then x' else 0.0) := by
        split
        · exact .inr ⟨hx, hx'⟩
        · exact .refl _
      rw [Decimal.power, Decimal.power, if_pos hx, if_pos hx']
      dsimp only
      generalize (if isOdd y then x else 0.0) = z at hzero ⊢
      generalize (if isOdd y then x' else 0.0) = z' at hzero ⊢
      split
      · exact .inl (.refl _)
      · split
        · exact .inl (.refl _)
        · split
          · exact .inl hzero
          · exact (Alike.refl 1.0).div hzero
  · rw [Decimal.power, Decimal.power, if_pos hy, if_pos hy']
    exact .inl (.refl _)

end Workflow.Decimal
