import Lindenmayer.Proofs.Number.Comparison

/-!
# Infinite numbers, and what is no number

A double is finite when it is bounded on both sides. What arithmetic makes of a number that is not
finite is not finite either, and a comparison with an infinite number depends on one side only.
-/
namespace Lindenmayer.Number

open Float.Model UnpackedFloat

/-! ### Arithmetic -/

section Unpacked

variable {u v : UnpackedFloat}

theorem isFinite_unpack_pack (hu : u.isFinite = false) :
    (UnpackedFloat.unpack Format.binary64 (UnpackedFloat.pack Format.binary64 u)).isFinite =
      false := by
  cases u with
  | notANumber => decide
  | infinity s => cases s <;> decide
  | zero s => cases hu
  | finite s m e hm => cases hu

theorem add_of_not_finite (h : u.isFinite = false ∨ v.isFinite = false) :
    (UnpackedFloat.add Format.binary64 u v).isFinite = false := by
  cases u with
  | notANumber => cases v <;> rfl
  | infinity s =>
    cases v with
    | infinity s' => cases s <;> cases s' <;> rfl
    | _ => rfl
  | _ =>
    cases v with
    | notANumber => rfl
    | infinity s' => rfl
    | _ => rcases h with h | h <;> cases h

theorem sub_of_not_finite (h : u.isFinite = false ∨ v.isFinite = false) :
    (UnpackedFloat.sub Format.binary64 u v).isFinite = false := by
  cases u with
  | notANumber => cases v <;> rfl
  | infinity s =>
    cases v with
    | infinity s' => cases s <;> cases s' <;> rfl
    | _ => rfl
  | _ =>
    cases v with
    | notANumber => rfl
    | infinity s' => rfl
    | _ => rcases h with h | h <;> cases h

theorem mul_of_not_finite (h : u.isFinite = false ∨ v.isFinite = false) :
    (UnpackedFloat.mul Format.binary64 u v).isFinite = false := by
  cases u with
  | notANumber => cases v <;> rfl
  | infinity s => cases v <;> rfl
  | _ =>
    cases v with
    | notANumber => rfl
    | infinity s' => rfl
    | _ => rcases h with h | h <;> cases h

end Unpacked

variable {x y : Float}

theorem not_isFinite_add (h : x.isFinite = false ∨ y.isFinite = false) :
    (x + y).isFinite = false :=
  isFinite_unpack_pack (add_of_not_finite h)

theorem not_isFinite_sub (h : x.isFinite = false ∨ y.isFinite = false) :
    (x - y).isFinite = false :=
  isFinite_unpack_pack (sub_of_not_finite h)

theorem not_isFinite_mul (h : x.isFinite = false ∨ y.isFinite = false) :
    (x * y).isFinite = false :=
  isFinite_unpack_pack (mul_of_not_finite h)

/-! ### Bounds -/

/-- A number other than negative infinity. -/
def IsBoundedBelow (x : Float) : Prop :=
  x.toModel.unpack ≠ .notANumber ∧ x.toModel.unpack ≠ .infinity .negative

/-- A number other than positive infinity. -/
def IsBoundedAbove (x : Float) : Prop :=
  x.toModel.unpack ≠ .notANumber ∧ x.toModel.unpack ≠ .infinity .positive

theorem isFinite_iff_isBounded : x.isFinite = true ↔ IsBoundedBelow x ∧ IsBoundedAbove x := by
  change x.toModel.unpack.isFinite = true ↔ _
  rw [IsBoundedBelow, IsBoundedAbove]
  cases x.toModel.unpack with
  | notANumber => exact ⟨fun h => (Bool.false_ne_true h).elim, fun h => absurd rfl h.1.1⟩
  | infinity s =>
    cases s with
    | positive => exact ⟨fun h => (Bool.false_ne_true h).elim, fun h => absurd rfl h.2.2⟩
    | negative => exact ⟨fun h => (Bool.false_ne_true h).elim, fun h => absurd rfl h.1.2⟩
  | _ =>
    refine ⟨fun _ => ⟨⟨?_, ?_⟩, ?_, ?_⟩, fun _ => rfl⟩
    all_goals intro h; cases h

theorem isNaN_eq_false_iff : x.isNaN = false ↔ x.toModel.unpack ≠ .notANumber := by
  change x.toModel.unpack.isNaN = false ↔ _
  cases x.toModel.unpack with
  | notANumber => exact ⟨fun h => (Bool.false_ne_true h.symm).elim, fun h => absurd rfl h⟩
  | _ =>
    refine ⟨fun _ => ?_, fun _ => rfl⟩
    intro h
    cases h

theorem IsBoundedBelow.isNaN_eq_false (h : IsBoundedBelow x) : x.isNaN = false :=
  isNaN_eq_false_iff.2 h.1

theorem IsBoundedAbove.isNaN_eq_false (h : IsBoundedAbove x) : x.isNaN = false :=
  isNaN_eq_false_iff.2 h.1

theorem eq_infinity_of_not_isBoundedBelow (hx : x.isNaN = false) (h : ¬ IsBoundedBelow x) :
    x.toModel.unpack = .infinity .negative :=
  Classical.byContradiction fun hne => h ⟨isNaN_eq_false_iff.1 hx, hne⟩

theorem eq_infinity_of_not_isBoundedAbove (hx : x.isNaN = false) (h : ¬ IsBoundedAbove x) :
    x.toModel.unpack = .infinity .positive :=
  Classical.byContradiction fun hne => h ⟨isNaN_eq_false_iff.1 hx, hne⟩

theorem lt_iff_compare : x < y ↔ x.toModel.unpack.compare y.toModel.unpack = some .lt :=
  Binary64.lt_iff_unpack.trans beq_iff_eq

theorem isBoundedAbove_of_lt (h : x < y) : IsBoundedAbove x := by
  rw [lt_iff_compare] at h
  constructor <;> intro hx <;> rw [hx] at h
  · cases h
  · cases hy : y.toModel.unpack with
    | infinity s => cases s <;> rw [hy] at h <;> cases h
    | _ => rw [hy] at h; cases h

theorem isBoundedBelow_of_lt (h : x < y) : IsBoundedBelow y := by
  rw [lt_iff_compare] at h
  constructor <;> intro hy <;> rw [hy] at h
  · cases hx : x.toModel.unpack <;> rw [hx] at h <;> cases h
  · cases hx : x.toModel.unpack with
    | infinity s => cases s <;> rw [hx] at h <;> cases h
    | _ => rw [hx] at h; cases h

theorem lt_of_not_isBoundedAbove (hx : IsBoundedAbove x) (hy : y.isNaN = false)
    (h : ¬ IsBoundedAbove y) : x < y := by
  obtain ⟨hnan, hinf⟩ := hx
  rw [lt_iff_compare, eq_infinity_of_not_isBoundedAbove hy h]
  cases hu : x.toModel.unpack with
  | notANumber => exact absurd hu hnan
  | infinity s =>
    cases s with
    | positive => exact absurd hu hinf
    | negative => rfl
  | _ => rfl

theorem lt_of_not_isBoundedBelow (hx : x.isNaN = false) (h : ¬ IsBoundedBelow x)
    (hy : IsBoundedBelow y) : x < y := by
  obtain ⟨hnan, hinf⟩ := hy
  rw [lt_iff_compare, eq_infinity_of_not_isBoundedBelow hx h]
  cases hu : y.toModel.unpack with
  | notANumber => exact absurd hu hnan
  | infinity s =>
    cases s with
    | positive => rfl
    | negative => exact absurd hu hinf
  | _ => rfl

/-- What is left of infinity, or when negative infinity is taken off. -/
theorem sub_eq_infinity
    (h : x.toModel.unpack = .infinity .positive ∧ IsBoundedAbove y ∨
      IsBoundedBelow x ∧ y.toModel.unpack = .infinity .negative) :
    (x - y).toModel.unpack = .infinity .positive := by
  have hsub : UnpackedFloat.sub Format.binary64 x.toModel.unpack y.toModel.unpack =
      .infinity .positive := by
    rcases h with ⟨hx, hnan, hinf⟩ | ⟨⟨hnan, hinf⟩, hy⟩
    · rw [hx]
      cases hv : y.toModel.unpack with
      | notANumber => exact absurd hv hnan
      | infinity s =>
        cases s with
        | positive => exact absurd hv hinf
        | negative => rfl
      | _ => rfl
    · rw [hy]
      cases hu : x.toModel.unpack with
      | notANumber => exact absurd hu hnan
      | infinity s =>
        cases s with
        | positive => rfl
        | negative => exact absurd hu hinf
      | _ => rfl
  change UnpackedFloat.unpack Format.binary64 (UnpackedFloat.pack Format.binary64
    (UnpackedFloat.sub Format.binary64 x.toModel.unpack y.toModel.unpack)) = _
  rw [hsub]
  rfl

end Lindenmayer.Number
