import Lindenmayer.Proofs.Number.Exact
import Mathlib.Tactic.Ring

/-!
# The order of doubles

Finite doubles are compared by their signs, then by their exponents and last by their significands.
As a significand has all of its bits unless the exponent is the least one, this is the order of the
numbers that they stand for.
-/
namespace Lindenmayer.Number

open Binary64 Float.Model

/-- A significand of at most 53 bits, and of no fewer unless the exponent is the least one. -/
structure IsDouble (m : Nat) (e : Int) : Prop where
  short : m < 2 ^ 53
  least : -1074 ≤ e
  full : 2 ^ 52 ≤ m ∨ e = -1074

variable {m₁ m₂ : Nat} {e₁ e₂ : Int}

/-- The greater exponent makes the greater number. -/
theorem IsDouble.lt_of_exponent_lt (h₁ : IsDouble m₁ e₁) (h₂ : IsDouble m₂ e₂) (he : e₁ < e₂) :
    (m₁ * 2 ^ e₁ : ℚ) < m₂ * 2 ^ e₂ := by
  have hleast := h₁.least
  have hfull : 2 ^ 52 ≤ m₂ := h₂.full.resolve_right (by omega)
  calc (m₁ * 2 ^ e₁ : ℚ) < 2 ^ 53 * 2 ^ e₁ :=
        mul_lt_mul_of_pos_right (by exact_mod_cast h₁.short) (by positivity)
    _ = 2 ^ 52 * 2 ^ (e₁ + 1) := by
        rw [zpow_add_one₀ two_ne_zero]
        ring
    _ ≤ 2 ^ 52 * 2 ^ e₂ :=
        mul_le_mul_of_nonneg_left (zpow_le_zpow_right₀ one_le_two he) (by positivity)
    _ ≤ m₂ * 2 ^ e₂ := mul_le_mul_of_nonneg_right (by exact_mod_cast hfull) (by positivity)

theorem IsDouble.compare_eq (h₁ : IsDouble m₁ e₁) (h₂ : IsDouble m₂ e₂) :
    (compare e₁ e₂).then (compare m₁ m₂) = compare (m₁ * 2 ^ e₁ : ℚ) (m₂ * 2 ^ e₂) := by
  rcases lt_trichotomy e₁ e₂ with he | rfl | he
  · rw [compare_lt_iff_lt.2 he, compare_lt_iff_lt.2 (h₁.lt_of_exponent_lt h₂ he)]
    rfl
  · have hpow : (0 : ℚ) < 2 ^ e₁ := by positivity
    rw [compare_eq_iff_eq.2 rfl]
    change compare m₁ m₂ = _
    rcases lt_trichotomy m₁ m₂ with hm | rfl | hm
    · have hlt : (m₁ * 2 ^ e₁ : ℚ) < m₂ * 2 ^ e₁ :=
        mul_lt_mul_of_pos_right (Nat.cast_lt.2 hm) hpow
      rw [compare_lt_iff_lt.2 hm, compare_lt_iff_lt.2 hlt]
    · rw [compare_eq_iff_eq.2 rfl, compare_eq_iff_eq.2 rfl]
    · have hlt : (m₂ * 2 ^ e₁ : ℚ) < m₁ * 2 ^ e₁ :=
        mul_lt_mul_of_pos_right (Nat.cast_lt.2 hm) hpow
      rw [compare_gt_iff_gt.2 hm, compare_gt_iff_gt.2 hlt]
  · rw [compare_gt_iff_gt.2 he, compare_gt_iff_gt.2 (h₂.lt_of_exponent_lt h₁ he)]
    rfl

variable {x y : Float} {p q : ℚ}

/-- What a finite double is made of, and the number that it stands for. -/
theorem StandsFor.unpack_cases (h : StandsFor x q) :
    (∃ s, x.toModel.unpack = .zero s ∧ q = 0) ∨ ∃ m e, 0 < m ∧ IsDouble m e ∧
      ((∃ hm, x.toModel.unpack = .finite .positive m e hm ∧ q = m * 2 ^ e) ∨
        ∃ hm, x.toModel.unpack = .finite .negative m e hm ∧ q = -(m * 2 ^ e)) := by
  obtain ⟨d, hd, rfl⟩ := h
  obtain ⟨hshort, hleast, -⟩ := bounds_of_finite hd
  have hfull := significand_of_finite hd
  obtain ⟨s, hu, rfl⟩ | ⟨s, m, e, hm, hu, rfl⟩ := unpack_of_finite hd
  · exact Or.inl ⟨s, hu, by simp [Dyadic.toRat]⟩
  · refine Or.inr ⟨m, e, hm, ⟨hshort, hleast, hfull⟩, ?_⟩
    cases s with
    | positive => exact Or.inl ⟨hm, hu, Dyadic.toRat_of_positive (d := ⟨false, m, e⟩) rfl⟩
    | negative => exact Or.inr ⟨hm, hu, Dyadic.toRat_of_negative (d := ⟨true, m, e⟩) rfl⟩

theorem compare_neg (p q : ℚ) : compare (-p) (-q) = (compare p q).swap := by
  rcases lt_trichotomy p q with h | rfl | h
  · rw [compare_lt_iff_lt.2 h, compare_gt_iff_gt.2 (neg_lt_neg h)]
    rfl
  · rw [compare_eq_iff_eq.2 rfl, compare_eq_iff_eq.2 rfl]
    rfl
  · rw [compare_gt_iff_gt.2 h, compare_lt_iff_lt.2 (neg_lt_neg h)]
    rfl

/-- Finite doubles compare as the numbers that they stand for. -/
theorem StandsFor.compare_eq (hx : StandsFor x p) (hy : StandsFor y q) :
    x.toModel.unpack.compare y.toModel.unpack = some (compare p q) := by
  have hpos {m : Nat} (hm : 0 < m) (e : Int) : (0 : ℚ) < m * 2 ^ e :=
    mul_pos (Nat.cast_pos.2 hm) (by positivity)
  have hneg {m : Nat} (hm : 0 < m) (e : Int) : -(m * 2 ^ e : ℚ) < 0 :=
    neg_lt_zero.2 (hpos hm e)
  obtain ⟨s, hu, rfl⟩ | ⟨m, e, hm, hdouble, ⟨_, hu, rfl⟩ | ⟨_, hu, rfl⟩⟩ := hx.unpack_cases
  · obtain ⟨s', hv, rfl⟩ | ⟨m', e', hm', hdouble', ⟨_, hv, rfl⟩ | ⟨_, hv, rfl⟩⟩ :=
      hy.unpack_cases
    · rw [hu, hv, compare_eq_iff_eq.2 rfl]
      rfl
    · rw [hu, hv, compare_lt_iff_lt.2 (hpos hm' e')]
      rfl
    · rw [hu, hv, compare_gt_iff_gt.2 (hneg hm' e')]
      rfl
  · obtain ⟨s', hv, rfl⟩ | ⟨m', e', hm', hdouble', ⟨_, hv, rfl⟩ | ⟨_, hv, rfl⟩⟩ :=
      hy.unpack_cases
    · rw [hu, hv, compare_gt_iff_gt.2 (hpos hm e)]
      rfl
    · rw [hu, hv, ← hdouble.compare_eq hdouble']
      rfl
    · rw [hu, hv, compare_gt_iff_gt.2 ((hneg hm' e').trans (hpos hm e))]
      rfl
  · obtain ⟨s', hv, rfl⟩ | ⟨m', e', hm', hdouble', ⟨_, hv, rfl⟩ | ⟨_, hv, rfl⟩⟩ :=
      hy.unpack_cases
    · rw [hu, hv, compare_lt_iff_lt.2 (hneg hm e)]
      rfl
    · rw [hu, hv, compare_lt_iff_lt.2 ((hneg hm e).trans (hpos hm' e'))]
      rfl
    · rw [hu, hv, compare_neg, ← hdouble.compare_eq hdouble']
      rfl

theorem StandsFor.lt_iff (hx : StandsFor x p) (hy : StandsFor y q) : x < y ↔ p < q := by
  rw [lt_iff_unpack, UnpackedFloat.lt, hx.compare_eq hy, ← compare_lt_iff_lt]
  cases compare p q <;> decide

theorem StandsFor.isNaN_eq_false (h : StandsFor x q) : x.isNaN = false := by
  change x.toModel.unpack.isNaN = false
  obtain ⟨s, hu, -⟩ | ⟨m, e, hm, -, ⟨_, hu, -⟩ | ⟨_, hu, -⟩⟩ := h.unpack_cases
  all_goals rw [hu]; rfl

end Lindenmayer.Number
