import Lindenmayer.Proofs.Number.Sign
import Mathlib.Algebra.Order.Field.Power
import Mathlib.Algebra.Order.Field.Rat
import Mathlib.Tactic.Positivity

/-!
# The numbers that doubles stand for

A finite double stands for one rational number, and what is asked of a double can be said of that
number: whether it is below zero or not above it, and whether it is a natural number. Of the natural
numbers, those are doubles that 53 bits and some zeros behind them can write.
-/
namespace Lindenmayer.Number

namespace Dyadic

/-- The number itself. -/
def toRat (d : Dyadic) : ℚ := (if d.negative then -1 else 1) * (d.significand * 2 ^ d.exponent)

variable {d : Dyadic}

theorem den_pos (d : Dyadic) : 0 < d.den := Nat.two_pow_pos _

theorem num_eq (d : Dyadic) : (d.num : ℚ) = d.significand * 2 ^ d.exponent * d.den := by
  have hnum : (d.num : ℚ) = d.significand * 2 ^ d.exponent.toNat := by
    rw [num]
    push_cast [Nat.pow_eq]
    rfl
  have hden : (d.den : ℚ) = 2 ^ (-d.exponent).toNat := by
    rw [den]
    push_cast [Nat.pow_eq]
    rfl
  have hpow : (2 : ℚ) ^ d.exponent.toNat = 2 ^ d.exponent * 2 ^ (-d.exponent).toNat := by
    rw [← zpow_natCast, ← zpow_natCast, ← zpow_add₀ two_ne_zero]
    congr 1
    omega
  rw [hnum, hden, hpow, mul_assoc]

theorem toRat_of_positive (h : d.negative = false) : d.toRat = d.significand * 2 ^ d.exponent := by
  simp [toRat, h]

theorem toRat_of_negative (h : d.negative = true) :
    d.toRat = -(d.significand * 2 ^ d.exponent) := by
  simp [toRat, h]

/-- A natural number has no sign unless it is zero. -/
theorem toRat_eq_natCast_iff {n : Nat} :
    d.toRat = n ↔ d.num = n * d.den ∧ (d.negative = true → d.significand = 0) := by
  have hden : (d.den : ℚ) ≠ 0 := Nat.cast_ne_zero.2 (Nat.pos_iff_ne_zero.1 d.den_pos)
  have hpow : (2 : ℚ) ^ d.exponent ≠ 0 := zpow_ne_zero _ two_ne_zero
  have hsize : (d.significand * 2 ^ d.exponent : ℚ) = n ↔ d.num = n * d.den := by
    rw [← mul_left_inj' hden, ← num_eq, ← Nat.cast_mul, Nat.cast_inj]
  cases hsign : d.negative with
  | false => simp [toRat_of_positive hsign, hsize]
  | true =>
    rw [toRat_of_negative hsign]
    constructor
    · intro h
      have hsum : (d.significand * 2 ^ d.exponent : ℚ) + n = 0 := by rw [← h, add_neg_cancel]
      obtain ⟨hzero, hn⟩ := (add_eq_zero_iff_of_nonneg (by positivity) n.cast_nonneg).1 hsum
      have hsignificand : d.significand = 0 := by simpa [hpow] using hzero
      exact ⟨hsize.1 (hzero.trans hn.symm), fun _ => hsignificand⟩
    · rintro ⟨hnum, hsignificand⟩
      have hzero : (d.significand * 2 ^ d.exponent : ℚ) = 0 := by simp [hsignificand rfl]
      rw [← hsize.2 hnum, hzero, neg_zero]

/-- The whole part of a natural number is that number. -/
theorem truncate_of_toRat {n : Nat} (h : d.toRat = n) : d.IsWhole ∧ d.truncate = n := by
  obtain ⟨hnum, hsign⟩ := toRat_eq_natCast_iff.1 h
  have hquotient : d.num / d.den = n := by rw [hnum, Nat.mul_div_cancel n d.den_pos]
  refine ⟨by rw [IsWhole, hnum, Nat.mul_mod_left], ?_⟩
  rw [truncate, hquotient]
  split
  · next hnegative =>
    have hzero : d.num = 0 := by rw [num, hsign hnegative, Nat.zero_mul]
    have hn : n = 0 := by rw [← hquotient, hzero, Nat.zero_div]
    rw [hn]
    rfl
  · rfl

theorem exists_toRat_eq_natCast (hsign : ¬ d.toRat < 0) (hwhole : d.IsWhole) :
    ∃ n : Nat, d.toRat = n := by
  refine ⟨d.num / d.den, toRat_eq_natCast_iff.2 ⟨?_, fun hnegative => ?_⟩⟩
  · exact (Nat.div_mul_cancel (Nat.dvd_of_mod_eq_zero hwhole)).symm
  · rw [toRat_of_negative hnegative, neg_lt_zero] at hsign
    by_contra hpos
    have hsignificand : (0 : ℚ) < d.significand := Nat.cast_pos.2 (Nat.pos_of_ne_zero hpos)
    exact hsign (mul_pos hsignificand (by positivity))

end Dyadic

/-- The double is the number `q`. -/
def StandsFor (x : Float) (q : ℚ) : Prop := ∃ d, Binary64.ofFloat x = .finite d ∧ d.toRat = q

namespace Binary64

open Float.Model UnpackedFloat

variable {x : Float} {d : Dyadic} {q : ℚ}

theorem unpack_of_finite (hd : ofFloat x = .finite d) :
    (∃ s, x.toModel.unpack = .zero s ∧ d = ⟨s == .negative, 0, -1074⟩) ∨
      ∃ s m e hm, x.toModel.unpack = .finite s m e hm ∧ d = ⟨s == .negative, m, e⟩ := by
  rw [ofFloat_eq_ofUnpacked] at hd
  cases hu : x.toModel.unpack with
  | infinity s =>
    rw [hu] at hd
    cases hd
  | notANumber =>
    rw [hu] at hd
    exact Binary64.noConfusion hd
  | zero s =>
    rw [hu] at hd
    exact Or.inl ⟨s, rfl, (Binary64.finite.inj hd).symm⟩
  | finite s m e hm =>
    rw [hu] at hd
    exact Or.inr ⟨s, m, e, hm, rfl, (Binary64.finite.inj hd).symm⟩

theorem isFinite_iff_exists : x.isFinite = true ↔ ∃ d, ofFloat x = .finite d := by
  constructor
  · intro hx
    rw [ofFloat_eq_ofUnpacked]
    obtain ⟨s, hu⟩ | ⟨s, m, e, hm, hu, -⟩ := (isBelow_of_isFinite hx).zero_or_finite
    · rw [hu]
      exact ⟨_, rfl⟩
    · rw [hu]
      exact ⟨_, rfl⟩
  · rintro ⟨d, hd⟩
    change x.toModel.unpack.isFinite = true
    obtain ⟨s, hu, -⟩ | ⟨s, m, e, hm, hu, -⟩ := unpack_of_finite hd
    · rw [hu]
      rfl
    · rw [hu]
      rfl

/-- How large the parts of a finite double can be. -/
theorem bounds_of_finite (hd : ofFloat x = .finite d) :
    d.significand < 2 ^ 53 ∧ -1074 ≤ d.exponent ∧ d.exponent ≤ 971 := by
  have hx : IsBelow 1024 x := isBelow_of_isFinite (isFinite_iff_exists.2 ⟨d, hd⟩)
  obtain ⟨s, hu, rfl⟩ | ⟨s, m, e, hm, hu, rfl⟩ := unpack_of_finite hd
  · cases s <;> decide
  · rw [IsBelow, hu] at hx
    obtain ⟨hlt, hlow, hhigh⟩ := hx
    exact ⟨hlt, hlow, by dsimp only; omega⟩

end Binary64

open Binary64 Float.Model

variable {x : Float} {q : ℚ}

theorem StandsFor.unique {r : ℚ} (h : StandsFor x q) (h' : StandsFor x r) : q = r := by
  obtain ⟨d, hd, rfl⟩ := h
  obtain ⟨d', hd', rfl⟩ := h'
  rw [Binary64.finite.inj (hd.symm.trans hd')]

theorem isFinite_iff_exists_standsFor : x.isFinite = true ↔ ∃ q, StandsFor x q := by
  rw [isFinite_iff_exists]
  constructor
  · rintro ⟨d, hd⟩
    exact ⟨d.toRat, d, hd, rfl⟩
  · rintro ⟨q, d, hd, -⟩
    exact ⟨d, hd⟩

/-- Which sign a double has as a number: a zero has none. -/
theorem StandsFor.sign_cases (h : StandsFor x q) :
    (∃ s, x.toModel.unpack = .zero s ∧ q = 0) ∨
      (∃ m e hm, x.toModel.unpack = .finite .positive m e hm ∧ 0 < q) ∨
        ∃ m e hm, x.toModel.unpack = .finite .negative m e hm ∧ q < 0 := by
  obtain ⟨d, hd, rfl⟩ := h
  obtain ⟨s, hu, rfl⟩ | ⟨s, m, e, hm, hu, rfl⟩ := unpack_of_finite hd
  · exact Or.inl ⟨s, hu, by simp [Dyadic.toRat]⟩
  · right
    have hsize : (0 : ℚ) < m * 2 ^ e := mul_pos (Nat.cast_pos.2 hm) (by positivity)
    cases s with
    | positive => exact Or.inl ⟨m, e, hm, hu, by rwa [Dyadic.toRat_of_positive rfl]⟩
    | negative =>
      refine Or.inr ⟨m, e, hm, hu, ?_⟩
      rwa [Dyadic.toRat_of_negative rfl, neg_lt_zero]

theorem StandsFor.lt_zero_iff (h : StandsFor x q) : x < 0 ↔ q < 0 := by
  rw [Binary64.lt_zero_iff]
  obtain ⟨s, hu, rfl⟩ | ⟨m, e, hm, hu, hq⟩ | ⟨m, e, hm, hu, hq⟩ := h.sign_cases
  · rw [hu]
    refine iff_of_false ?_ (lt_irrefl 0)
    intro hneg
    cases hneg
  · rw [hu]
    refine iff_of_false ?_ hq.not_gt
    intro hneg
    cases hneg
  · rw [hu]
    exact iff_of_true (.finite m e hm) hq

theorem StandsFor.le_zero_iff (h : StandsFor x q) : x ≤ 0 ↔ q ≤ 0 := by
  have hle : x ≤ 0 ↔ x.toModel.unpack.le (.zero .positive) = true :=
    ⟨of_decide_eq_true, decide_eq_true⟩
  rw [hle]
  obtain ⟨s, hu, rfl⟩ | ⟨m, e, hm, hu, hq⟩ | ⟨m, e, hm, hu, hq⟩ := h.sign_cases
  · rw [hu]
    refine iff_of_true ?_ le_rfl
    cases s <;> rfl
  · rw [hu]
    exact iff_of_false Bool.false_ne_true hq.not_ge
  · rw [hu]
    exact iff_of_true rfl hq.le

end Lindenmayer.Number
