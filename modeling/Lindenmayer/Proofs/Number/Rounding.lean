import Lindenmayer.Proofs.Number.Comparison
import Mathlib.Algebra.Group.Nat.Defs

/-!
# How far rounding goes

The result of an operation on doubles is rounded: bits of the significand are dropped until 53 are
left, and what is left may be raised by one. A result is therefore no more than one power of two
above the exact number; and the exact number has to come within half a unit of the next power of two
before the greatest finite double is passed.
-/
namespace Lindenmayer.Number.Binary64

open Float.Model UnpackedFloat

/-- Zero or a double below `2 ^ k` in size. -/
def Bounded (k : Int) : UnpackedFloat → Prop
  | .zero _ => True
  | .finite _ m e _ => m < 2 ^ 53 ∧ -1074 ≤ e ∧ e + 53 ≤ k
  | _ => False

instance (k : Int) : (u : UnpackedFloat) → Decidable (Bounded k u)
  | .zero _ => isTrue trivial
  | .finite .. => inferInstanceAs (Decidable (_ ∧ _ ∧ _))
  | .infinity _ => isFalse id
  | .notANumber => isFalse id

theorem Bounded.zero_or_finite {k : Int} {u : UnpackedFloat} (h : Bounded k u) :
    (∃ s, u = .zero s) ∨
      ∃ s m e hm, u = .finite s m e hm ∧ m < 2 ^ 53 ∧ -1074 ≤ e ∧ e + 53 ≤ k := by
  cases u with
  | zero s => exact Or.inl ⟨s, rfl⟩
  | finite s m e hm => exact Or.inr ⟨s, m, e, hm, rfl, h⟩
  | infinity s => exact h.elim
  | notANumber => exact h.elim

theorem Bounded.mono {j k : Int} {u : UnpackedFloat} (h : Bounded j u) (hjk : j ≤ k) :
    Bounded k u := by
  obtain ⟨s, rfl⟩ | ⟨s, m, e, hm, rfl, hlt, hlow, hhigh⟩ := h.zero_or_finite
  · trivial
  · exact ⟨hlt, hlow, Int.le_trans hhigh hjk⟩

section Shifting

variable (em : ExtendedMantissa) (k : Nat)

theorem shiftRight_succ : em >>> (k + 1) = (em >>> k).shiftRightOne := rfl

theorem mantissa_shiftRight : (em >>> k).mantissa = em.mantissa / 2 ^ k := by
  induction k with
  | zero => exact (Nat.div_one _).symm
  | succ k ih =>
    rw [shiftRight_succ, Nat.pow_succ, ← Nat.div_div_eq_div_mul, ← ih]
    rfl

theorem roundedMantissa_le : em.roundedMantissa ≤ em.mantissa + 1 := by
  have hodd := Nat.mod_lt em.mantissa Nat.two_pos
  obtain ⟨m, roundBit, stickyBit⟩ := em
  cases roundBit <;> cases stickyBit <;>
    simp only [ExtendedMantissa.roundedMantissa, ExtendedMantissa.accuracy,
      Accuracy.roundToNearestEven] <;> omega

theorem roundedMantissa_eq (h : em.roundBit = false) : em.roundedMantissa = em.mantissa := by
  obtain ⟨m, roundBit, stickyBit⟩ := em
  obtain rfl : roundBit = false := h
  cases stickyBit <;> rfl

/-- Rounding up needs at least half a unit. -/
theorem roundedMantissa_shiftRight_mul_le :
    (em >>> (k + 1)).roundedMantissa * 2 ^ (k + 1) ≤ em.mantissa + 2 ^ k := by
  have hrest : 2 ^ k * (em.mantissa / 2 ^ k) ≤ em.mantissa := Nat.mul_div_le _ _
  have hround : 2 * (em >>> (k + 1)).roundedMantissa ≤ em.mantissa / 2 ^ k + 1 := by
    have hmantissa : (em >>> (k + 1)).mantissa = em.mantissa / 2 ^ k / 2 := by
      rw [mantissa_shiftRight, Nat.pow_succ, Nat.div_div_eq_div_mul]
    by_cases hbit : (em >>> (k + 1)).roundBit = false
    · rw [roundedMantissa_eq _ hbit, hmantissa]
      omega
    · have hodd : em.mantissa / 2 ^ k % 2 = 1 := by
        rw [shiftRight_succ] at hbit
        have : (em >>> k).mantissa % 2 ≠ 0 := by simpa [ExtendedMantissa.shiftRightOne] using hbit
        rw [mantissa_shiftRight] at this
        omega
      have := roundedMantissa_le (em >>> (k + 1))
      omega
  calc (em >>> (k + 1)).roundedMantissa * 2 ^ (k + 1)
      = 2 ^ k * (2 * (em >>> (k + 1)).roundedMantissa) := by
        rw [Nat.pow_succ, Nat.mul_comm, Nat.mul_assoc]
    _ ≤ 2 ^ k * (em.mantissa / 2 ^ k + 1) := Nat.mul_le_mul_left _ hround
    _ = 2 ^ k * (em.mantissa / 2 ^ k) + 2 ^ k := Nat.mul_succ _ _
    _ ≤ em.mantissa + 2 ^ k := Nat.add_le_add_right hrest _

end Shifting

theorem targetExponent_eq (t : Int) : Format.binary64.targetExponent t = max (t - 53) (-1074) := rfl

/-- How many bits `m * 2 ^ e` has to drop to become a double. -/
def surplus (m : Nat) (e : Int) : Nat :=
  (Format.binary64.targetExponent (totalExponent m e) - e).toNat

theorem lt_two_pow_surplus (m : Nat) (e : Int) : m < 2 ^ (53 + surplus m e) := by
  have hlog : m.log2 < 53 + surplus m e := by
    rw [surplus, targetExponent_eq, totalExponent]
    omega
  by_cases hm : m = 0
  · rw [hm]
    exact Nat.two_pow_pos _
  · exact (Nat.log2_lt hm).1 hlog

theorem div_two_pow_surplus_lt (m : Nat) (e : Int) : m / 2 ^ surplus m e < 2 ^ 53 := by
  rw [Nat.div_lt_iff_lt_mul (Nat.two_pow_pos _), ← Nat.pow_add]
  exact lt_two_pow_surplus m e

theorem add_surplus_le {m : Nat} {e k : Int} (hk : -1021 ≤ k) (he : e + 53 ≤ k)
    (hm : totalExponent m e ≤ k) : e + surplus m e + 53 ≤ k := by
  rw [surplus, targetExponent_eq]
  omega

theorem le_add_surplus (m : Nat) (e : Int) : -1074 ≤ e + surplus m e := by
  rw [surplus, targetExponent_eq]
  omega

theorem totalExponent_le {m l : Nat} {e k : Int} (hl : 0 < l) (hm : m < 2 ^ l) (he : e + l ≤ k) :
    totalExponent m e ≤ k := by
  have hlog : m.log2 < l := by
    by_cases hzero : m = 0
    · simpa [hzero] using hl
    · exact (Nat.log2_lt hzero).2 hm
  simp only [totalExponent]
  omega

section Rounding

variable {m : Nat} {e k : Int} {accuracy : Accuracy}

/-- The significand after the first rounding. -/
def firstRounded (m : Nat) (e : Int) (accuracy : Accuracy) : Nat :=
  (ExtendedMantissa.ofMantissaAndAccuracy m accuracy >>> surplus m e).roundedMantissa

theorem firstRounded_le : firstRounded m e accuracy ≤ 2 ^ 53 := by
  have hmantissa : (ExtendedMantissa.ofMantissaAndAccuracy m accuracy).mantissa = m := by
    obtain _ | ⟨_ | _ | _⟩ := accuracy <;> rfl
  have hround := roundedMantissa_le
    (ExtendedMantissa.ofMantissaAndAccuracy m accuracy >>> surplus m e)
  rw [mantissa_shiftRight, hmantissa] at hround
  exact Nat.le_trans hround (div_two_pow_surplus_lt m e)

/-- Only a significand that has been raised to the next power of two takes another power. -/
theorem bounded_roundWithAccuracy (s : Sign) (hk : -1021 ≤ k) (he : e + 53 ≤ k)
    (hm : totalExponent m e ≤ k)
    (hfull : firstRounded m e accuracy = 2 ^ 53 → e + surplus m e + 54 ≤ k) :
    Bounded k (roundWithAccuracy Format.binary64 s m e accuracy) := by
  have he₁ : e + surplus m e + 53 ≤ k := add_surplus_le hk he hm
  generalize hr : firstRounded m e accuracy = r at hfull
  generalize he' : e + (surplus m e : Int) = e' at hfull he₁
  have hr' : totalExponent r e' ≤ k := by
    by_cases h : r = 2 ^ 53
    · exact totalExponent_le (l := 54) (by decide) (h ▸ by decide) (hfull h)
    · have hle : r ≤ 2 ^ 53 := hr ▸ firstRounded_le
      exact totalExponent_le (l := 53) (by decide) (by omega) he₁
  have hround : roundWithAccuracy Format.binary64 s m e accuracy =
      if h : (ExtendedMantissa.ofMantissaAndAccuracy r .exact >>> surplus r e').mantissa = 0
      then .zero s
      else .finite s _ (e' + surplus r e') (Nat.pos_of_ne_zero h) := by
    rw [← hr, ← he']
    rfl
  rw [hround]
  by_cases hzero : (ExtendedMantissa.ofMantissaAndAccuracy r .exact >>> surplus r e').mantissa = 0
  · rw [dif_pos hzero]
    trivial
  · rw [dif_neg hzero]
    refine ⟨?_, le_add_surplus r e', add_surplus_le hk he₁ hr'⟩
    rw [mantissa_shiftRight]
    exact div_two_pow_surplus_lt r e'

/-- Rounding passes at most one power of two. -/
theorem bounded_succ_roundWithAccuracy (s : Sign) (hk : -1021 ≤ k) (he : e + 53 ≤ k)
    (hm : totalExponent m e ≤ k) :
    Bounded (k + 1) (roundWithAccuracy Format.binary64 s m e accuracy) :=
  bounded_roundWithAccuracy s (by omega) (by omega) (by omega) fun _ => by
    have := add_surplus_le hk he hm
    omega

end Rounding

/-- The number `m * 2 ^ e`, counted in the least positive double. -/
def units (m : Nat) (e : Int) : Nat := m * 2 ^ (e + 1074).toNat

theorem units_shiftLeft (m : Nat) {e : Int} {j : Nat} (h : -1074 ≤ e - j) :
    units (m <<< j) (e - j) = units m e := by
  have hexponent : (e + 1074).toNat = j + (e - j + 1074).toNat := by omega
  rw [units, units, Nat.shiftLeft_eq, hexponent, Nat.pow_add, Nat.mul_assoc]

section Sums

variable {m n : Nat} {e : Int}

/-- The first rounding adds at most half a unit in the last place of the greatest numbers. -/
theorem units_firstRounded_le (he : -1074 ≤ e) (hn : e + surplus m e + 1074 ≤ n + 1) :
    units (firstRounded m e .exact) (e + surplus m e) ≤ units m e + 2 ^ n := by
  have hexponent : (e + surplus m e + 1074).toNat = surplus m e + (e + 1074).toNat := by omega
  rw [units, units, firstRounded, hexponent, Nat.pow_add, ← Nat.mul_assoc]
  generalize surplus m e = d at hn ⊢
  cases d with
  | zero =>
    refine Nat.le_trans (Nat.le_of_eq ?_) (Nat.le_add_right _ _)
    exact congrArg (· * _) (Nat.mul_one _)
  | succ d =>
    have hhalf : 2 ^ (d + (e + 1074).toNat) ≤ 2 ^ n :=
      Nat.pow_le_pow_right Nat.two_pos (by omega)
    calc _ ≤ (m + 2 ^ d) * 2 ^ (e + 1074).toNat :=
          Nat.mul_le_mul_right _ (roundedMantissa_shiftRight_mul_le _ d)
      _ = m * 2 ^ (e + 1074).toNat + 2 ^ (d + (e + 1074).toNat) := by
          rw [Nat.add_mul, Nat.pow_add]
      _ ≤ _ := Nat.add_le_add_left hhalf _

/-- An exact number stays below a power of two if it is more than half a unit away from it. -/
theorem bounded_roundWithAccuracy_exact (s : Sign) (he : -1074 ≤ e) (hn : e + 1074 ≤ n + 1)
    (hm : units m e + 2 ^ n < 2 ^ (n + 54)) :
    Bounded (n - 1020) (roundWithAccuracy Format.binary64 s m e .exact) := by
  have htotal : totalExponent m e ≤ n - 1020 := by
    refine totalExponent_le (l := n + 54 - (e + 1074).toNat) (by omega) ?_ (by omega)
    refine Nat.lt_of_mul_lt_mul_right (a := 2 ^ (e + 1074).toNat) ?_
    rw [← Nat.pow_add, Nat.sub_add_cancel (by omega)]
    exact Nat.lt_of_le_of_lt (Nat.le_add_right _ _) hm
  have hsurplus : e + surplus m e + 53 ≤ n - 1020 := add_surplus_le (by omega) (by omega) htotal
  refine bounded_roundWithAccuracy s (by omega) (by omega) htotal fun hfull => ?_
  have hsize := Nat.lt_of_le_of_lt (units_firstRounded_le he (by omega)) hm
  rw [hfull, units, ← Nat.pow_add, Nat.pow_lt_pow_iff_right (by decide)] at hsize
  omega

theorem bounded_round (s : Sign) (he : -1074 ≤ e) (hn : e + 1074 ≤ n + 1)
    (hm : units m e + 2 ^ n < 2 ^ (n + 54)) :
    Bounded (n - 1020) (UnpackedFloat.round Format.binary64 s m e) := by
  have htarget : -1074 ≤ Format.binary64.targetExponent (totalExponent m e) := by
    rw [targetExponent_eq]
    omega
  refine bounded_roundWithAccuracy_exact s (by omega) (by omega) ?_
  rwa [units_shiftLeft m (by omega)]

theorem bounded_normalize (s : Sign) {i : Int} (he : -1074 ≤ e) (hn : e + 1074 ≤ n + 1)
    (hi : units i.natAbs e + 2 ^ n < 2 ^ (n + 54)) :
    Bounded (n - 1020) (UnpackedFloat.normalize Format.binary64 i e s) := by
  rw [UnpackedFloat.normalize]
  split
  · next h =>
    have : i < 0 := Int.compare_eq_lt.1 h
    have hnat : (-i).toNat = i.natAbs := by omega
    exact bounded_round .negative he hn (hnat ▸ hi)
  · trivial
  · next h =>
    have : 0 < i := Int.compare_eq_gt.1 h
    have hnat : i.toNat = i.natAbs := by omega
    exact bounded_round .positive he hn (hnat ▸ hi)

end Sums

end Lindenmayer.Number.Binary64
