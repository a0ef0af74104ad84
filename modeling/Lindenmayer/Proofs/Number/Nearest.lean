import Lindenmayer.Number.Binary64
import Mathlib.Algebra.Group.Nat.Defs
import Mathlib.Data.Nat.Log

/-!
# Numbers of 53 significant bits

A quotient that is rounded is off by half of the divisor at most, and one that needs no rounding is
kept. Hence a natural number whose bits behind the first 53 are rounded becomes the nearest one that
needs no more bits, and it is kept exactly if it needs no more itself.
-/
namespace Lindenmayer.Number

section Rounding

variable {num den q : Nat}

theorem roundDiv_mul (hden : 0 < den) (q : Nat) : roundDiv (q * den) den = q := by
  simp [roundDiv, Nat.mul_div_cancel q hden, hden]

theorem roundDiv_mul_left {k : Nat} (hk : 0 < k) (num den : Nat) :
    roundDiv (k * num) (k * den) = roundDiv num den := by
  have hrest : 2 * (k * num % (k * den)) = k * (2 * (num % den)) := by
    rw [Nat.mul_mod_mul_left, Nat.mul_left_comm]
  simp only [roundDiv, hrest, Nat.mul_div_mul_left _ _ hk, Nat.mul_lt_mul_left hk]

/-- The quotient is rounded down, or up to the next. -/
theorem roundDiv_cases (hden : 0 < den) (num : Nat) :
    ∃ q r, num = q * den + r ∧ r < den ∧
      (roundDiv num den = q ∧ 2 * r ≤ den ∨ roundDiv num den = q + 1 ∧ den ≤ 2 * r) := by
  have hsplit : num = num / den * den + num % den := (Nat.div_add_mod' num den).symm
  refine ⟨num / den, num % den, hsplit, Nat.mod_lt num hden, ?_⟩
  rw [roundDiv]
  split
  · next h => exact Or.inl ⟨rfl, h.le⟩
  · split
    · next h => exact Or.inr ⟨rfl, h.le⟩
    · have hhalf : 2 * (num % den) = den := by omega
      rcases Nat.mod_two_eq_zero_or_one (num / den) with h | h
      · exact Or.inl ⟨by rw [h, Nat.add_zero], hhalf.le⟩
      · exact Or.inr ⟨by rw [h], hhalf.ge⟩

theorem le_roundDiv (hden : 0 < den) (h : q * den ≤ num) : q ≤ roundDiv num den := by
  obtain ⟨k, r, hnum, hr, hround⟩ := roundDiv_cases hden num
  have hlt : q * den < (k + 1) * den := by
    rw [Nat.succ_mul]
    omega
  have hle : q ≤ k := Nat.le_of_lt_succ (Nat.lt_of_mul_lt_mul_right hlt)
  omega

theorem roundDiv_le (hden : 0 < den) (h : num ≤ q * den) : roundDiv num den ≤ q := by
  obtain ⟨k, r, hnum, hr, ⟨hround, -⟩ | ⟨hround, hhalf⟩⟩ := roundDiv_cases hden num
  · have hle : k * den ≤ q * den := by omega
    rw [hround]
    exact Nat.le_of_mul_le_mul_right hle hden
  · have hlt : k * den < q * den := by omega
    rw [hround]
    exact Nat.lt_of_mul_lt_mul_right hlt

/-- A rounded quotient is off by half of the divisor at most. -/
theorem roundDiv_near (hden : 0 < den) (num : Nat) :
    2 * (roundDiv num den * den) ≤ 2 * num + den ∧
      2 * num ≤ 2 * (roundDiv num den * den) + den := by
  obtain ⟨k, r, hnum, hr, ⟨hround, hhalf⟩ | ⟨hround, hhalf⟩⟩ := roundDiv_cases hden num
  · rw [hround]
    omega
  · have hnext : (k + 1) * den = k * den + den := Nat.succ_mul k den
    rw [hround]
    omega

/-- No multiple of the divisor is nearer. -/
theorem roundDiv_nearest (hden : 0 < den) (num q : Nat) :
    (((roundDiv num den * den : Nat) : Int) - num).natAbs ≤
      (((q * den : Nat) : Int) - num).natAbs := by
  obtain ⟨hlow, hhigh⟩ := roundDiv_near hden num
  rcases Nat.lt_trichotomy q (roundDiv num den) with hlt | rfl | hlt
  · have hnext : (q + 1) * den ≤ roundDiv num den * den := Nat.mul_le_mul_right den hlt
    rw [Nat.succ_mul] at hnext
    omega
  · exact Nat.le_refl _
  · have hnext : (roundDiv num den + 1) * den ≤ q * den := Nat.mul_le_mul_right den hlt
    rw [Nat.succ_mul] at hnext
    omega

end Rounding

/-- The number can be written with 53 bits and zeros behind them, as the whole numbers among the
doubles are. -/
def FitsDouble (n : Nat) : Prop := ∃ m k, m < 2 ^ 53 ∧ n = m * 2 ^ k

/-- The unit of the last of the first 53 bits. -/
def lastUnit (n : Nat) : Nat := 2 ^ (n.log2 - 52)

/-- The number with the bits behind the first 53 rounded, a half to the even neighbour. -/
def nearestFit (n : Nat) : Nat := roundDiv n (lastUnit n) * lastUnit n

variable {m n : Nat}

theorem lastUnit_pos (n : Nat) : 0 < lastUnit n := Nat.two_pow_pos _

theorem lt_two_pow_mul_lastUnit (n : Nat) : n < 2 ^ 53 * lastUnit n := by
  have hlog : n < 2 ^ (n.log2 + 1) := Nat.lt_log2_self
  rw [lastUnit, ← Nat.pow_add]
  exact hlog.trans_le (Nat.pow_le_pow_right Nat.two_pos (by omega))

theorem log2_lt {k l : Nat} (h : n < 2 ^ k) (hkl : 0 < k ∧ k ≤ l) : n.log2 < l := by
  rcases Nat.eq_zero_or_pos n with rfl | hpos
  · exact hkl.1.trans_le hkl.2
  · exact ((Nat.log2_lt hpos.ne').2 h).trans_le hkl.2

theorem fitsDouble_of_lt (h : n < 2 ^ 53) : FitsDouble n := ⟨n, 0, h, (Nat.mul_one n).symm⟩

/-- Nothing stands behind the first 53 bits. -/
theorem fitsDouble_iff_dvd : FitsDouble n ↔ lastUnit n ∣ n := by
  constructor
  · rintro ⟨m, k, hm, rfl⟩
    rcases Nat.eq_zero_or_pos m with rfl | hpos
    · simp
    · have hlog : (m * 2 ^ k).log2 < 53 + k := by
        rw [Nat.log2_lt (Nat.mul_pos hpos (Nat.two_pow_pos k)).ne', Nat.pow_add]
        exact Nat.mul_lt_mul_of_pos_right hm (Nat.two_pow_pos k)
      have hzeros : (m * 2 ^ k).log2 - 52 ≤ k := by omega
      exact Nat.dvd_trans (Nat.pow_dvd_pow 2 hzeros) (Nat.dvd_mul_left _ m)
  · rintro ⟨m, hm⟩
    have hlt : m * lastUnit n < 2 ^ 53 * lastUnit n := by
      rw [Nat.mul_comm m, ← hm]
      exact lt_two_pow_mul_lastUnit n
    exact ⟨m, n.log2 - 52, Nat.lt_of_mul_lt_mul_right hlt, hm.trans (Nat.mul_comm _ m)⟩

theorem fitsDouble_nearestFit (n : Nat) : FitsDouble (nearestFit n) := by
  have hle : roundDiv n (lastUnit n) ≤ 2 ^ 53 :=
    roundDiv_le (lastUnit_pos n) (lt_two_pow_mul_lastUnit n).le
  rcases hle.lt_or_eq with hlt | heq
  · exact ⟨_, _, hlt, rfl⟩
  · refine ⟨1, 53 + (n.log2 - 52), by decide, ?_⟩
    rw [nearestFit, heq, lastUnit, ← Nat.pow_add, Nat.one_mul]

theorem nearestFit_eq_self_iff : nearestFit n = n ↔ FitsDouble n := by
  constructor
  · intro h
    rw [← h]
    exact fitsDouble_nearestFit n
  · intro h
    obtain ⟨q, hq⟩ := fitsDouble_iff_dvd.1 h
    rw [Nat.mul_comm] at hq
    have hround : roundDiv n (lastUnit n) = q :=
      (congrArg (fun k => roundDiv k (lastUnit n)) hq).trans (roundDiv_mul (lastUnit_pos n) q)
    rw [nearestFit, hround, ← hq]

theorem nearestFit_pos (hn : 0 < n) : 0 < nearestFit n := by
  have hle : 1 * lastUnit n ≤ n := by
    rw [Nat.one_mul]
    exact (Nat.pow_le_pow_right Nat.two_pos (Nat.sub_le _ _)).trans (Nat.log2_self_le hn.ne')
  exact Nat.mul_pos (le_roundDiv (lastUnit_pos n) hle) (lastUnit_pos n)

/-- No number of 53 significant bits is nearer. -/
theorem nearestFit_near (n : Nat) (hm : FitsDouble m) :
    ((nearestFit n : Int) - n).natAbs ≤ ((m : Int) - n).natAbs := by
  have hnear := roundDiv_nearest (lastUnit_pos n) n
  obtain ⟨a, k, ha, rfl⟩ := hm
  by_cases hk : n.log2 - 52 ≤ k
  · -- a multiple of the last unit
    have hsplit : a * 2 ^ k = a * 2 ^ (k - (n.log2 - 52)) * lastUnit n := by
      rw [lastUnit, Nat.mul_assoc, ← Nat.pow_add, Nat.sub_add_cancel hk]
    rw [hsplit]
    exact hnear _
  · -- below the greatest power of two in `n`, which is such a multiple
    have hpower : 2 ^ 52 * lastUnit n = 2 ^ n.log2 := by
      rw [lastUnit, ← Nat.pow_add]
      congr 1
      omega
    have hlow : 2 ^ n.log2 ≤ n := Nat.log2_self_le (by rintro rfl; simp at hk)
    have hbelow : a * 2 ^ k < 2 ^ n.log2 := by
      calc a * 2 ^ k < 2 ^ 53 * 2 ^ k := Nat.mul_lt_mul_of_pos_right ha (Nat.two_pow_pos k)
        _ = 2 ^ (53 + k) := (Nat.pow_add 2 53 k).symm
        _ ≤ 2 ^ n.log2 := Nat.pow_le_pow_right Nat.two_pos (by omega)
    have hnear := hnear (2 ^ 52)
    rw [hpower] at hnear
    exact hnear.trans (by omega)

end Lindenmayer.Number
