import Lindenmayer.Proofs.Number.Nearest
import Lindenmayer.Proofs.Number.Order
import Mathlib.Data.Int.Log
import Mathlib.Data.Rat.Floor
import Mathlib.Tactic.Linarith

/-!
# Rational numbers rounded to doubles

A number is rounded to a whole multiple of the last place that doubles of its size have, a half to
the even neighbour. Nothing that a double can write is nearer. Hence a number that a double can
write is kept, and rounding never leads past one. How large the number is does not matter here: the
exponents are taken to have no upper end.
-/
namespace Lindenmayer.Number

/-- The natural number nearest to a number that is not negative; a half goes to the even one. -/
def roundNat (q : ℚ) : ℕ := roundDiv q.num.natAbs q.den

/-- The exponent of the last of 53 bits, for a positive number. -/
def lastPlace (q : ℚ) : ℤ := max (Int.log 2 q - 52) (-1074)

/-- A number that is not negative, with the bits behind the last place rounded. -/
def roundedSize (q : ℚ) : ℚ := roundNat (q / 2 ^ lastPlace q) * 2 ^ lastPlace q

/-- The number rounded to 53 bits, or to fewer if it is too small for them. -/
def rounded (q : ℚ) : ℚ := if q < 0 then -roundedSize (-q) else roundedSize q

/-- A number of at most 53 bits, none of which is too small for a double. -/
def FitsPlaces (q : ℚ) : Prop := ∃ (m : ℕ) (e : ℤ), m < 2 ^ 53 ∧ -1074 ≤ e ∧ |q| = m * 2 ^ e

section Quotients

variable {num den : ℕ}

/-- The quotient need not be in lowest terms. -/
theorem roundNat_div (num : ℕ) (hden : 0 < den) : roundNat (num / den) = roundDiv num den := by
  have hden' : (den : ℤ) ≠ 0 := by exact_mod_cast hden.ne'
  obtain ⟨c, hnum, hdenom⟩ := Rat.exists_eq_mul_div_num_and_eq_mul_div_den (num : ℤ) hden'
  rw [Int.cast_natCast, Int.cast_natCast] at hnum hdenom
  generalize (num / den : ℚ) = q at hnum hdenom ⊢
  have hnum' : num = c.natAbs * q.num.natAbs := by
    rw [← Int.natAbs_mul, ← hnum, Int.natAbs_natCast]
  have hden'' : den = c.natAbs * q.den := by
    rw [← Int.natAbs_natCast q.den, ← Int.natAbs_mul, ← hdenom, Int.natAbs_natCast]
  have hc : 0 < c.natAbs := Nat.pos_of_mul_pos_right (hden'' ▸ hden)
  rw [roundNat, hnum', hden'', roundDiv_mul_left hc]

theorem roundNat_natCast (n : ℕ) : roundNat n = n := by
  have hone := roundNat_div n Nat.one_pos
  rw [Nat.cast_one, div_one] at hone
  rw [hone]
  simpa using roundDiv_mul Nat.one_pos n

/-- No natural number is nearer. -/
theorem roundNat_nearest {q : ℚ} (hq : 0 ≤ q) (k : ℕ) : |(roundNat q : ℚ) - q| ≤ |(k : ℚ) - q| := by
  have hpos : (0 : ℚ) < q.den := Nat.cast_pos.2 q.den_pos
  have hnum : q * q.den = (q.num.natAbs : ℤ) := by
    rw [Int.natAbs_of_nonneg (Rat.num_nonneg.2 hq), Rat.mul_den_eq_num]
  have hscale (n : ℕ) :
      |(n : ℚ) - q| * q.den = ((((n * q.den : ℕ) : ℤ) - q.num.natAbs).natAbs : ℚ) := by
    rw [Nat.cast_natAbs, Int.cast_abs, Int.cast_sub, ← hnum, ← abs_of_pos hpos, ← abs_mul,
      abs_of_pos hpos, sub_mul, Int.cast_natCast, Nat.cast_mul]
  refine le_of_mul_le_mul_right ?_ hpos
  rw [hscale, hscale, Nat.cast_le]
  exact roundDiv_nearest q.den_pos _ k

end Quotients

section Places

variable {m : ℕ} {e : ℤ} {q s : ℚ}

theorem two_zpow_pos (e : ℤ) : (0 : ℚ) < 2 ^ e := zpow_pos two_pos e

/-- The greatest power of two in a number is that in its significand, shifted. -/
theorem log_mul_zpow (hm : 0 < m) (e : ℤ) : Int.log 2 (m * 2 ^ e : ℚ) = m.log2 + e := by
  have hpos : (0 : ℚ) < m * 2 ^ e := mul_pos (Nat.cast_pos.2 hm) (two_zpow_pos e)
  have hlow : (2 : ℚ) ^ m.log2 ≤ m := by exact_mod_cast Nat.log2_self_le hm.ne'
  have hhigh : (m : ℚ) < 2 ^ (m.log2 + 1) := by exact_mod_cast Nat.lt_log2_self (n := m)
  refine le_antisymm (Int.lt_add_one_iff.1 ?_) ?_
  · rw [← Int.lt_zpow_iff_log_lt Nat.one_lt_two hpos, Nat.cast_two, add_right_comm,
      zpow_add₀ two_ne_zero]
    exact mul_lt_mul_of_pos_right (by exact_mod_cast hhigh) (two_zpow_pos e)
  · rw [← Int.zpow_le_iff_le_log Nat.one_lt_two hpos, Nat.cast_two, zpow_add₀ two_ne_zero]
    exact mul_le_mul_of_nonneg_right (by exact_mod_cast hlow) (two_zpow_pos e).le

theorem lastPlace_mul_zpow (hm : 0 < m) (e : ℤ) :
    lastPlace (m * 2 ^ e) = max (m.log2 + e - 52) (-1074) := by
  rw [lastPlace, log_mul_zpow hm]

/-- The bits that a significand has too many are rounded. -/
theorem roundedSize_mul_zpow {d : ℕ} (h : lastPlace (m * 2 ^ e) = e + d) :
    roundedSize (m * 2 ^ e) = roundDiv m (2 ^ d) * 2 ^ (e + d) := by
  have hquotient : (m * 2 ^ e / 2 ^ (e + d) : ℚ) = (m : ℕ) / (2 ^ d : ℕ) := by
    rw [zpow_add₀ two_ne_zero, zpow_natCast, ← div_div, Nat.cast_pow, Nat.cast_two,
      mul_div_cancel_right₀ _ (two_zpow_pos e).ne']
  rw [roundedSize, h, hquotient, roundNat_div _ (Nat.two_pow_pos d)]

theorem roundedSize_zero : roundedSize 0 = 0 := by
  have hzero : roundNat 0 = 0 := by exact_mod_cast roundNat_natCast 0
  rw [roundedSize, zero_div, hzero, Nat.cast_zero, zero_mul]

theorem rounded_of_nonneg (hq : 0 ≤ q) : rounded q = roundedSize q := if_neg hq.not_gt

theorem rounded_zero : rounded 0 = 0 := by rw [rounded_of_nonneg le_rfl, roundedSize_zero]

theorem rounded_neg (q : ℚ) : rounded (-q) = -rounded q := by
  rcases lt_trichotomy q 0 with h | rfl | h
  · rw [rounded_of_nonneg (neg_nonneg.2 h.le), rounded, if_pos h, neg_neg]
  · rw [neg_zero, rounded_zero, neg_zero]
  · rw [rounded_of_nonneg h.le, rounded, if_pos (neg_lt_zero.2 h), neg_neg]

/-- What is said of numbers that are not negative, and of a number with its negative, holds of
all. -/
theorem nonneg_cases {P : ℚ → Prop} (hneg : ∀ q, P q → P (-q)) (hnonneg : ∀ q, 0 ≤ q → P q)
    (q : ℚ) : P q := by
  rcases le_total 0 q with h | h
  · exact hnonneg q h
  · have hopposite := hneg (-q) (hnonneg (-q) (neg_nonneg.2 h))
    rwa [neg_neg] at hopposite

/-- A number that a double can write is a whole multiple of the last place of another one, or it is
smaller than all numbers whose last place that is. -/
theorem FitsPlaces.multiple_or_below (hs : FitsPlaces s) (h : 0 ≤ s) (hq : 0 < q) :
    (∃ k : ℕ, s = k * 2 ^ lastPlace q) ∨ s ≤ (2 ^ 52 : ℕ) * 2 ^ lastPlace q ∧
      (2 ^ 52 : ℕ) * 2 ^ lastPlace q ≤ q := by
  obtain ⟨m, e, hm, he, habs⟩ := hs
  rw [abs_of_nonneg h] at habs
  rcases le_or_gt (lastPlace q) e with hle | hlt
  · obtain ⟨k, hk⟩ := Int.le.dest hle
    refine Or.inl ⟨m * 2 ^ k, ?_⟩
    rw [habs, ← hk, add_comm, zpow_add₀ two_ne_zero, zpow_natCast, Nat.cast_mul, Nat.cast_pow,
      Nat.cast_two, mul_assoc]
  · have hplace : lastPlace q = Int.log 2 q - 52 := by
      rw [lastPlace] at hlt ⊢
      omega
    have hpower : ((2 ^ 52 : ℕ) : ℚ) * 2 ^ lastPlace q = 2 ^ Int.log 2 q := by
      rw [Nat.cast_pow, Nat.cast_two, ← zpow_natCast, ← zpow_add₀ two_ne_zero, hplace]
      congr 1
      omega
    have hbits : ((2 ^ 53 : ℕ) : ℚ) * 2 ^ e = 2 ^ (53 + e) := by
      rw [Nat.cast_pow, Nat.cast_two, ← zpow_natCast, ← zpow_add₀ two_ne_zero]
      rfl
    refine Or.inr ⟨?_, ?_⟩
    · rw [hpower, habs]
      calc (m * 2 ^ e : ℚ) ≤ (2 ^ 53 : ℕ) * 2 ^ e :=
            mul_le_mul_of_nonneg_right (Nat.cast_le.2 hm.le) (two_zpow_pos e).le
        _ = 2 ^ (53 + e) := hbits
        _ ≤ 2 ^ Int.log 2 q := zpow_le_zpow_right₀ one_le_two (by omega)
    · rw [hpower]
      exact_mod_cast Int.zpow_log_le_self (R := ℚ) Nat.one_lt_two hq

theorem roundedSize_nearest_multiple (hq : 0 ≤ q) (k : ℕ) :
    |roundedSize q - q| ≤ |k * 2 ^ lastPlace q - q| := by
  have hpos := two_zpow_pos (lastPlace q)
  have hscale (n : ℕ) : |(n : ℚ) * 2 ^ lastPlace q - q| =
      |(n : ℚ) - q / 2 ^ lastPlace q| * 2 ^ lastPlace q := by
    rw [← abs_of_pos hpos, ← abs_mul, abs_of_pos hpos, sub_mul, div_mul_cancel₀ _ hpos.ne']
  rw [roundedSize, hscale, hscale]
  exact mul_le_mul_of_nonneg_right (roundNat_nearest (div_nonneg hq hpos.le) k) hpos.le

/-- No number that a double can write is nearer. -/
theorem rounded_nearest (hs : FitsPlaces s) (q : ℚ) : |rounded q - q| ≤ |s - q| := by
  induction q using nonneg_cases generalizing s with
  | hneg q ih =>
    have hopposite : FitsPlaces (-s) := by rwa [FitsPlaces, abs_neg]
    have hresult : rounded (-q) - -q = -(rounded q - q) := by rw [rounded_neg, neg_sub_neg, neg_sub]
    have hother : s - -q = -(-s - q) := by ring
    rw [hresult, hother, abs_neg, abs_neg]
    exact ih hopposite
  | hnonneg q hq =>
    rw [rounded_of_nonneg hq]
    rcases hq.eq_or_lt with rfl | hpos
    · rw [roundedSize_zero, sub_zero, abs_zero]
      exact abs_nonneg _
    · have hnearest := roundedSize_nearest_multiple hq
      rcases lt_or_ge s 0 with hneg | hnonneg
      · -- zero lies between the two
        refine (hnearest 0).trans ?_
        rw [Nat.cast_zero, zero_mul, zero_sub, abs_neg, abs_of_pos hpos,
          abs_of_nonpos (by linarith)]
        linarith
      · obtain ⟨k, rfl⟩ | ⟨hbelow, hle⟩ := hs.multiple_or_below hnonneg hpos
        · exact hnearest k
        · refine (hnearest (2 ^ 52)).trans ?_
          rw [abs_of_nonpos (sub_nonpos.2 hle), abs_of_nonpos (by linarith)]
          linarith

/-- A number that a double can write is kept. -/
theorem rounded_of_fits (hq : FitsPlaces q) : rounded q = q := by
  have hnear := rounded_nearest hq q
  rw [sub_self, abs_zero] at hnear
  exact sub_eq_zero.1 (abs_nonpos_iff.1 hnear)

theorem rounded_le (hs : FitsPlaces s) (h : q ≤ s) : rounded q ≤ s := by
  by_contra hlt
  have hnear := rounded_nearest hs q
  rw [abs_of_nonneg (by linarith), abs_of_nonneg (by linarith)] at hnear
  linarith

theorem le_rounded (hs : FitsPlaces s) (h : s ≤ q) : s ≤ rounded q := by
  by_contra hlt
  have hnear := rounded_nearest hs q
  rw [abs_of_nonpos (by linarith), abs_of_nonpos (by linarith)] at hnear
  linarith

theorem roundNat_le {n : ℕ} (hq : 0 ≤ q) (h : q ≤ n) : roundNat q ≤ n := by
  have hnum : ((q.num.natAbs : ℕ) : ℚ) ≤ (n * q.den : ℕ) := by
    have hden : ((q.num.natAbs : ℤ) : ℚ) = q * q.den := by
      rw [Int.natAbs_of_nonneg (Rat.num_nonneg.2 hq), Rat.mul_den_eq_num]
    rw [← Int.cast_natCast, hden, Nat.cast_mul]
    exact mul_le_mul_of_nonneg_right h q.den.cast_nonneg
  exact roundDiv_le q.den_pos (Nat.cast_le.1 hnum)

/-- The size of a number is less than 53 bits can write in its places. -/
theorem div_lastPlace_lt (q : ℚ) : q / 2 ^ lastPlace q < (2 ^ 53 : ℕ) := by
  rw [div_lt_iff₀ (two_zpow_pos _), Nat.cast_pow, Nat.cast_two, ← zpow_natCast,
    ← zpow_add₀ two_ne_zero]
  have hlog := Int.lt_zpow_succ_log_self (R := ℚ) Nat.one_lt_two q
  rw [Nat.cast_two] at hlog
  refine hlog.trans_le (zpow_le_zpow_right₀ one_le_two ?_)
  rw [lastPlace]
  omega

theorem fitsPlaces_of_le {k : ℕ} {e : ℤ} (hk : k ≤ 2 ^ 53) (he : -1074 ≤ e)
    (hq : |q| = k * 2 ^ e) : FitsPlaces q := by
  rcases hk.lt_or_eq with hlt | rfl
  · exact ⟨k, e, hlt, he, hq⟩
  · refine ⟨2 ^ 52, e + 1, by decide, by omega, ?_⟩
    rw [hq, zpow_add_one₀ two_ne_zero]
    push_cast
    ring

theorem fitsPlaces_natCast {n : ℕ} (hn : n < 2 ^ 53) : FitsPlaces n :=
  ⟨n, 0, hn, by decide, by rw [zpow_zero, mul_one, Nat.abs_cast]⟩

theorem fitsPlaces_zero : FitsPlaces 0 := by exact_mod_cast fitsPlaces_natCast (n := 0) (by decide)

theorem fitsPlaces_two_pow (k : ℕ) : FitsPlaces (2 ^ k) := by
  refine ⟨1, k, by decide, by omega, ?_⟩
  rw [Nat.cast_one, one_mul, zpow_natCast, abs_of_pos (pow_pos two_pos k)]

/-- Rounding does not lead past what a double can write. -/
theorem abs_rounded_le (hs : FitsPlaces s) (h : |q| ≤ s) : |rounded q| ≤ s := by
  have hopposite : FitsPlaces (-s) := by rwa [FitsPlaces, abs_neg]
  obtain ⟨hlow, hhigh⟩ := abs_le.1 h
  exact abs_le.2 ⟨le_rounded hopposite hlow, rounded_le hs hhigh⟩

/-- A whole number keeps its first 53 bits, rounded. -/
theorem rounded_natCast (n : ℕ) : rounded n = nearestFit n := by
  rcases lt_or_ge n (2 ^ 53) with hlt | hge
  · rw [rounded_of_fits (fitsPlaces_natCast hlt), nearestFit_eq_self_iff.2 (fitsDouble_of_lt hlt)]
  · have hpos : 0 < n := lt_of_lt_of_le (by decide) hge
    have hlog : 53 ≤ n.log2 := (Nat.le_log2 hpos.ne').2 hge
    have hplace : lastPlace (n * 2 ^ (0 : ℤ)) = 0 + (n.log2 - 52 : ℕ) := by
      rw [lastPlace_mul_zpow hpos]
      omega
    have hsize := roundedSize_mul_zpow hplace
    rw [zpow_zero, mul_one, zero_add, zpow_natCast] at hsize
    rw [rounded_of_nonneg n.cast_nonneg, hsize, nearestFit, lastUnit]
    push_cast
    rfl

/-- What is rounded is written in the places that doubles have. -/
theorem fits_rounded (q : ℚ) : FitsPlaces (rounded q) := by
  induction q using nonneg_cases with
  | hneg q ih => rwa [rounded_neg, FitsPlaces, abs_neg]
  | hnonneg q hq =>
    rw [rounded_of_nonneg hq]
    rcases hq.eq_or_lt with rfl | hpos
    · rw [roundedSize_zero]
      exact fitsPlaces_zero
    · have hdiv := div_nonneg hq (two_zpow_pos (lastPlace q)).le
      refine fitsPlaces_of_le (roundNat_le hdiv (div_lastPlace_lt q).le) (le_max_right _ _)
        (abs_of_nonneg ?_)
      exact mul_nonneg (Nat.cast_nonneg _) (two_zpow_pos _).le

end Places

/-- What becomes of exact results. Some numbers are kept, and none of these is passed. -/
structure Arithmetic where
  round : ℚ → ℚ
  Keeps : ℚ → Prop
  keeps_zero : Keeps 0
  keeps_round (q : ℚ) : Keeps (round q)
  round_le {q s : ℚ} (hs : Keeps s) (h : q ≤ s) : round q ≤ s
  le_round {q s : ℚ} (hs : Keeps s) (h : s ≤ q) : s ≤ round q

namespace Arithmetic

/-- Exact results stay as they are. -/
def exact : Arithmetic where
  round := id
  Keeps _ := True
  keeps_zero := trivial
  keeps_round _ := trivial
  round_le _ h := h
  le_round _ h := h

/-- Each result is rounded to a double. -/
def double : Arithmetic where
  round := rounded
  Keeps := FitsPlaces
  keeps_zero := fitsPlaces_zero
  keeps_round := fits_rounded
  round_le := rounded_le
  le_round := le_rounded

variable {A : Arithmetic} {q : ℚ}

theorem round_nonneg (hq : 0 ≤ q) : 0 ≤ A.round q := A.le_round A.keeps_zero hq

end Arithmetic

end Lindenmayer.Number
