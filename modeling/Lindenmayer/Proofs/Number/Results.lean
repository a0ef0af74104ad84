import Lindenmayer.Proofs.Number.Rounded
import Lindenmayer.Proofs.Number.Whole
import Lindenmayer.Value

/-!
# The results of operations on doubles

A sum, a difference or a product of finite doubles, if it is finite, stands for the exact result
rounded to a double. The exact result of each operation is a whole number of units; its bits behind
the last place are shifted out one by one, and what they were decides whether the others are raised.
-/
namespace Lindenmayer.Number

namespace Binary64

open Float.Model UnpackedFloat

/-- An unpacked double writes the number in the places that doubles have. Its exponent may be too
great for a finite double. -/
inductive Writes : UnpackedFloat → ℚ → Prop
  | zero (s : Sign) : Writes (.zero s) 0
  | finite (s : Sign) {m : ℕ} {e : ℤ} (hm : 0 < m) (h : IsDouble m e) :
      Writes (.finite s m e hm) ((s.apply m : ℤ) * 2 ^ e)

section Signs

variable (s s' : Sign)

theorem apply_mul (i j : ℤ) : (s * s').apply (i * j) = s.apply i * s'.apply j := by
  cases s <;> cases s'
  · exact (neg_mul_neg i j).symm
  · exact (neg_mul i j).symm
  · exact (mul_neg i j).symm
  · rfl

theorem apply_neg (i : ℤ) : (-s).apply i = -s.apply i := by
  cases s with
  | negative => exact (neg_neg i).symm
  | positive => rfl

theorem cast_apply (m : ℕ) : ((s.apply m : ℤ) : ℚ) = (s.apply 1 : ℤ) * m := by
  cases s with
  | negative =>
    change ((-(m : ℤ) : ℤ) : ℚ) = ((-1 : ℤ) : ℚ) * m
    push_cast
    ring
  | positive =>
    change ((m : ℤ) : ℚ) = ((1 : ℤ) : ℚ) * m
    push_cast
    ring

theorem abs_apply (m : ℕ) (e : ℤ) : |((s.apply m : ℤ) : ℚ) * 2 ^ e| = m * 2 ^ e := by
  have hnonneg : (0 : ℚ) ≤ m * 2 ^ e := mul_nonneg m.cast_nonneg (two_zpow_pos e).le
  cases s with
  | negative =>
    change |((-(m : ℤ) : ℤ) : ℚ) * 2 ^ e| = _
    rw [Int.cast_neg, Int.cast_natCast, neg_mul, abs_neg, abs_of_nonneg hnonneg]
  | positive =>
    change |((m : ℤ) : ℚ) * 2 ^ e| = _
    rw [Int.cast_natCast, abs_of_nonneg hnonneg]

theorem rounded_apply_mul (q : ℚ) :
    rounded ((s.apply 1 : ℤ) * q) = (s.apply 1 : ℤ) * rounded q := by
  cases s with
  | negative =>
    change rounded (((-1 : ℤ) : ℚ) * q) = ((-1 : ℤ) : ℚ) * rounded q
    rw [Int.cast_neg, Int.cast_one, neg_one_mul, neg_one_mul, rounded_neg]
  | positive =>
    change rounded (((1 : ℤ) : ℚ) * q) = ((1 : ℤ) : ℚ) * rounded q
    rw [Int.cast_one, one_mul, one_mul]

end Signs

section Shifting

variable {m : ℕ} {e : ℤ}

/-- The bits that are left, the first one that is gone, and whether another one was set. -/
theorem shiftRight_succ_eq (m k : ℕ) :
    ExtendedMantissa.ofMantissaAndAccuracy m .exact >>> (k + 1) =
      ⟨m / 2 ^ (k + 1), m / 2 ^ k % 2 != 0, m % 2 ^ k != 0⟩ := by
  induction k with
  | zero =>
    change ExtendedMantissa.mk (m / 2) (m % 2 != 0) false = _
    rw [zero_add, pow_one, pow_zero, Nat.div_one, Nat.mod_one]
    rfl
  | succ k ih =>
    have hrest : m % 2 ^ (k + 1) = m % 2 ^ k + 2 ^ k * (m / 2 ^ k % 2) := Nat.mod_pow_succ
    have hsticky : ((m / 2 ^ k % 2 != 0) || (m % 2 ^ k != 0)) = (m % 2 ^ (k + 1) != 0) := by
      rw [Bool.eq_iff_iff, Bool.or_eq_true, bne_iff_ne, bne_iff_ne, bne_iff_ne, hrest]
      have hpos : 2 ^ k ≠ 0 := (Nat.two_pow_pos k).ne'
      simp only [ne_eq, Nat.add_eq_zero_iff, mul_eq_zero, hpos, false_or]
      tauto
    rw [shiftRight_succ, ih, ← hsticky, Nat.pow_succ 2 (k + 1), ← Nat.div_div_eq_div_mul]
    rfl

/-- To shift bits out and to round by them is to round the quotient. -/
theorem roundedMantissa_shiftRight (m d : ℕ) :
    (ExtendedMantissa.ofMantissaAndAccuracy m .exact >>> d).roundedMantissa =
      roundDiv m (2 ^ d) := by
  cases d with
  | zero =>
    have hone := roundDiv_mul Nat.one_pos m
    rw [Nat.mul_one] at hone
    exact hone.symm
  | succ k =>
    have hrest : m % 2 ^ (k + 1) = m % 2 ^ k + 2 ^ k * (m / 2 ^ k % 2) := Nat.mod_pow_succ
    have hpow : 2 ^ (k + 1) = 2 * 2 ^ k := Nat.pow_succ'
    have hlt : m % 2 ^ k < 2 ^ k := Nat.mod_lt m (Nat.two_pow_pos k)
    rw [shiftRight_succ_eq, roundDiv]
    rcases Nat.mod_two_eq_zero_or_one (m / 2 ^ k) with hbit | hbit
    · rw [hbit, Nat.mul_zero, Nat.add_zero] at hrest
      rw [if_pos (by omega), hbit]
      exact roundedMantissa_eq _ rfl
    · rw [hbit, Nat.mul_one] at hrest
      rw [hbit, if_neg (by omega)]
      by_cases hsticky : m % 2 ^ k = 0
      · rw [hsticky, if_neg (by omega)]
        rfl
      · rw [if_pos (by omega), bne_iff_ne.2 hsticky]
        rfl

/-- What is rounded has its last place where doubles of its size have theirs. -/
theorem lastPlace_eq_targetExponent (hm : 0 < m) (e : ℤ) :
    lastPlace (m * 2 ^ e) = Format.binary64.targetExponent (totalExponent m e) := by
  rw [lastPlace_mul_zpow hm, targetExponent_eq, totalExponent]
  congr 1
  omega

theorem surplus_eq {d : ℕ} (hm : 0 < m) (hd : lastPlace (m * 2 ^ e) = e + d) :
    surplus m e = d := by
  rw [surplus, ← lastPlace_eq_targetExponent hm, hd]
  omega

theorem writes_of_isDouble (s : Sign) (h : m ≠ 0 → IsDouble m e) :
    Writes (if h : m = 0 then .zero s else .finite s m e (Nat.pos_of_ne_zero h))
      ((s.apply 1 : ℤ) * (m * 2 ^ e)) := by
  by_cases hzero : m = 0
  · rw [dif_pos hzero, hzero, Nat.cast_zero, zero_mul, mul_zero]
    exact .zero s
  · rw [dif_neg hzero, ← mul_assoc, ← cast_apply]
    exact .finite s _ (h hzero)

/-- A significand that rounding has brought to the next power of two is shifted once more. -/
theorem writes_shifted (s : Sign) (hm : m ≤ 2 ^ 53) (hfull : 2 ^ 52 ≤ m ∨ e = -1074)
    (he : -1074 ≤ e) :
    Writes (if h : (ExtendedMantissa.ofMantissaAndAccuracy m .exact >>> surplus m e).mantissa = 0
      then .zero s
      else .finite s _ (e + surplus m e) (Nat.pos_of_ne_zero h))
      ((s.apply 1 : ℤ) * (m * 2 ^ e)) := by
  have hmantissa : (ExtendedMantissa.ofMantissaAndAccuracy m .exact >>> surplus m e).mantissa =
      m / 2 ^ surplus m e := mantissa_shiftRight _ _
  have hsurplus : surplus m e = (max ((m.log2 : ℤ) + 1 + e - 53) (-1074) - e).toNat := rfl
  rw [hmantissa]
  rcases hm.lt_or_eq with hlt | rfl
  · have hlog : m.log2 < 53 := log2_lt hlt (by decide)
    have hnone : surplus m e = 0 := by omega
    rw [hnone, pow_zero, Nat.div_one, Nat.cast_zero, add_zero]
    exact writes_of_isDouble s fun _ => ⟨hlt, he, hfull⟩
  · have hlog : (2 ^ 53).log2 = 53 := Nat.log2_two_pow
    have hone : surplus (2 ^ 53) e = 1 := by omega
    have hvalue : ((2 ^ 53 : ℕ) * 2 ^ e : ℚ) = (2 ^ 52 : ℕ) * 2 ^ (e + 1) := by
      rw [zpow_add_one₀ two_ne_zero]
      push_cast
      ring
    rw [hone, hvalue]
    exact writes_of_isDouble s fun _ => ⟨by decide, by omega, Or.inl (by decide)⟩

/-- Rounding leaves a significand of 53 bits, or the least exponent; if it has filled all bits the
next power of two is written. -/
theorem writes_roundWithAccuracy (s : Sign) {d : ℕ} (hm : 0 < m)
    (hd : lastPlace (m * 2 ^ e) = e + d) :
    Writes (roundWithAccuracy Format.binary64 s m e .exact)
      (rounded ((s.apply m : ℤ) * 2 ^ e)) := by
  have hfirst : firstRounded m e .exact = roundDiv m (2 ^ d) := by
    rw [firstRounded, surplus_eq hm hd, roundedMantissa_shiftRight]
  have hle : roundDiv m (2 ^ d) ≤ 2 ^ 53 := hfirst ▸ firstRounded_le
  have hplace := (lastPlace_mul_zpow hm e).symm.trans hd
  have hfull : 2 ^ 52 ≤ roundDiv m (2 ^ d) ∨ e + d = -1074 := by
    by_cases hleast : e + d = -1074
    · exact Or.inr hleast
    · refine Or.inl (le_roundDiv (Nat.two_pow_pos d) ?_)
      rw [← Nat.pow_add]
      exact (Nat.pow_le_pow_right Nat.two_pos (by omega)).trans (Nat.log2_self_le hm.ne')
  have hround : roundWithAccuracy Format.binary64 s m e .exact =
      if h : (ExtendedMantissa.ofMantissaAndAccuracy (roundDiv m (2 ^ d)) .exact >>>
        surplus (roundDiv m (2 ^ d)) (e + d)).mantissa = 0
      then .zero s
      else .finite s _ (e + d + surplus (roundDiv m (2 ^ d)) (e + d)) (Nat.pos_of_ne_zero h) := by
    rw [← hfirst, ← surplus_eq hm hd]
    rfl
  rw [hround, cast_apply, mul_assoc, rounded_apply_mul,
    rounded_of_nonneg (mul_nonneg m.cast_nonneg (two_zpow_pos e).le), roundedSize_mul_zpow hd]
  refine writes_shifted s hle hfull ?_
  rw [← surplus_eq hm hd]
  exact le_add_surplus m e

end Shifting

section Operations

variable {u v : UnpackedFloat} {p q : ℚ}

theorem Writes.fits (h : Writes u q) : FitsPlaces q := by
  cases h with
  | zero s => exact fitsPlaces_zero
  | finite s hm h => exact ⟨_, _, h.short, h.least, abs_apply s _ _⟩

theorem Writes.rounded (h : Writes u q) : Writes u (rounded q) := by
  rwa [rounded_of_fits h.fits]

/-- A number in too few places is first brought to the places that its size has. -/
theorem writes_round (s : Sign) {m : ℕ} (hm : 0 < m) (e : ℤ) :
    Writes (UnpackedFloat.round Format.binary64 s m e)
      (Number.rounded ((s.apply m : ℤ) * 2 ^ e)) := by
  generalize hj : (e - Format.binary64.targetExponent (totalExponent m e)).toNat = j
  have hround : UnpackedFloat.round Format.binary64 s m e =
      roundWithAccuracy Format.binary64 s (m <<< j) (e - j) .exact := by
    rw [← hj]
    rfl
  have hshift : m <<< j = m * 2 ^ j := Nat.shiftLeft_eq m j
  have hpos : 0 < m * 2 ^ j := Nat.mul_pos hm (Nat.two_pow_pos j)
  have hvalue : (((m * 2 ^ j : ℕ) : ℚ) * 2 ^ (e - j) : ℚ) = m * 2 ^ e := by
    rw [Nat.cast_mul, Nat.cast_pow, Nat.cast_two, mul_assoc, ← zpow_natCast,
      ← zpow_add₀ two_ne_zero, add_sub_cancel]
  have hsigned : ((s.apply m : ℤ) * 2 ^ e : ℚ) = (s.apply (m * 2 ^ j : ℕ) : ℤ) * 2 ^ (e - j) := by
    rw [cast_apply, cast_apply, mul_assoc, mul_assoc, hvalue]
  have hplace : lastPlace (((m * 2 ^ j : ℕ) : ℚ) * 2 ^ (e - j)) =
      e - j + (lastPlace (m * 2 ^ e) - (e - j)).toNat := by
    rw [hvalue, lastPlace_eq_targetExponent hm]
    omega
  rw [hround, hshift, hsigned]
  exact writes_roundWithAccuracy s hpos hplace

theorem writes_normalize (i e : ℤ) (s : Sign) :
    Writes (UnpackedFloat.normalize Format.binary64 i e s) (Number.rounded (i * 2 ^ e)) := by
  rw [UnpackedFloat.normalize]
  split
  · next h =>
    have hneg : i < 0 := Int.compare_eq_lt.1 h
    have hi : i = -((-i).toNat : ℤ) := by omega
    have hround := writes_round .negative (m := (-i).toNat) (by omega) e
    change Writes _ (Number.rounded ((-((-i).toNat : ℤ) : ℤ) * 2 ^ e)) at hround
    rwa [← hi] at hround
  · next h =>
    rw [Int.compare_eq_eq.1 h, Int.cast_zero, zero_mul, rounded_zero]
    exact .zero s
  · next h =>
    have hpos : 0 < i := Int.compare_eq_gt.1 h
    have hi : i = (i.toNat : ℤ) := by omega
    have hround := writes_round .positive (m := i.toNat) (by omega) e
    change Writes _ (Number.rounded (((i.toNat : ℤ) : ℤ) * 2 ^ e)) at hround
    rwa [← hi] at hround

/-- A number brought to a smaller exponent. -/
theorem apply_shiftLeft (s : Sign) (m : ℕ) {e t : ℤ} (h : t ≤ e) :
    ((s.apply (m <<< (e - t).toNat : ℕ) : ℤ) * 2 ^ t : ℚ) = (s.apply m : ℤ) * 2 ^ e := by
  have he : e = (e - t).toNat + t := by omega
  rw [cast_apply, cast_apply, Nat.shiftLeft_eq, Nat.cast_mul, Nat.cast_pow, Nat.cast_two]
  conv_rhs => rw [he, zpow_add₀ two_ne_zero, zpow_natCast]
  ring

theorem writes_add (hu : Writes u p) (hv : Writes v q) :
    Writes (UnpackedFloat.add Format.binary64 u v) (Number.rounded (p + q)) := by
  cases hu with
  | zero s =>
    rw [zero_add]
    cases hv with
    | zero s' =>
      rw [rounded_zero]
      cases s <;> cases s' <;> exact .zero _
    | finite s' hm' h' => exact (Writes.finite s' hm' h').rounded
  | @finite s m e hm h =>
    cases hv with
    | zero s' =>
      rw [add_zero]
      exact (Writes.finite s hm h).rounded
    | @finite s' m' e' hm' h' =>
      rw [← apply_shiftLeft s m (min_le_left e e'), ← apply_shiftLeft s' m' (min_le_right e e'),
        ← add_mul, ← Int.cast_add]
      exact writes_normalize _ _ _

theorem writes_neg (h : Writes v q) : Writes v.neg (-q) := by
  cases h with
  | zero s =>
    rw [neg_zero]
    exact .zero _
  | finite s hm h =>
    rw [← neg_mul, ← Int.cast_neg, ← apply_neg]
    exact .finite _ hm h

/-- To take a number off is to add its negative. -/
theorem unpacked_sub_eq (u v : UnpackedFloat) :
    UnpackedFloat.sub Format.binary64 u v = UnpackedFloat.add Format.binary64 u v.neg := by
  cases u with
  | finite s m e hm =>
    cases v with
    | finite s' m' e' hm' =>
      change UnpackedFloat.normalize Format.binary64 (_ - s'.apply _) _ _ =
        UnpackedFloat.normalize Format.binary64 (_ + (-s').apply _) _ _
      rw [apply_neg, ← sub_eq_add_neg]
    | _ => rfl
  | _ => cases v <;> rfl

theorem writes_sub (hu : Writes u p) (hv : Writes v q) :
    Writes (UnpackedFloat.sub Format.binary64 u v) (Number.rounded (p - q)) := by
  rw [unpacked_sub_eq, sub_eq_add_neg]
  exact writes_add hu (writes_neg hv)

/-- The product of two doubles has 53 bits or more, unless both have the least exponent. -/
theorem add_exponent_le_lastPlace {m m' : ℕ} {e e' : ℤ} (hm : 0 < m) (hm' : 0 < m')
    (h : IsDouble m e) (h' : IsDouble m' e') :
    e + e' ≤ lastPlace ((m * m' : ℕ) * 2 ^ (e + e')) := by
  rw [lastPlace_mul_zpow (Nat.mul_pos hm hm')]
  have hlong (k l : ℕ) (hk : 2 ^ 52 ≤ k) (hl : 0 < l) : 52 ≤ (k * l).log2 := by
    refine (Nat.le_log2 (Nat.mul_pos (by omega) hl).ne').2 ?_
    exact hk.trans (Nat.le_mul_of_pos_right k hl)
  rcases h.full with hfull | rfl
  · have hlog := hlong m m' hfull hm'
    omega
  · rcases h'.full with hfull | rfl
    · have hlog := hlong m' m hfull hm
      rw [Nat.mul_comm] at hlog
      omega
    · omega

theorem writes_mul (hu : Writes u p) (hv : Writes v q) :
    Writes (UnpackedFloat.mul Format.binary64 u v) (Number.rounded (p * q)) := by
  cases hu with
  | zero s =>
    rw [zero_mul, rounded_zero]
    cases hv <;> exact .zero _
  | @finite s m e hm h =>
    cases hv with
    | zero s' =>
      rw [mul_zero, rounded_zero]
      exact .zero _
    | @finite s' m' e' hm' h' =>
      have hvalue : ((s.apply m : ℤ) * 2 ^ e * ((s'.apply m' : ℤ) * 2 ^ e') : ℚ) =
          ((s * s').apply (m * m' : ℕ) : ℤ) * 2 ^ (e + e') := by
        rw [Nat.cast_mul, apply_mul, Int.cast_mul, zpow_add₀ two_ne_zero]
        ring
      have hplace : lastPlace (((m * m' : ℕ) : ℚ) * 2 ^ (e + e')) =
          e + e' + (lastPlace ((m * m' : ℕ) * 2 ^ (e + e')) - (e + e')).toNat := by
        have hle := add_exponent_le_lastPlace hm hm' h h'
        omega
      rw [hvalue]
      exact writes_roundWithAccuracy (s * s') (Nat.mul_pos hm hm') hplace

theorem writes_abs (h : Writes u q) : Writes u.abs |q| := by
  cases h with
  | zero s =>
    rw [abs_zero]
    exact .zero _
  | @finite s m e hm h =>
    rw [abs_apply, ← Int.cast_natCast m]
    exact .finite .positive hm h

end Operations

section Packing

theorem unpackSign_packComponents (s : Sign) (field : BitVec 11) (fraction : BitVec 52) :
    @unpackSign Format.binary64 (packComponents Format.binary64 s field fraction) =
      s.toBitVec := by
  change BitVec.extractLsb' 63 1 (s.toBitVec ++ field ++ fraction) = _
  rw [BitVec.extractLsb'_append_eq_of_le (by decide),
    BitVec.extractLsb'_append_eq_of_le (by decide)]
  exact BitVec.extractLsb'_eq_self

theorem ofBitVec_toBitVec (s : Sign) : Sign.ofBitVec s.toBitVec = s := by
  cases s <;> rfl

theorem finite_congr {s s' : Sign} {m m' : ℕ} {e e' : ℤ} (hs : s = s') (hm : m = m') (he : e = e')
    (h : 0 < m) (h' : 0 < m') : UnpackedFloat.finite s m e h = .finite s' m' e' h' := by
  subst hs hm he
  rfl

/-- A number that has no hidden bit has the least exponent. -/
theorem exists_unpack_of_exponent_eq_zero {b : BitVec 64}
    (hzero : @unpackExponent Format.binary64 b = 0#_)
    (hsome : @unpackMantissa Format.binary64 b ≠ 0#_) :
    ∃ hpos, UnpackedFloat.unpack Format.binary64 b =
      .finite (Sign.ofBitVec (@unpackSign Format.binary64 b))
        (@unpackMantissa Format.binary64 b).toNat (-1074) hpos := by
  have hones : @unpackExponent Format.binary64 b ≠ -1#_ := by
    rw [hzero]
    decide
  have hpos : 0 < (@unpackMantissa Format.binary64 b).toNat :=
    Nat.pos_of_ne_zero fun h => hsome (BitVec.eq_of_toNat_eq h)
  have hexponent : ((@unpackExponent Format.binary64 b).toNat : ℤ) -
      (Format.binary64.exponentBias + Format.binary64.mantissaBitsWithoutImplicit) + 1 = -1074 := by
    rw [hzero]
    rfl
  refine ⟨hpos, ?_⟩
  change (if _ then _ else if _ then dite _ _ _ else _) = _
  rw [if_neg hones, if_pos hzero, dif_neg hsome]
  exact finite_congr rfl rfl hexponent _ _

theorem unpack_pack_of_full (s : Sign) {m : ℕ} {e : ℤ} (hm : 0 < m) (hshort : m < 2 ^ 53)
    (hfull : 2 ^ 52 ≤ m) (hlow : -1074 ≤ e) (hhigh : e ≤ 971) :
    UnpackedFloat.unpack Format.binary64 (UnpackedFloat.pack Format.binary64 (.finite s m e hm)) =
      .finite s m e hm := by
  have hfraction : (1#1 ++ BitVec.ofNat 52 m).toNat = m := by
    rw [toNat_significand, BitVec.toNat_ofNat]
    omega
  have hfield : (BitVec.ofNat 11 (e + 1075).toNat).toNat = (e + 1075).toNat := by
    rw [BitVec.toNat_ofNat]
    omega
  have hexponent : ((BitVec.ofNat 11 (e + 1075).toNat).toNat : ℤ) - 1075 = e := by omega
  have hsplit : UnpackedFloat.finite s m e hm = .finite s (1#1 ++ BitVec.ofNat 52 m).toNat
      ((BitVec.ofNat 11 (e + 1075).toNat).toNat - 1075) (hfraction.symm ▸ hm) :=
    finite_congr rfl hfraction.symm hexponent.symm _ _
  have hsame : @unpackExponent Format.binary64 (packComponents Format.binary64 s
      (BitVec.ofNat 11 (e + 1075).toNat) (BitVec.ofNat 52 m)) =
      BitVec.ofNat 11 (e + 1075).toNat := unpackExponent_packComponents
  obtain ⟨_, hunpack⟩ := exists_unpack_of_exponent
    (b := packComponents Format.binary64 s (BitVec.ofNat 11 (e + 1075).toNat) (BitVec.ofNat 52 m))
    (by rw [hsame]; omega) (by rw [hsame]; omega)
  rw [hsplit, pack_of_exponent s _ (by omega) (by omega), hunpack]
  refine finite_congr ?_ ?_ ?_ _ _
  · rw [unpackSign_packComponents, ofBitVec_toBitVec]
  · rw [unpackMantissa_packComponents]
  · rw [hsame]

theorem unpack_pack_of_short (s : Sign) {m : ℕ} (hm : 0 < m) (hshort : m < 2 ^ 52) :
    UnpackedFloat.unpack Format.binary64
      (UnpackedFloat.pack Format.binary64 (.finite s m (-1074) hm)) = .finite s m (-1074) hm := by
  have hlog : m.log2 + 1 ≠ 53 := by
    have hlog : m.log2 < 52 := log2_lt hshort (by decide)
    omega
  have hfraction : (BitVec.ofNat 52 m).toNat = m := by
    rw [BitVec.toNat_ofNat]
    omega
  have hsome : BitVec.ofNat 52 m ≠ 0#_ := by
    intro h
    rw [h] at hfraction
    exact hm.ne hfraction
  have hfield : ((-1074 : ℤ) + Format.binary64.exponentBias +
      Format.binary64.mantissaBitsWithoutImplicit).toNat = 1 := by decide
  have hzero : @unpackExponent Format.binary64
      (packComponents Format.binary64 s 0#11 (BitVec.ofNat 52 m)) = 0#11 :=
    unpackExponent_packComponents
  have hsame : @unpackMantissa Format.binary64
      (packComponents Format.binary64 s 0#11 (BitVec.ofNat 52 m)) = BitVec.ofNat 52 m :=
    unpackMantissa_packComponents
  obtain ⟨_, hunpack⟩ := exists_unpack_of_exponent_eq_zero hzero (by rwa [hsame])
  rw [pack_finite s m (-1074) hm 1 hfield, if_neg (by decide), if_neg hlog, hunpack]
  refine finite_congr ?_ ?_ rfl _ _
  · rw [unpackSign_packComponents, ofBitVec_toBitVec]
  · rw [hsame, hfraction]

/-- A finite double is what its bits are unpacked to. -/
theorem unpack_pack (s : Sign) {m : ℕ} {e : ℤ} (hm : 0 < m) (h : IsDouble m e) (he : e ≤ 971) :
    UnpackedFloat.unpack Format.binary64 (UnpackedFloat.pack Format.binary64 (.finite s m e hm)) =
      .finite s m e hm := by
  rcases lt_or_ge m (2 ^ 52) with hlt | hfull
  · obtain rfl := h.full.resolve_left hlt.not_ge
    exact unpack_pack_of_short s hm hlt
  · exact unpack_pack_of_full s hm h.short hfull h.least he

/-- A number that is too large for a finite double becomes infinite. -/
theorem unpack_pack_of_large (s : Sign) {m : ℕ} {e : ℤ} (hm : 0 < m) (he : 971 < e) :
    UnpackedFloat.unpack Format.binary64 (UnpackedFloat.pack Format.binary64 (.finite s m e hm)) =
      .infinity s := by
  have hfield : (e + Format.binary64.exponentBias +
      Format.binary64.mantissaBitsWithoutImplicit).toNat = (e + 1075).toNat := by
    change (e + 1023 + 52).toNat = _
    omega
  rw [pack_finite s m e hm _ hfield, if_pos (by omega)]
  cases s <;> rfl

/-- What is written becomes a finite double, unless it passes all of them and becomes infinite. -/
theorem Writes.unpack_pack {u : UnpackedFloat} {q : ℚ} (h : Writes u q) :
    Writes (UnpackedFloat.unpack Format.binary64 (UnpackedFloat.pack Format.binary64 u)) q ∨
      UnpackedFloat.unpack Format.binary64 (UnpackedFloat.pack Format.binary64 u) =
        .infinity .positive ∧ 2 ^ 1024 ≤ q ∨
      UnpackedFloat.unpack Format.binary64 (UnpackedFloat.pack Format.binary64 u) =
        .infinity .negative ∧ q ≤ -2 ^ 1024 := by
  cases h with
  | zero s => exact Or.inl (by cases s <;> exact .zero _)
  | @finite s m e hm h =>
    rcases le_or_gt e 971 with he | he
    · rw [Binary64.unpack_pack s hm h he]
      exact Or.inl (.finite s hm h)
    · have hfull : 2 ^ 52 ≤ m := h.full.resolve_right (by omega)
      have hlarge : (2 : ℚ) ^ 1024 ≤ m * 2 ^ e := by
        calc (2 : ℚ) ^ 1024 = (2 ^ 52 : ℕ) * 2 ^ (972 : ℤ) := by
              rw [Nat.cast_pow, Nat.cast_two, ← zpow_natCast, ← zpow_natCast,
                ← zpow_add₀ two_ne_zero]
              rfl
          _ ≤ m * 2 ^ e := mul_le_mul (Nat.cast_le.2 hfull)
              (zpow_le_zpow_right₀ one_le_two (by omega)) (two_zpow_pos _).le m.cast_nonneg
      rw [unpack_pack_of_large s hm he, cast_apply, mul_assoc]
      cases s with
      | positive =>
        refine Or.inr (Or.inl ⟨rfl, ?_⟩)
        change _ ≤ ((1 : ℤ) : ℚ) * _
        rwa [Int.cast_one, one_mul]
      | negative =>
        refine Or.inr (Or.inr ⟨rfl, ?_⟩)
        change ((-1 : ℤ) : ℚ) * _ ≤ _
        rwa [Int.cast_neg, Int.cast_one, neg_one_mul, neg_le_neg_iff]

end Packing

end Binary64

open Binary64 Float.Model

section Doubles

variable {x y : Float} {p q : ℚ}

theorem standsFor_iff_writes : StandsFor x q ↔ Writes x.toModel.unpack q := by
  constructor
  · intro h
    obtain ⟨s, hu, rfl⟩ | ⟨m, e, hm, hdouble, ⟨_, hu, rfl⟩ | ⟨_, hu, rfl⟩⟩ := h.unpack_cases
    · rw [hu]
      exact .zero s
    · rw [hu, ← Int.cast_natCast]
      exact .finite .positive hm hdouble
    · rw [hu, ← neg_mul, ← Int.cast_natCast, ← Int.cast_neg]
      exact .finite .negative hm hdouble
  · intro h
    rw [StandsFor, ofFloat_eq_ofUnpacked]
    generalize x.toModel.unpack = u at h
    cases h with
    | zero s => exact ⟨_, rfl, by simp [Dyadic.toRat]⟩
    | @finite s m e hm h =>
      refine ⟨_, rfl, ?_⟩
      cases s with
      | negative =>
        rw [Dyadic.toRat_of_negative rfl, ← neg_mul]
        change _ = ((-(m : ℤ) : ℤ) : ℚ) * 2 ^ e
        rw [Int.cast_neg, Int.cast_natCast]
      | positive =>
        rw [Dyadic.toRat_of_positive rfl]
        change _ = ((m : ℤ) : ℚ) * 2 ^ e
        rw [Int.cast_natCast]

theorem StandsFor.fits (h : StandsFor x q) : FitsPlaces q := (standsFor_iff_writes.1 h).fits

/-- The result of an operation stands for what is written, unless that passes all finite doubles. -/
theorem standsFor_or_infinite {u : UnpackedFloat} (hx : x.toModel = Float.Model.pack u)
    (hu : Writes u q) :
    StandsFor x q ∨ x.toModel.unpack = .infinity .positive ∧ 2 ^ 1024 ≤ q ∨
      x.toModel.unpack = .infinity .negative ∧ q ≤ -2 ^ 1024 := by
  rw [standsFor_iff_writes, hx]
  exact hu.unpack_pack

theorem standsFor_of_pack {u : UnpackedFloat} (hx : x.toModel = Float.Model.pack u)
    (hu : Writes u q) (hfinite : x.isFinite = true) : StandsFor x q := by
  change x.toModel.unpack.isFinite = true at hfinite
  obtain h | ⟨h, -⟩ | ⟨h, -⟩ := standsFor_or_infinite hx hu
  · exact h
  · rw [h] at hfinite
    cases hfinite
  · rw [h] at hfinite
    cases hfinite

theorem StandsFor.add (hx : StandsFor x p) (hy : StandsFor y q)
    (hfinite : (x + y).isFinite = true) : StandsFor (x + y) (rounded (p + q)) :=
  standsFor_of_pack rfl (writes_add (standsFor_iff_writes.1 hx) (standsFor_iff_writes.1 hy)) hfinite

theorem StandsFor.sub (hx : StandsFor x p) (hy : StandsFor y q)
    (hfinite : (x - y).isFinite = true) : StandsFor (x - y) (rounded (p - q)) :=
  standsFor_of_pack rfl (writes_sub (standsFor_iff_writes.1 hx) (standsFor_iff_writes.1 hy)) hfinite

theorem StandsFor.mul (hx : StandsFor x p) (hy : StandsFor y q)
    (hfinite : (x * y).isFinite = true) : StandsFor (x * y) (rounded (p * q)) :=
  standsFor_of_pack rfl (writes_mul (standsFor_iff_writes.1 hx) (standsFor_iff_writes.1 hy)) hfinite

/-- An operation that only changes the sign has a finite result. -/
theorem standsFor_of_bounded {u : UnpackedFloat} (hx : x.toModel = Float.Model.pack u)
    (hu : Writes u q) (hbounded : Bounded 1024 u) : StandsFor x q := by
  refine standsFor_of_pack hx hu (IsBelow.isFinite (k := 1024) ?_)
  rw [IsBelow, hx]
  exact bounded_unpack_pack (by decide) le_rfl hbounded

theorem StandsFor.isFinite (hx : StandsFor x q) : x.isFinite = true :=
  isFinite_iff_exists_standsFor.2 ⟨q, hx⟩

theorem StandsFor.bounded (hx : StandsFor x q) : Bounded 1024 x.toModel.unpack :=
  isBelow_of_isFinite hx.isFinite

theorem StandsFor.abs (hx : StandsFor x q) : StandsFor x.abs |q| := by
  refine standsFor_of_bounded rfl (writes_abs (standsFor_iff_writes.1 hx)) ?_
  obtain ⟨s, hu⟩ | ⟨s, m, e, hm, hu, h⟩ := hx.bounded.zero_or_finite <;> rw [hu]
  · trivial
  · exact h

theorem StandsFor.neg (hx : StandsFor x q) : StandsFor (-x) (-q) := by
  refine standsFor_of_bounded rfl (writes_neg (standsFor_iff_writes.1 hx)) ?_
  obtain ⟨s, hu⟩ | ⟨s, m, e, hm, hu, h⟩ := hx.bounded.zero_or_finite <;> rw [hu]
  · trivial
  · exact h

theorem StandsFor.le_iff (hx : StandsFor x p) (hy : StandsFor y q) : x ≤ y ↔ p ≤ q := by
  have hle : x ≤ y ↔ x.toModel.unpack.le y.toModel.unpack = true :=
    ⟨of_decide_eq_true, decide_eq_true⟩
  rw [hle, UnpackedFloat.le, hx.compare_eq hy, ← compare_le_iff_le]
  cases compare p q <;> decide

/-- A double passes no number that passes all finite doubles. -/
theorem StandsFor.abs_lt (hx : StandsFor x q) : |q| < 2 ^ 1024 := by
  obtain ⟨d, hd, rfl⟩ := hx
  obtain ⟨hshort, -, hhigh⟩ := bounds_of_finite hd
  have hsize : |d.toRat| = d.significand * 2 ^ d.exponent := by
    have hnonneg : (0 : ℚ) ≤ d.significand * 2 ^ d.exponent :=
      mul_nonneg d.significand.cast_nonneg (two_zpow_pos _).le
    cases hsign : d.negative with
    | false => rw [Dyadic.toRat_of_positive hsign, abs_of_nonneg hnonneg]
    | true => rw [Dyadic.toRat_of_negative hsign, abs_neg, abs_of_nonneg hnonneg]
  rw [hsize]
  calc (d.significand * 2 ^ d.exponent : ℚ) < (2 ^ 53 : ℕ) * 2 ^ d.exponent :=
        mul_lt_mul_of_pos_right (Nat.cast_lt.2 hshort) (two_zpow_pos _)
    _ ≤ (2 ^ 53 : ℕ) * 2 ^ (971 : ℤ) :=
        mul_le_mul_of_nonneg_left (zpow_le_zpow_right₀ one_le_two hhigh) (Nat.cast_nonneg _)
    _ = 2 ^ 1024 := by
        rw [Nat.cast_pow, Nat.cast_two, ← zpow_natCast, ← zpow_natCast, ← zpow_add₀ two_ne_zero]
        rfl

/-- A difference compares with a double as the exact difference does that was rounded, even when it
passes all finite doubles. -/
theorem sub_le_iff {z : Float} {r : ℚ} (hx : StandsFor x p) (hy : StandsFor y q)
    (hz : StandsFor z r) : x - y ≤ z ↔ rounded (p - q) ≤ r := by
  have hwrites := writes_sub (standsFor_iff_writes.1 hx) (standsFor_iff_writes.1 hy)
  have hle : x - y ≤ z ↔ (x - y).toModel.unpack.le z.toModel.unpack = true :=
    ⟨of_decide_eq_true, decide_eq_true⟩
  have hlt := abs_lt.1 hz.abs_lt
  obtain h | ⟨h, hlarge⟩ | ⟨h, hlarge⟩ := standsFor_or_infinite (x := x - y) rfl hwrites
  · exact h.le_iff hz
  · rw [hle, h]
    refine iff_of_false ?_ (hlt.2.trans_le hlarge).not_ge
    obtain ⟨s, hu, -⟩ | ⟨m, e, hm, -, ⟨_, hu, -⟩ | ⟨_, hu, -⟩⟩ := hz.unpack_cases <;> rw [hu] <;>
      exact Bool.false_ne_true
  · rw [hle, h]
    refine iff_of_true ?_ (hlarge.trans hlt.1.le)
    obtain ⟨s, hu, -⟩ | ⟨m, e, hm, -, ⟨_, hu, -⟩ | ⟨_, hu, -⟩⟩ := hz.unpack_cases <;> rw [hu] <;>
      rfl

section Bounds

variable {j k : ℕ}

/-- An exact result that is no larger than some finite double has a finite result in doubles, which
is no larger either. -/
theorem standsFor_of_abs_le {u : UnpackedFloat} {r : ℚ} (hx : x.toModel = Float.Model.pack u)
    (hu : Writes u (rounded q)) (hr : FitsPlaces r) (hq : |q| ≤ r) (hlt : r < 2 ^ 1024) :
    StandsFor x (rounded q) ∧ |rounded q| ≤ r := by
  have hle := abs_rounded_le hr hq
  obtain hfinite | ⟨-, hlarge⟩ | ⟨-, hlarge⟩ := standsFor_or_infinite hx hu
  · exact ⟨hfinite, hle⟩
  · exact absurd (hlarge.trans ((le_abs_self _).trans hle)) hlt.not_ge
  · exact absurd ((le_neg.1 hlarge).trans ((neg_le_abs _).trans hle)) hlt.not_ge

theorem StandsFor.add_of_abs_le (hx : StandsFor x p) (hy : StandsFor y q) (hp : |p| ≤ 2 ^ k)
    (hq : |q| ≤ 2 ^ k) (hk : k + 1 < 1024) :
    StandsFor (x + y) (rounded (p + q)) ∧ |rounded (p + q)| ≤ 2 ^ (k + 1) := by
  refine standsFor_of_abs_le rfl
    (writes_add (standsFor_iff_writes.1 hx) (standsFor_iff_writes.1 hy)) (fitsPlaces_two_pow _) ?_
    (pow_lt_pow_right₀ one_lt_two hk)
  rw [pow_succ, mul_two]
  exact (abs_add_le p q).trans (add_le_add hp hq)

theorem StandsFor.sub_of_abs_le (hx : StandsFor x p) (hy : StandsFor y q) (hp : |p| ≤ 2 ^ k)
    (hq : |q| ≤ 2 ^ k) (hk : k + 1 < 1024) :
    StandsFor (x - y) (rounded (p - q)) ∧ |rounded (p - q)| ≤ 2 ^ (k + 1) := by
  refine standsFor_of_abs_le rfl
    (writes_sub (standsFor_iff_writes.1 hx) (standsFor_iff_writes.1 hy)) (fitsPlaces_two_pow _) ?_
    (pow_lt_pow_right₀ one_lt_two hk)
  rw [pow_succ, mul_two]
  exact (abs_sub p q).trans (add_le_add hp hq)

theorem StandsFor.mul_of_abs_le (hx : StandsFor x p) (hy : StandsFor y q) (hp : |p| ≤ 2 ^ j)
    (hq : |q| ≤ 2 ^ k) (hjk : j + k < 1024) :
    StandsFor (x * y) (rounded (p * q)) ∧ |rounded (p * q)| ≤ 2 ^ (j + k) := by
  refine standsFor_of_abs_le rfl
    (writes_mul (standsFor_iff_writes.1 hx) (standsFor_iff_writes.1 hy)) (fitsPlaces_two_pow _) ?_
    (pow_lt_pow_right₀ one_lt_two hjk)
  rw [abs_mul, pow_add]
  exact mul_le_mul hp hq (abs_nonneg q) (pow_nonneg two_pos.le j)

end Bounds

/-- A share of a finite double is finite. -/
theorem StandsFor.mul_of_abs_le_one (hx : StandsFor x p) (hy : StandsFor y q) (hp : |p| ≤ 1) :
    StandsFor (x * y) (rounded (p * q)) := by
  have hfits : FitsPlaces |q| := by
    rw [FitsPlaces, abs_abs]
    exact hy.fits
  have hshare : |p * q| ≤ |q| := by
    rw [abs_mul]
    exact mul_le_of_le_one_left (abs_nonneg q) hp
  exact (standsFor_of_abs_le rfl
    (writes_mul (standsFor_iff_writes.1 hx) (standsFor_iff_writes.1 hy)) hfits hshare hy.abs_lt).1

/-- A difference that is not below zero stands for its rounded value, or it is infinite. -/
theorem StandsFor.sub_of_le (hx : StandsFor x p) (hy : StandsFor y q) (h : q ≤ p) :
    StandsFor (x - y) (rounded (p - q)) ∨ (x - y).toModel.unpack = .infinity .positive := by
  have hwrites := writes_sub (standsFor_iff_writes.1 hx) (standsFor_iff_writes.1 hy)
  obtain hfinite | ⟨hinfinite, -⟩ | ⟨-, hlarge⟩ := standsFor_or_infinite (x := x - y) rfl hwrites
  · exact Or.inl hfinite
  · exact Or.inr hinfinite
  · have hnonneg := Arithmetic.round_nonneg (A := .double) (sub_nonneg.2 h)
    have hpos : (0 : ℚ) < 2 ^ 1024 := pow_pos two_pos _
    exact absurd (hnonneg.trans hlarge) (neg_lt_zero.2 hpos).not_ge

/-- A small share of a finite double is finite. -/
theorem isFinite_mul_of_isBelow (hx : x.isFinite = true) (hy : IsBelow (-1) y) :
    (x * y).isFinite = true :=
  (isBelow_mul (j := 1024) (by decide) (by decide) (isBelow_of_isFinite hx) hy).isFinite

/-- The number that a finite double stands for. -/
def value (x : Float) : ℚ :=
  match ofFloat x with
  | .finite d => d.toRat
  | _ => 0

theorem StandsFor.value_eq (hx : StandsFor x q) : value x = q := by
  obtain ⟨d, hd, rfl⟩ := hx
  rw [value, hd]

theorem standsFor_value (hx : x.isFinite = true) : StandsFor x (value x) := by
  obtain ⟨q, hq⟩ := isFinite_iff_exists_standsFor.1 hx
  rwa [hq.value_eq]

theorem standsFor_of_value_eq (hx : x.isFinite = true) (h : value x = q) : StandsFor x q :=
  h ▸ standsFor_value hx

theorem standsFor_zero : StandsFor 0.0 0 :=
  standsFor_of_value_eq (by decide +kernel) (by decide +kernel)

theorem standsFor_one : StandsFor 1.0 1 :=
  standsFor_of_value_eq (by decide +kernel) (by decide +kernel)

/-- Integers of fewer than 1024 bits can be made doubles. -/
theorem exists_ofInt? {i : ℤ} (hi : i.natAbs < 2 ^ 1023) : ∃ x, ofInt? i = some x := by
  refine ⟨_, ofInt?_of_lt ?_⟩
  rcases Nat.eq_zero_or_pos i.natAbs with hzero | hpos
  · rw [hzero]
    decide
  · have hlog : i.natAbs.log2 < 1023 := log2_lt hi (by decide)
    obtain ⟨-, hmost⟩ := leadingBits_bounds hpos
    rw [magnitudeBits_one hpos, infiniteBits]
    simp only [Nat.pow_eq]
    omega

/-- An integer is rounded when a double is made of it. -/
theorem standsFor_ofInt? {i : ℤ} (h : ofInt? i = some x) : StandsFor x (rounded i) := by
  have hx := standsFor_of_ofInt? h
  by_cases hi : i < 0
  · have habs : (i : ℚ) = -(i.natAbs : ℕ) := by
      rw [← Int.cast_natCast, ← Int.cast_neg]
      congr 1
      omega
    rw [if_pos hi] at hx
    rwa [habs, rounded_neg, rounded_natCast]
  · have habs : (i : ℚ) = (i.natAbs : ℕ) := by
      rw [← Int.cast_natCast]
      congr 1
      omega
    rw [if_neg hi] at hx
    rwa [habs, rounded_natCast]

end Doubles

end Lindenmayer.Number

namespace Lindenmayer.Numeric

/-- The number itself, which a double has to be finite to stand for. -/
def StandsFor : Numeric → ℚ → Prop
  | truth b, q => q = if b then 1 else 0
  | whole i, q => q = i
  | real x, q => Number.StandsFor x q

theorem StandsFor.exists_toFloat? {n : Numeric} {q : ℚ} (h : n.StandsFor q)
    (hq : |q| < 2 ^ 1023) : ∃ x, n.toFloat? = some x := by
  cases n with
  | truth b => exact ⟨_, rfl⟩
  | whole i =>
    obtain rfl : q = i := h
    refine Number.exists_ofInt? ?_
    rw [← Int.cast_abs, Int.abs_eq_natAbs, Int.cast_natCast] at hq
    exact_mod_cast hq
  | real x => exact ⟨x, rfl⟩

theorem StandsFor.toFloat? {n : Numeric} {q : ℚ} {x : Float} (h : n.StandsFor q)
    (hx : n.toFloat? = some x) : Number.StandsFor x (Number.rounded q) := by
  cases n with
  | truth b =>
    obtain rfl : q = if b then 1 else 0 := h
    obtain rfl := Option.some.inj hx
    cases b with
    | false =>
      change Number.StandsFor 0.0 (Number.rounded 0)
      rw [Number.rounded_zero]
      exact Number.standsFor_zero
    | true =>
      change Number.StandsFor 1.0 (Number.rounded 1)
      rw [Number.rounded_of_fits Number.standsFor_one.fits]
      exact Number.standsFor_one
  | whole i =>
    obtain rfl : q = i := h
    exact Number.standsFor_ofInt? hx
  | real y =>
    obtain rfl := Option.some.inj hx
    rw [Number.rounded_of_fits (Number.StandsFor.fits h)]
    exact h

end Lindenmayer.Numeric
