import Lindenmayer.Proofs.Number.Range

/-!
# Doubles that are not below zero

A double is below zero if it bears a negative sign and is neither zero nor no number. To divide by a
positive finite double keeps what is not below zero from being so: the quotient is no number, a zero,
or has the sign of the dividend, and however it is rounded, its sign survives on the bits.
-/
namespace Lindenmayer.Number.Binary64

open Float.Model UnpackedFloat

/-- The double is below zero. -/
inductive IsNegative : UnpackedFloat → Prop
  | infinity : IsNegative (.infinity .negative)
  | finite (m : Nat) (e : Int) (hm : 0 < m) : IsNegative (.finite .negative m e hm)

theorem isNegative_infinity_iff {s : Sign} : IsNegative (.infinity s) ↔ s = .negative := by
  constructor
  · rintro ⟨⟩
    rfl
  · rintro rfl
    exact .infinity

theorem isNegative_finite_iff {s : Sign} {m : Nat} {e : Int} {hm : 0 < m} :
    IsNegative (.finite s m e hm) ↔ s = .negative := by
  constructor
  · rintro ⟨⟩
    rfl
  · rintro rfl
    exact .finite m e hm

theorem isNegative_iff_lt {u : UnpackedFloat} : IsNegative u ↔ u.lt (.zero .positive) = true := by
  constructor
  · intro h
    cases h <;> rfl
  · intro h
    cases u with
    | notANumber => cases h
    | zero s => cases h
    | infinity s =>
      cases s with
      | negative => exact .infinity
      | positive => cases h
    | finite s m e hm =>
      cases s with
      | negative => exact .finite m e hm
      | positive => cases h

theorem lt_zero_iff {x : Float} : x < 0 ↔ IsNegative x.toModel.unpack :=
  lt_iff_unpack.trans isNegative_iff_lt.symm

theorem sign_of_isNegative {b : BitVec 64}
    (h : IsNegative (UnpackedFloat.unpack Format.binary64 b)) :
    Sign.ofBitVec (@unpackSign Format.binary64 b) = .negative := by
  change IsNegative (if _ then if _ then _ else _ else if _ then dite _ _ _ else _) at h
  by_cases hones : @unpackExponent Format.binary64 b = -1#_
  · rw [if_pos hones] at h
    by_cases hnone : @unpackMantissa Format.binary64 b = 0#_
    · rw [if_pos hnone] at h
      exact isNegative_infinity_iff.1 h
    · rw [if_neg hnone] at h
      cases h
  · rw [if_neg hones] at h
    by_cases hzeros : @unpackExponent Format.binary64 b = 0#_
    · rw [if_pos hzeros] at h
      by_cases hnone : @unpackMantissa Format.binary64 b = 0#_
      · rw [dif_pos hnone] at h
        cases h
      · rw [dif_neg hnone] at h
        exact isNegative_finite_iff.1 h
    · rw [if_neg hzeros] at h
      exact isNegative_finite_iff.1 h

/-- Bits with a positive sign stand for nothing below zero. -/
theorem not_isNegative_packComponents (field : BitVec 11) (fraction : BitVec 52) :
    ¬ IsNegative (UnpackedFloat.unpack Format.binary64
      (packComponents Format.binary64 .positive field fraction)) := by
  have hsign : @unpackSign Format.binary64
      (packComponents Format.binary64 .positive field fraction) = 0#1 := by
    change BitVec.extractLsb' 63 1 (0#1 ++ field ++ fraction) = 0#1
    rw [BitVec.extractLsb'_append_eq_of_le (by decide),
      BitVec.extractLsb'_append_eq_of_le (by decide)]
    rfl
  intro h
  have hnegative := sign_of_isNegative h
  rw [hsign] at hnegative
  cases hnegative

theorem not_isNegative_pack {u : UnpackedFloat} (hu : ¬ IsNegative u) :
    ¬ IsNegative (UnpackedFloat.unpack Format.binary64 (UnpackedFloat.pack Format.binary64 u)) := by
  cases u with
  | notANumber => exact not_isNegative_packComponents _ _
  | zero s =>
    intro h
    cases s <;> cases h
  | infinity s =>
    cases s with
    | negative => exact absurd .infinity hu
    | positive => exact not_isNegative_packComponents _ _
  | finite s m e hm =>
    cases s with
    | negative => exact absurd (.finite m e hm) hu
    | positive =>
      by_cases hlarge : 2 ^ 11 ≤ (e + Format.binary64.exponentBias +
          Format.binary64.mantissaBitsWithoutImplicit).toNat + 1
      · rw [pack_finite .positive m e hm _ rfl, if_pos hlarge]
        exact not_isNegative_packComponents _ _
      · rw [pack_finite .positive m e hm _ rfl, if_neg hlarge]
        by_cases hnormal : m.log2 + 1 = 53
        · rw [if_pos hnormal]
          exact not_isNegative_packComponents _ _
        · rw [if_neg hnormal]
          exact not_isNegative_packComponents _ _

/-- Rounding keeps the sign. -/
theorem not_isNegative_roundWithAccuracy (m : Nat) (e : Int) (accuracy : Accuracy) :
    ¬ IsNegative (roundWithAccuracy Format.binary64 .positive m e accuracy) := by
  let rounded := firstRounded m e accuracy
  let shifted := ExtendedMantissa.ofMantissaAndAccuracy rounded .exact >>>
    surplus rounded (e + surplus m e)
  have hround : roundWithAccuracy Format.binary64 .positive m e accuracy =
      if h : shifted.mantissa = 0 then .zero .positive
      else .finite .positive shifted.mantissa (e + surplus m e + surplus rounded (e + surplus m e))
        (Nat.pos_of_ne_zero h) := rfl
  rw [hround]
  by_cases hzero : shifted.mantissa = 0
  · rw [dif_pos hzero]
    intro h
    cases h
  · rw [dif_neg hzero]
    intro h
    cases h

theorem not_isNegative_div {u : UnpackedFloat} (hu : ¬ IsNegative u) {m : Nat} {e : Int}
    (hm : 0 < m) : ¬ IsNegative (UnpackedFloat.div Format.binary64 u (.finite .positive m e hm)) := by
  cases u with
  | notANumber =>
    intro h
    cases h
  | zero s =>
    intro h
    cases h
  | infinity s =>
    cases s with
    | negative => exact absurd .infinity hu
    | positive =>
      intro h
      cases h
  | finite s m' e' hm' =>
    cases s with
    | negative => exact absurd (.finite m' e' hm') hu
    | positive => exact not_isNegative_roundWithAccuracy _ _ _

/-- A quotient by a positive finite double is not below zero unless the dividend is. -/
theorem not_neg_div {x y : Float} {m : Nat} {e : Int} {hm : 0 < m} (hx : ¬ x < 0)
    (hy : y.toModel.unpack = .finite .positive m e hm) : ¬ x / y < 0 := by
  rw [lt_zero_iff] at hx ⊢
  have hquotient := not_isNegative_pack (not_isNegative_div hx hm (e := e))
  rw [← hy] at hquotient
  exact hquotient

end Lindenmayer.Number.Binary64
