import Lindenmayer.Number.Binary64

/-!
# Comparing doubles by their bits

Comparison unpacks a double, and the dyadic number of a double is read off its bits. Both readings
agree, so what a comparison says of a double holds of the number that it stands for. Of the
comparisons only the one with one is needed here: a finite double that is not below one has a
positive whole part, of the infinities the negative one is below one, and what is no number is below
nothing.
-/
namespace Lindenmayer.Number.Binary64

open Float.Model

/-- The number that an unpacked double stands for. -/
def ofUnpacked : UnpackedFloat → Binary64
  | .notANumber => .nan
  | .infinity s => .infinite (s == .negative)
  | .zero s => .finite ⟨s == .negative, 0, -1074⟩
  | .finite s m e _ => .finite ⟨s == .negative, m, e⟩

theorem ofUnpacked_infinity (s : UnpackedFloat.Sign) :
    ofUnpacked (.infinity s) = .infinite (s == .negative) :=
  rfl

theorem ofUnpacked_zero (s : UnpackedFloat.Sign) :
    ofUnpacked (.zero s) = .finite ⟨s == .negative, 0, -1074⟩ :=
  rfl

theorem ofUnpacked_finite (s : UnpackedFloat.Sign) (m : Nat) (e : Int) (hm : 0 < m) :
    ofUnpacked (.finite s m e hm) = .finite ⟨s == .negative, m, e⟩ :=
  rfl

theorem toNat_unpackExponent (b : BitVec 64) :
    (@UnpackedFloat.unpackExponent Format.binary64 b).toNat =
      b.toNat / Nat.pow 2 52 % Nat.pow 2 11 := by
  change (BitVec.extractLsb 62 52 b).toNat = b.toNat / 2 ^ 52 % 2 ^ 11
  simp [BitVec.extractLsb, Nat.shiftRight_eq_div_pow]

theorem toNat_unpackMantissa (b : BitVec 64) :
    (@UnpackedFloat.unpackMantissa Format.binary64 b).toNat = b.toNat % Nat.pow 2 52 := by
  change (BitVec.extractLsb 51 0 b).toNat = b.toNat % 2 ^ 52
  simp [BitVec.extractLsb]

theorem toNat_unpackSign (b : BitVec 64) :
    (@UnpackedFloat.unpackSign Format.binary64 b).toNat = b.toNat / Nat.pow 2 63 := by
  have hb := b.isLt
  change (BitVec.extractLsb 63 63 b).toNat = b.toNat / 2 ^ 63
  simp [BitVec.extractLsb, Nat.shiftRight_eq_div_pow]
  omega

theorem sign_unpack (b : BitVec 64) :
    (UnpackedFloat.Sign.ofBitVec (@UnpackedFloat.unpackSign Format.binary64 b) ==
      .negative) = decide (Nat.pow 2 63 ≤ b.toNat) := by
  have hz : @UnpackedFloat.unpackSign Format.binary64 b = 0#1 ↔ b.toNat < 2 ^ 63 := by
    rw [← BitVec.toNat_inj, toNat_unpackSign]
    change b.toNat / 2 ^ 63 = 0 ↔ b.toNat < 2 ^ 63
    simp
  by_cases h : b.toNat < 2 ^ 63
  · have hle : ¬ Nat.pow 2 63 ≤ b.toNat := Nat.not_le.2 h
    simp only [UnpackedFloat.Sign.ofBitVec, if_pos (hz.2 h), hle, decide_false]
    rfl
  · have hle : Nat.pow 2 63 ≤ b.toNat := Nat.not_lt.1 h
    simp only [UnpackedFloat.Sign.ofBitVec, if_neg (mt hz.1 h), hle, decide_true]
    rfl

/-- Both readings of the bits agree. -/
theorem ofFloat_eq_ofUnpacked (x : Float) : ofFloat x = ofUnpacked x.toModel.unpack := by
  have he := toNat_unpackExponent x.toModel.toBits.toBitVec
  have hm := toNat_unpackMantissa x.toModel.toBits.toBitVec
  have hs := sign_unpack x.toModel.toBits.toBitVec
  have hones : @UnpackedFloat.unpackExponent Format.binary64 x.toModel.toBits.toBitVec =
      -1#_ ↔ x.toBits.toNat / Nat.pow 2 52 % Nat.pow 2 11 = 2047 := by
    rw [← BitVec.toNat_inj, he]
    rfl
  have hzeros : @UnpackedFloat.unpackExponent Format.binary64 x.toModel.toBits.toBitVec =
      0#_ ↔ x.toBits.toNat / Nat.pow 2 52 % Nat.pow 2 11 = 0 := by
    rw [← BitVec.toNat_inj, he]
    rfl
  have hnone : @UnpackedFloat.unpackMantissa Format.binary64 x.toModel.toBits.toBitVec =
      0#_ ↔ x.toBits.toNat % Nat.pow 2 52 = 0 := by
    rw [← BitVec.toNat_inj, hm]
    rfl
  have hbits : x.toModel.toBits.toBitVec.toNat = x.toBits.toNat := rfl
  rw [hbits] at he hm hs
  rw [ofFloat, ofBits, unpack]
  change _ = ofUnpacked (if _ then if _ then _ else _ else if _ then dite _ _ _ else _)
  by_cases hspecial : x.toBits.toNat / Nat.pow 2 52 % Nat.pow 2 11 = 2047
  · rw [if_pos hspecial, if_pos (hones.2 hspecial)]
    by_cases hfraction : x.toBits.toNat % Nat.pow 2 52 = 0
    · rw [if_pos hfraction, if_pos (hnone.2 hfraction), ofUnpacked_infinity, hs]
    · rw [if_neg hfraction, if_neg (mt hnone.1 hfraction)]
      rfl
  · rw [if_neg hspecial, if_neg (mt hones.1 hspecial)]
    by_cases hsmall : x.toBits.toNat / Nat.pow 2 52 % Nat.pow 2 11 = 0
    · rw [if_pos hsmall, if_pos (hzeros.2 hsmall)]
      by_cases hfraction : x.toBits.toNat % Nat.pow 2 52 = 0
      · rw [dif_pos (hnone.2 hfraction), ofUnpacked_zero, hs, hfraction]
      · have hexponent : ((x.toBits.toNat / Nat.pow 2 52 % Nat.pow 2 11 : Nat) : Int) = 0 :=
          congrArg Int.ofNat hsmall
        rw [dif_neg (mt hnone.1 hfraction), ofUnpacked_finite, hs, hm, he, hexponent]
        rfl
    · -- the hidden bit stands in front of the fraction
      have happend : (1#1 ++ @UnpackedFloat.unpackMantissa Format.binary64
          x.toModel.toBits.toBitVec).toNat = Nat.pow 2 52 + x.toBits.toNat % Nat.pow 2 52 := by
        rw [BitVec.toNat_append, hm]
        exact (Nat.shiftLeft_add_eq_or_of_lt (Nat.mod_lt _ (Nat.two_pow_pos 52)) 1).symm
      rw [if_neg hsmall, if_neg (mt hzeros.1 hsmall), ofUnpacked_finite, hs, happend, he]
      rfl

/-- A finite double has all bits of its significand unless its exponent is the least one. -/
theorem significand_of_finite {x : Float} {d : Dyadic} (hd : ofFloat x = .finite d) :
    Nat.pow 2 52 ≤ d.significand ∨ d.exponent = -1074 := by
  rw [ofFloat, ofBits] at hd
  split at hd
  · split at hd <;> simp at hd
  · split at hd
    · obtain rfl := Binary64.finite.inj hd
      exact Or.inr rfl
    · obtain rfl := Binary64.finite.inj hd
      exact Or.inl (Nat.le_add_right _ _)

theorem lt_iff_unpack {x y : Float} : x < y ↔ x.toModel.unpack.lt y.toModel.unpack = true :=
  ⟨of_decide_eq_true, decide_eq_true⟩

/-- The sign, the exponent and the significand of a finite double that is at least one. -/
theorem finite_of_not_lt_one {x : Float} {d : Dyadic} (hx : ¬ x < Float.ofNat 1)
    (hd : ofFloat x = .finite d) :
    d.negative = false ∧ -52 ≤ d.exponent ∧ Nat.pow 2 52 ≤ d.significand := by
  have hone : (Float.ofNat 1).toModel.unpack = .finite .positive (2 ^ 52) (-52) (by decide) := rfl
  have hlt : x.toModel.unpack.lt (Float.ofNat 1).toModel.unpack ≠ true :=
    mt lt_iff_unpack.2 hx
  have hshape := significand_of_finite hd
  rw [hone] at hlt
  rw [ofFloat_eq_ofUnpacked] at hd
  cases hu : x.toModel.unpack with
  | infinity s =>
    rw [hu, ofUnpacked_infinity] at hd
    cases hd
  | notANumber =>
    rw [hu] at hd
    exact Binary64.noConfusion hd
  | zero s =>
    rw [hu] at hlt
    exact absurd rfl hlt
  | finite s m e hm =>
    rw [hu] at hd hlt
    cases s with
    | negative => exact absurd rfl hlt
    | positive =>
      obtain rfl := Binary64.finite.inj hd
      have hexponent : -52 ≤ e := by
        by_cases h : e < -52
        · have hcompare : compare e (-52) = .lt := Int.compare_eq_lt.2 h
          have hless : UnpackedFloat.lt (.finite .positive m e hm)
              (.finite .positive (2 ^ 52) (-52) (by decide)) =
              (some ((compare e (-52)).then (compare m (2 ^ 52))) == some .lt) := rfl
          rw [hless, hcompare] at hlt
          exact absurd rfl hlt
        · omega
      refine ⟨rfl, hexponent, ?_⟩
      rcases hshape with h | h
      · exact h
      · dsimp only at h
        omega

/-- The whole part of a double that is not below one is positive. -/
theorem one_le_truncate {x : Float} {d : Dyadic} (hx : ¬ x < Float.ofNat 1)
    (hd : ofFloat x = .finite d) : 1 ≤ d.truncate := by
  obtain ⟨hsign, hexponent, hsignificand⟩ := finite_of_not_lt_one hx hd
  have hden : d.den ≤ d.num := by
    have hpow : d.den ≤ Nat.pow 2 52 := Nat.pow_le_pow_right (by decide) (by omega)
    have hone : 1 ≤ Nat.pow 2 d.exponent.toNat := Nat.one_le_two_pow
    calc d.den ≤ d.significand * 1 := by omega
      _ ≤ d.num := Nat.mul_le_mul_left _ hone
  have hpos : 0 < d.den := Nat.two_pow_pos _
  have hquotient : 1 ≤ d.num / d.den := (Nat.one_le_div_iff hpos).2 hden
  simp only [Dyadic.truncate, hsign]
  exact Int.ofNat_le.2 hquotient

/-! What is not finite. -/

theorem not_lt_of_nan {x y : Float} (hx : ofFloat x = .nan) : ¬ x < y := by
  intro hlt
  have hless := lt_iff_unpack.1 hlt
  rw [ofFloat_eq_ofUnpacked] at hx
  cases hu : x.toModel.unpack with
  | notANumber =>
    rw [hu] at hless
    cases hless
  | infinity s =>
    rw [hu, ofUnpacked_infinity] at hx
    cases hx
  | zero s =>
    rw [hu, ofUnpacked_zero] at hx
    cases hx
  | finite s m e hm =>
    rw [hu, ofUnpacked_finite] at hx
    cases hx

theorem unpack_of_infinite {x : Float} {negative : Bool} (hx : ofFloat x = .infinite negative) :
    ∃ s, x.toModel.unpack = .infinity s ∧ negative = (s == .negative) := by
  rw [ofFloat_eq_ofUnpacked] at hx
  cases hu : x.toModel.unpack with
  | notANumber =>
    rw [hu] at hx
    exact Binary64.noConfusion hx
  | infinity s =>
    rw [hu, ofUnpacked_infinity] at hx
    exact ⟨s, rfl, (Binary64.infinite.inj hx).symm⟩
  | zero s =>
    rw [hu, ofUnpacked_zero] at hx
    cases hx
  | finite s m e hm =>
    rw [hu, ofUnpacked_finite] at hx
    cases hx

/-- Of the two infinities the negative one is below one. -/
theorem lt_one_iff_of_infinite {x : Float} {negative : Bool} (hx : ofFloat x = .infinite negative) :
    x < Float.ofNat 1 ↔ negative = true := by
  have hone : (Float.ofNat 1).toModel.unpack = .finite .positive (2 ^ 52) (-52) (by decide) := rfl
  obtain ⟨s, hu, rfl⟩ := unpack_of_infinite hx
  rw [lt_iff_unpack, hu, hone]
  cases s with
  | negative => exact ⟨fun _ => rfl, fun _ => rfl⟩
  | positive =>
    constructor
    · intro h
      cases h
    · intro h
      cases h

end Lindenmayer.Number.Binary64
