import Lindenmayer.Proofs.Number.Rounding

/-!
# The range of doubles

How far sums, differences, products and quotients of doubles reach. A product or a quotient is
bounded by a power of two that is one too great. A sum needs a sharper bound: adding a number below
`2 ^ 970` to a finite double never gives an infinite one, because that number is less than half the
distance from the greatest finite double to the next power of two.
-/
namespace Lindenmayer.Number.Binary64

open Float.Model UnpackedFloat

theorem bounded_unpack {b : BitVec 64} {k : Int} (hk : -1021 ≤ k)
    (hfinite : @unpackExponent Format.binary64 b ≠ -1#_)
    (hb : ((@unpackExponent Format.binary64 b).toNat : Int) - 1022 ≤ k) :
    Bounded k (UnpackedFloat.unpack Format.binary64 b) := by
  have hbias : ((Format.binary64.exponentBias : Nat) : Int) +
      (Format.binary64.mantissaBitsWithoutImplicit : Nat) = 1075 := rfl
  change Bounded k (if _ then _ else if _ then dite _ _ _ else _)
  rw [if_neg hfinite]
  by_cases hzero : @unpackExponent Format.binary64 b = 0#_
  · rw [if_pos hzero]
    by_cases hnone : @unpackMantissa Format.binary64 b = 0#_
    · rw [dif_pos hnone]
      trivial
    · have hfield : (@unpackExponent Format.binary64 b).toNat = 0 := by rw [hzero]; rfl
      have hm := (@unpackMantissa Format.binary64 b).isLt
      rw [dif_neg hnone]
      refine ⟨Nat.lt_trans hm (by decide), ?_, ?_⟩ <;> rw [hfield, hbias] <;> omega
  · have hfield : 0 < (@unpackExponent Format.binary64 b).toNat :=
      Nat.pos_of_ne_zero fun h => hzero (BitVec.eq_of_toNat_eq h)
    rw [if_neg hzero]
    refine ⟨(1#1 ++ @unpackMantissa Format.binary64 b).isLt, ?_, ?_⟩ <;> rw [hbias] <;> omega

theorem bounded_unpack_packComponents {k : Int} (hk : -1021 ≤ k) (s : Sign) {field : BitVec 11}
    (fraction : BitVec 52) (hfinite : field.toNat < 2047) (hfield : (field.toNat : Int) - 1022 ≤ k) :
    Bounded k (UnpackedFloat.unpack Format.binary64
      (packComponents Format.binary64 s field fraction)) := by
  have hunpack : unpackExponent (packComponents Format.binary64 s field fraction) = field :=
    unpackExponent_packComponents
  refine bounded_unpack hk ?_ ?_ <;> rw [hunpack]
  · intro h
    have hones : field.toNat = 2047 := congrArg BitVec.toNat h
    omega
  · exact hfield

theorem pack_finite (s : Sign) (m : Nat) (e : Int) (hm : 0 < m) (field : Nat)
    (hfield : (e + Format.binary64.exponentBias +
      Format.binary64.mantissaBitsWithoutImplicit).toNat = field) :
    UnpackedFloat.pack Format.binary64 (.finite s m e hm) =
      if 2 ^ 11 ≤ field + 1 then packedInfinity Format.binary64 s
      else if m.log2 + 1 = 53 then
        packComponents Format.binary64 s (BitVec.ofNat 11 field) (BitVec.ofNat 52 m)
      else packComponents Format.binary64 s 0#11 (BitVec.ofNat 52 m) := by
  rw [← hfield]
  rfl

/-- A result is not infinite if what was rounded is below `2 ^ 1024`. -/
theorem bounded_unpack_pack {u : UnpackedFloat} {k : Int} (hk : -1021 ≤ k) (hk' : k ≤ 1024)
    (hu : Bounded k u) :
    Bounded k (UnpackedFloat.unpack Format.binary64 (UnpackedFloat.pack Format.binary64 u)) := by
  obtain ⟨s, rfl⟩ | ⟨s, m, e, hm, rfl, -, hlow, hhigh⟩ := hu.zero_or_finite
  · exact bounded_unpack_packComponents hk s 0#52 (by decide) (Int.le_trans (by decide) hk)
  · have hbiased : (e + Format.binary64.exponentBias +
        Format.binary64.mantissaBitsWithoutImplicit).toNat = (e + 1075).toNat := by
      change (e + 1023 + 52).toNat = _
      omega
    have hfield : (BitVec.ofNat 11 (e + 1075).toNat).toNat = (e + 1075).toNat := by
      rw [BitVec.toNat_ofNat]
      omega
    have hin : ¬ 2 ^ 11 ≤ (e + 1075).toNat + 1 := by omega
    rw [pack_finite s m e hm _ hbiased, if_neg hin]
    by_cases hnormal : m.log2 + 1 = 53
    · rw [if_pos hnormal]
      exact bounded_unpack_packComponents hk s _ (by omega) (by omega)
    · rw [if_neg hnormal]
      exact bounded_unpack_packComponents hk s _ (by decide) (Int.le_trans (by decide) hk)

section Operations

variable {u v : UnpackedFloat}

theorem units_add_le {m a : Nat} {e : Int} (hm : m < 2 ^ 53) (he : e + 1074 ≤ a) :
    units m e + 2 ^ a ≤ 2 ^ (53 + a) := by
  have hpow : 2 ^ (e + 1074).toNat ≤ 2 ^ a := Nat.pow_le_pow_right Nat.two_pos (by omega)
  calc units m e + 2 ^ a ≤ m * 2 ^ a + 2 ^ a := Nat.add_le_add_right (Nat.mul_le_mul_left _ hpow) _
    _ = (m + 1) * 2 ^ a := (Nat.succ_mul _ _).symm
    _ ≤ 2 ^ 53 * 2 ^ a := Nat.mul_le_mul_right _ hm
    _ = 2 ^ (53 + a) := (Nat.pow_add _ _ _).symm

theorem units_align {m : Nat} {e t : Int} (ht : -1074 ≤ t) (hte : t ≤ e) :
    units (m <<< (e - t).toNat) t = units m e := by
  have h : e - ((e - t).toNat : Int) = t := by omega
  have := units_shiftLeft m (e := e) (j := (e - t).toNat) (by omega)
  rwa [h] at this

/-- A sum or a difference of two numbers that have been brought to one exponent. The second number
is less than half the last place of the greatest numbers that the first may be. -/
theorem bounded_normalize_aligned {n m₁ m₂ : Nat} {e₁ e₂ i : Int} (s : Sign) (hn : 53 ≤ n)
    (h₁ : m₁ < 2 ^ 53 ∧ -1074 ≤ e₁ ∧ e₁ + 53 ≤ n - 1020)
    (h₂ : m₂ < 2 ^ 53 ∧ -1074 ≤ e₂ ∧ e₂ + 53 ≤ n - 1074)
    (hi : i.natAbs ≤
      m₁ <<< (e₁ - min e₁ e₂).toNat + m₂ <<< (e₂ - min e₁ e₂).toNat) :
    Bounded (n - 1020) (UnpackedFloat.normalize Format.binary64 i (min e₁ e₂) s) := by
  obtain ⟨hm₁, hlow₁, hhigh₁⟩ := h₁
  obtain ⟨hm₂, hlow₂, hhigh₂⟩ := h₂
  refine bounded_normalize (n := n) s (by omega) (by omega) ?_
  have hfirst : units m₁ e₁ + 2 ^ (n + 1) ≤ 2 ^ (53 + (n + 1)) := units_add_le hm₁ (by omega)
  have hsecond : units m₂ e₂ < 2 ^ n := by
    have hle : units m₂ e₂ + 2 ^ (n - 53) ≤ 2 ^ (53 + (n - 53)) := units_add_le hm₂ (by omega)
    rw [Nat.add_sub_cancel' hn] at hle
    exact Nat.lt_of_lt_of_le (Nat.lt_add_of_pos_right (Nat.two_pow_pos _)) hle
  have hsum : units i.natAbs (min e₁ e₂) ≤ units m₁ e₁ + units m₂ e₂ := by
    rw [← units_align (m := m₁) (t := min e₁ e₂) (by omega) (by omega),
      ← units_align (m := m₂) (t := min e₁ e₂) (by omega) (by omega)]
    exact Nat.le_trans (Nat.mul_le_mul_right _ hi) (Nat.le_of_eq (Nat.add_mul _ _ _))
  have hdouble : 2 ^ (n + 1) = 2 ^ n + 2 ^ n := by rw [Nat.pow_succ]; omega
  have hexponent : 53 + (n + 1) = n + 54 := by omega
  rw [hexponent] at hfirst
  omega

theorem natAbs_add_le (s s' : Sign) (m m' : Nat) : (s.apply m + s'.apply m').natAbs ≤ m + m' := by
  cases s <;> cases s' <;> simp only [Sign.apply] <;> omega

theorem natAbs_sub_le (s s' : Sign) (m m' : Nat) : (s.apply m - s'.apply m').natAbs ≤ m + m' := by
  cases s <;> cases s' <;> simp only [Sign.apply] <;> omega

theorem bounded_add {n : Nat} (hn : 53 ≤ n) (hu : Bounded (n - 1020) u)
    (hv : Bounded (n - 1074) v) :
    Bounded (n - 1020) (UnpackedFloat.add Format.binary64 u v) := by
  obtain ⟨s, rfl⟩ | ⟨s, m, e, hm, rfl, h⟩ := hu.zero_or_finite <;>
    obtain ⟨s', rfl⟩ | ⟨s', m', e', hm', rfl, h'⟩ := hv.zero_or_finite
  · cases s <;> cases s' <;> trivial
  · exact hv.mono (by omega)
  · exact hu
  · exact bounded_normalize_aligned .positive hn h h' (natAbs_add_le s s' _ _)

theorem bounded_sub {n : Nat} (hn : 53 ≤ n) (hu : Bounded (n - 1020) u)
    (hv : Bounded (n - 1074) v) :
    Bounded (n - 1020) (UnpackedFloat.sub Format.binary64 u v) := by
  obtain ⟨s, rfl⟩ | ⟨s, m, e, hm, rfl, h⟩ := hu.zero_or_finite <;>
    obtain ⟨s', rfl⟩ | ⟨s', m', e', hm', rfl, h'⟩ := hv.zero_or_finite
  · cases s <;> cases s' <;> trivial
  · exact hv.mono (by omega)
  · exact hu
  · exact bounded_normalize_aligned .positive hn h h' (natAbs_sub_le s s' _ _)

theorem bounded_mul {j k : Int} (hjk : -1021 ≤ j + k) (hu : Bounded j u) (hv : Bounded k v) :
    Bounded (j + k + 1) (UnpackedFloat.mul Format.binary64 u v) := by
  obtain ⟨s, rfl⟩ | ⟨s, m, e, hm, rfl, hlt, hlow, hhigh⟩ := hu.zero_or_finite <;>
    obtain ⟨s', rfl⟩ | ⟨s', m', e', hm', rfl, hlt', hlow', hhigh'⟩ := hv.zero_or_finite
  · trivial
  · trivial
  · trivial
  · have hproduct : m * m' < 2 ^ 53 * 2 ^ 53 := Nat.mul_lt_mul_of_lt_of_lt hlt hlt'
    rw [← Nat.pow_add] at hproduct
    exact bounded_succ_roundWithAccuracy (s * s') hjk (by omega)
      (totalExponent_le (by decide) hproduct (by omega))

/-- A number of 53 bits that is at least `2 ^ l` in size. -/
def AtLeast (l : Int) : UnpackedFloat → Prop
  | .finite _ m e _ => 2 ^ 52 ≤ m ∧ m < 2 ^ 53 ∧ l ≤ e + 52
  | _ => False

instance (l : Int) : (u : UnpackedFloat) → Decidable (AtLeast l u)
  | .finite .. => inferInstanceAs (Decidable (_ ∧ _ ∧ _))
  | .zero _ => isFalse id
  | .infinity _ => isFalse id
  | .notANumber => isFalse id

theorem AtLeast.finite {l : Int} (h : AtLeast l v) :
    ∃ s m e hm, v = .finite s m e hm ∧ 2 ^ 52 ≤ m ∧ m < 2 ^ 53 ∧ l ≤ e + 52 := by
  cases v with
  | finite s m e hm => exact ⟨s, m, e, hm, rfl, h⟩
  | zero s => exact h.elim
  | infinity s => exact h.elim
  | notANumber => exact h.elim

theorem shiftLeft_div_lt {m m' : Nat} (hm : 2 ^ 52 ≤ m) (hm' : m' < 2 ^ 53) (d : Nat) :
    m' <<< d / m < 2 ^ (d + 1) := by
  have hpos : 0 < m := Nat.lt_of_lt_of_le (by decide) hm
  rw [Nat.div_lt_iff_lt_mul hpos, Nat.shiftLeft_eq]
  calc m' * 2 ^ d < 2 ^ 53 * 2 ^ d := Nat.mul_lt_mul_of_pos_right hm' (Nat.two_pow_pos _)
    _ = 2 ^ (d + 1) * 2 ^ 52 := by
        rw [← Nat.pow_add, ← Nat.pow_add]
        congr 1
        omega
    _ ≤ _ := Nat.mul_le_mul_left _ hm

theorem bounded_div {j l : Int} (hjl : -1021 ≤ j - l) (hu : Bounded j u) (hv : AtLeast l v) :
    Bounded (j - l + 1) (UnpackedFloat.div Format.binary64 u v) := by
  obtain ⟨s, m, e, hm, rfl, hlow, hhigh, he⟩ := hv.finite
  obtain ⟨s', rfl⟩ | ⟨s', m', e', hm', rfl, hlt, -, hexponent⟩ := hu.zero_or_finite
  · trivial
  · have hlog : m.log2 = 52 := (Nat.log2_eq_iff (Nat.pos_iff_ne_zero.1 hm)).2 ⟨hlow, hhigh⟩
    have hlog' : m'.log2 < 53 := (Nat.log2_lt (Nat.pos_iff_ne_zero.1 hm')).2 hlt
    -- the exponent of the quotient before it is rounded
    generalize ht : min (e' - e) (Format.binary64.targetExponent
      (totalExponent m' e' - totalExponent m e)) = t
    have ht' : t + 53 ≤ j - l := by
      rw [targetExponent_eq, totalExponent, totalExponent, hlog] at ht
      omega
    have htotal : totalExponent (m' <<< (e' - e - t).toNat / m) t ≤ j - l :=
      totalExponent_le (by omega) (shiftLeft_div_lt hlow hlt _) (by omega)
    have hdiv : UnpackedFloat.div Format.binary64 (.finite s' m' e' hm') (.finite s m e hm) =
        roundWithAccuracy Format.binary64 (s' / s) (m' <<< (e' - e - t).toNat / m) t
          (accuracyOfFraction (m' <<< (e' - e - t).toNat % m) m) := by
      rw [← ht]
      rfl
    rw [hdiv]
    exact bounded_succ_roundWithAccuracy (s' / s) hjl ht' htotal

/-- A positive number has no greater exponent than one it does not exceed. -/
theorem exponent_le_of_positive_le {k : Int} {m : Nat} {e : Int} {hm : 0 < m}
    (h : (UnpackedFloat.finite .positive m e hm).le u = true) (hu : Bounded k u) : e + 53 ≤ k := by
  obtain ⟨s, rfl⟩ | ⟨s, m', e', hm', rfl, -, -, hhigh⟩ := hu.zero_or_finite
  · exact Bool.noConfusion h
  · cases s with
    | negative => exact Bool.noConfusion h
    | positive =>
      apply Int.not_lt.1
      intro hlt
      have hcompare : compare e e' = .gt := Int.compare_eq_gt.2 (by omega)
      change ((compare e e').then (compare m m')).isLE = true at h
      rw [hcompare] at h
      exact Bool.noConfusion h

theorem exponent_le_of_le_negative {k : Int} {m : Nat} {e : Int} {hm : 0 < m}
    (h : u.le (UnpackedFloat.finite .negative m e hm) = true) (hu : Bounded k u) : e + 53 ≤ k := by
  obtain ⟨s, rfl⟩ | ⟨s, m', e', hm', rfl, -, -, hhigh⟩ := hu.zero_or_finite
  · exact Bool.noConfusion h
  · cases s with
    | positive => exact Bool.noConfusion h
    | negative =>
      apply Int.not_lt.1
      intro hlt
      have hcompare : compare e' e = .lt := Int.compare_eq_lt.2 (by omega)
      change ((compare e' e).then (compare m' m)).swap.isLE = true at h
      rw [hcompare] at h
      exact Bool.noConfusion h

theorem isFinite_of_between {w : UnpackedFloat} {j k : Int} (hu : Bounded j u) (hw : Bounded k w)
    (huv : u.le v = true) (hvw : v.le w = true) : v.isFinite = true := by
  obtain ⟨s, rfl⟩ | ⟨s, m, e, hm, rfl, -⟩ := hu.zero_or_finite <;>
    obtain ⟨s', rfl⟩ | ⟨s', m', e', hm', rfl, -⟩ := hw.zero_or_finite <;>
      cases v with
      | notANumber => exact Bool.noConfusion hvw
      | zero => rfl
      | finite => rfl
      | infinity s'' =>
        cases s'' with
        | positive => exact Bool.noConfusion hvw
        | negative => exact Bool.noConfusion huv

end Operations

/-- A double below `2 ^ k` in size. -/
def IsBelow (k : Int) (x : Float) : Prop := Bounded k x.toModel.unpack

instance (k : Int) (x : Float) : Decidable (IsBelow k x) :=
  inferInstanceAs (Decidable (Bounded k _))

/-- A double of 53 bits that is at least `2 ^ l` in size. -/
def IsAtLeast (l : Int) (x : Float) : Prop := AtLeast l x.toModel.unpack

instance (l : Int) (x : Float) : Decidable (IsAtLeast l x) :=
  inferInstanceAs (Decidable (AtLeast l _))

section Doubles

variable {a b x y : Float} {j k : Int}

theorem isBelow_of_isFinite (hx : x.isFinite = true) : IsBelow 1024 x := by
  have hfinite : @unpackExponent Format.binary64 x.toModel.toBits.toBitVec ≠ -1#_ := by
    intro h
    change (if _ then if _ then _ else _ else _ : UnpackedFloat).isFinite = true at hx
    rw [if_pos h] at hx
    split at hx <;> exact Bool.noConfusion hx
  have hfield : (@unpackExponent Format.binary64 x.toModel.toBits.toBitVec).toNat < 2048 :=
    BitVec.isLt _
  have hones : (@unpackExponent Format.binary64 x.toModel.toBits.toBitVec).toNat ≠ 2047 :=
    fun h => hfinite (BitVec.eq_of_toNat_eq h)
  exact bounded_unpack (by decide) hfinite (by omega)

theorem IsBelow.isFinite (h : IsBelow k x) : x.isFinite = true := by
  change x.toModel.unpack.isFinite = true
  obtain ⟨s, hx⟩ | ⟨s, m, e, hm, hx, -⟩ := h.zero_or_finite <;> rw [hx] <;> rfl

theorem isInf_of_isFinite (hx : x.isFinite = true) : x.isInf = false := by
  change x.toModel.unpack.isFinite = true at hx
  change x.toModel.unpack.isInf = false
  cases h : x.toModel.unpack with
  | infinity s => rw [h] at hx; exact Bool.noConfusion hx
  | notANumber => rfl
  | zero s => rfl
  | finite s m e hm => rfl

/-- A finite double stays finite when a number below `2 ^ 970` is added. -/
theorem isFinite_add (hx : x.isFinite = true) (hy : IsBelow 970 y) : (x + y).isFinite = true := by
  have hsum : Bounded 1024 (UnpackedFloat.add Format.binary64 x.toModel.unpack y.toModel.unpack) :=
    bounded_add (n := 2044) (by decide) (isBelow_of_isFinite hx) hy
  exact IsBelow.isFinite (k := 1024) (bounded_unpack_pack (by decide) (by decide) hsum)

theorem isFinite_sub (hx : x.isFinite = true) (hy : IsBelow 970 y) : (x - y).isFinite = true := by
  have hdifference :
      Bounded 1024 (UnpackedFloat.sub Format.binary64 x.toModel.unpack y.toModel.unpack) :=
    bounded_sub (n := 2044) (by decide) (isBelow_of_isFinite hx) hy
  exact IsBelow.isFinite (k := 1024) (bounded_unpack_pack (by decide) (by decide) hdifference)

theorem isBelow_mul (hjk : -1021 ≤ j + k) (hjk' : j + k < 1024) (hx : IsBelow j x)
    (hy : IsBelow k y) : IsBelow (j + k + 1) (x * y) :=
  bounded_unpack_pack (by omega) (by omega) (bounded_mul hjk hx hy)

theorem isBelow_div (hjk : -1021 ≤ j - k) (hjk' : j - k < 1024) (hx : IsBelow j x)
    (hy : IsAtLeast k y) : IsBelow (j - k + 1) (x / y) :=
  bounded_unpack_pack (by omega) (by omega) (bounded_div hjk hx hy)

/-- What lies between two doubles that are below a power of two is below it too. -/
theorem isBelow_of_between (ha : IsBelow k a) (hb : IsBelow k b) (hax : a ≤ x) (hxb : x ≤ b) :
    IsBelow k x := by
  have hlow : a.toModel.unpack.le x.toModel.unpack = true := of_decide_eq_true hax
  have hhigh : x.toModel.unpack.le b.toModel.unpack = true := of_decide_eq_true hxb
  have hfinite := isBelow_of_isFinite (isFinite_of_between ha hb hlow hhigh)
  rw [IsBelow] at hfinite ⊢
  obtain ⟨s, hx⟩ | ⟨s, m, e, hm, hx, hlt, hmin, -⟩ := hfinite.zero_or_finite
  · rw [hx]
    trivial
  · rw [hx] at hlow hhigh ⊢
    cases s with
    | positive => exact ⟨hlt, hmin, exponent_le_of_positive_le hhigh hb⟩
    | negative => exact ⟨hlt, hmin, exponent_le_of_le_negative hlow ha⟩

end Doubles

end Lindenmayer.Number.Binary64
