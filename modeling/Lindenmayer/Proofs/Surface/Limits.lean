import Lindenmayer.Proofs.Number.Results
import Lindenmayer.Proofs.Surface.Fit

/-!
# Limits as exact numbers

The steps of a fit on exact numbers, with each result passed through an arithmetic. In exact
arithmetic the results stay as they are; in doubles they are rounded, and the limits that a surface
then has are the ones computed here. Limits that nearly coincide for their size are moved apart in
either.
-/
namespace Lindenmayer

open Number

/-- No side of the box is farther from its axis. -/
structure ExactBox.IsWithin (b : ExactBox) (r : ℚ) : Prop where
  xmin : |b.xmin| ≤ r
  ymin : |b.ymin| ≤ r
  xmax : |b.xmax| ≤ r
  ymax : |b.ymax| ≤ r

/-- The limits of a view as exact numbers. -/
structure ExactView where
  left : ℚ
  right : ℚ
  bottom : ℚ
  top : ℚ
  deriving DecidableEq

namespace ExactView

variable (A : Arithmetic)

/-- The limits are closer than they may be for their size, or both are as good as zero. -/
def NearlyCoincide (low high : ℚ) : Prop :=
  max |low| |high| < value View.negligible ∨
    A.round (high - low) ≤ A.round (max |low| |high| * value View.closeness)

instance (low high : ℚ) : Decidable (NearlyCoincide A low high) :=
  inferInstanceAs (Decidable (_ ∨ _))

/-- A lower and an upper limit, moved apart if they nearly coincide. -/
def spread (low high : ℚ) : ℚ × ℚ :=
  if max |low| |high| < value View.negligible then
    (-value View.spreading, value View.spreading)
  else if A.round (high - low) ≤ A.round (max |low| |high| * value View.closeness) then
    (A.round (low - A.round (value View.spreading * |low|)),
      A.round (high + A.round (value View.spreading * |high|)))
  else (low, high)

/-- Two limits in either order, which they keep, moved apart if they nearly coincide. -/
def apart (a b : ℚ) : ℚ × ℚ := if b < a then (spread A b a).swap else spread A a b

/-- The room around a box. -/
def room (b : ExactBox) (margin : ℚ) : ℚ :=
  A.round (A.round margin *
    max (max (A.round (b.xmax - b.xmin)) (A.round (b.ymax - b.ymin))) 1)

/-- The limits in x around a box, the left one first. -/
def xLimits (b : ExactBox) (margin : ℚ) : ℚ × ℚ :=
  (A.round (b.xmin - room A b margin), A.round (b.xmax + room A b margin))

/-- The limits in y around a box, the bottom one first. -/
def yLimits (b : ExactBox) (margin : ℚ) : ℚ × ℚ :=
  (A.round (b.ymax + room A b margin), A.round (b.ymin - room A b margin))

/-- The view of a box with room on all sides. -/
def around (b : ExactBox) (margin : ℚ) : ExactView :=
  let x := apart A (xLimits A b margin).1 (xLimits A b margin).2
  let y := apart A (yLimits A b margin).1 (yLimits A b margin).2
  ⟨x.1, x.2, y.1, y.2⟩

end ExactView

/-! ### The steps in doubles -/

namespace View

theorem standsFor_spreading : StandsFor spreading (value spreading) :=
  standsFor_value (by decide +kernel)

theorem standsFor_closeness : StandsFor closeness (value closeness) :=
  standsFor_value (by decide +kernel)

theorem standsFor_negligible : StandsFor negligible (value negligible) :=
  standsFor_value (by decide +kernel)

section Steps

variable {x y : Float} {p q : ℚ}

theorem standsFor_largerOf (hx : StandsFor x p) (hy : StandsFor y q) :
    StandsFor (largerOf x y) (max p q) := by
  by_cases hlt : x < y
  · rw [largerOf, if_pos hlt, max_eq_right ((hx.lt_iff hy).1 hlt).le]
    exact hy
  · rw [largerOf, if_neg hlt, max_eq_left (not_lt.1 (mt (hx.lt_iff hy).2 hlt))]
    exact hx

/-- The two limits stand for these numbers. -/
def Stand (limits : Float × Float) (w : ℚ × ℚ) : Prop :=
  StandsFor limits.1 w.1 ∧ StandsFor limits.2 w.2

/-- A number is finite if the result of an operation on it is. -/
theorem isFinite_of_result {op : Float → Float → Float}
    (hop : ∀ {x y}, x.isFinite = false ∨ y.isFinite = false → (op x y).isFinite = false)
    (h : (op x y).isFinite = true) : y.isFinite = true := by
  by_contra hnot
  rw [hop (Or.inr (Bool.eq_false_iff.2 hnot))] at h
  cases h

theorem stand_spread (hx : StandsFor x p) (hy : StandsFor y q)
    (hfinite : AreFinite (spread x y)) : Stand (spread x y) (ExactView.spread .double p q) := by
  have hsize := standsFor_largerOf hx.abs hy.abs
  have hshare : (largerOf x.abs y.abs * closeness).isFinite = true := by
    exact isFinite_mul_of_isBelow hsize.isFinite (by decide +kernel)
  have hclose : y - x ≤ largerOf x.abs y.abs * closeness ↔
      Arithmetic.double.round (q - p) ≤
        Arithmetic.double.round (max |p| |q| * value closeness) :=
    sub_le_iff hy hx (hsize.mul standsFor_closeness hshare)
  rw [spread] at hfinite ⊢
  rw [ExactView.spread]
  by_cases hsmall : largerOf x.abs y.abs < negligible
  · rw [if_pos hsmall, if_pos ((hsize.lt_iff standsFor_negligible).1 hsmall)]
    exact ⟨standsFor_spreading.neg, standsFor_spreading⟩
  · rw [if_neg hsmall] at hfinite ⊢
    rw [if_neg (mt (hsize.lt_iff standsFor_negligible).2 hsmall)]
    by_cases hnear : y - x ≤ largerOf x.abs y.abs * closeness
    · rw [if_pos hnear] at hfinite ⊢
      rw [if_pos (hclose.1 hnear)]
      obtain ⟨hlow, hhigh⟩ := hfinite
      have hdown := standsFor_spreading.mul hx.abs (isFinite_of_result not_isFinite_sub hlow)
      have hup := standsFor_spreading.mul hy.abs (isFinite_of_result not_isFinite_add hhigh)
      exact ⟨hx.sub hdown hlow, hy.add hup hhigh⟩
    · rw [if_neg hnear, if_neg (mt hclose.2 hnear)]
      exact ⟨hx, hy⟩

theorem stand_apart (hx : StandsFor x p) (hy : StandsFor y q) (hfinite : AreFinite (apart x y)) :
    Stand (apart x y) (ExactView.apart .double p q) := by
  rw [apart] at hfinite ⊢
  rw [ExactView.apart]
  by_cases hlt : y < x
  · rw [if_pos hlt] at hfinite ⊢
    rw [if_pos ((hy.lt_iff hx).1 hlt)]
    exact (stand_spread hy hx hfinite.symm).symm
  · rw [if_neg hlt] at hfinite ⊢
    rw [if_neg (mt (hy.lt_iff hx).2 hlt)]
    exact stand_spread hx hy hfinite

end Steps

section Fitting

variable {v v' : View} {b : Box} {w : ExactBox} {m x y : Float} {margin : ℚ}

/-- The sides of a box are found finite if the room around it is. -/
theorem standsFor_sides (hb : b.StandsFor w) (hx : w.xmin ≤ w.xmax) (hy : w.ymin ≤ w.ymax)
    (hfinite : (padding b m).isFinite = true) :
    StandsFor (b.xmax - b.xmin) (rounded (w.xmax - w.xmin)) ∧
      StandsFor (b.ymax - b.ymin) (rounded (w.ymax - w.ymin)) := by
  have habove := (isFinite_iff_isBounded.1 (isFinite_of_result not_isFinite_mul hfinite)).2
  have hlonger := isBoundedAbove_of_largerOf habove
  constructor
  · refine (hb.xmax.sub_of_le hb.xmin hx).resolve_right fun hinfinite => ?_
    exact (isBoundedAbove_of_largerOf hlonger).2 hinfinite
  · refine (hb.ymax.sub_of_le hb.ymin hy).resolve_right fun hinfinite => ?_
    exact not_isBoundedAbove_largerOf hinfinite hlonger

theorem standsFor_padding (hb : b.StandsFor w) (hx : w.xmin ≤ w.xmax) (hy : w.ymin ≤ w.ymax)
    (hm : StandsFor m (rounded margin)) (hfinite : (padding b m).isFinite = true) :
    StandsFor (padding b m) (ExactView.room .double w margin) := by
  obtain ⟨hwidth, hheight⟩ := standsFor_sides hb hx hy hfinite
  exact hm.mul (standsFor_largerOf (standsFor_largerOf hwidth hheight) standsFor_one) hfinite

/-- All limits are finite. -/
def IsFinite (v : View) : Prop := AreFinite (v.left, v.right) ∧ AreFinite (v.bottom, v.top)

instance (v : View) : Decidable v.IsFinite := inferInstanceAs (Decidable (_ ∧ _))

/-- The limits stand for those of the exact view. -/
structure StandsFor (v : View) (w : ExactView) : Prop where
  left : Number.StandsFor v.left w.left
  right : Number.StandsFor v.right w.right
  bottom : Number.StandsFor v.bottom w.bottom
  top : Number.StandsFor v.top w.top

/-- What a fit sets if it does not fail. -/
theorem fit_ok_inv (h : v.fit b m = .ok v') :
    AreFinite (xLimits b m) ∧ AreFinite (yLimits b m) ∧
      (v'.left, v'.right) = apart (xLimits b m).1 (xLimits b m).2 ∧
      (v'.bottom, v'.top) = apart (yLimits b m).1 (yLimits b m).2 ∧ v'.aspect = .equal := by
  by_cases hx : AreFinite (xLimits b m)
  · by_cases hy : AreFinite (yLimits b m)
    · have hset : (v.withX (xLimits b m)).setY (yLimits b m).1 (yLimits b m).2 = .ok _ :=
        if_pos (Bool.and_eq_true_iff.2 hy)
      rw [fit_eq, setX_of_finite hx] at h
      change (setY _ _ _ >>= _) = _ at h
      rw [hset] at h
      obtain rfl := Except.ok.inj h
      exact ⟨hx, hy, rfl, rfl, rfl⟩
    · rw [fit_of_y_not_finite hx hy] at h
      cases h
  · rw [fit_of_x_not_finite hx] at h
    cases h

/-- The limits that a fit sets are those around the exact box, each result rounded to a double. -/
theorem standsFor_of_fit (hfit : v.fit b m = .ok v') (hfinite : v'.IsFinite) (hb : b.StandsFor w)
    (hx : w.xmin ≤ w.xmax) (hy : w.ymin ≤ w.ymax) (hm : Number.StandsFor m (rounded margin)) :
    v'.StandsFor (ExactView.around .double w margin) := by
  obtain ⟨⟨hleft, hright⟩, ⟨hbottom, htop⟩, hxs, hys, -⟩ := fit_ok_inv hfit
  have hroom := standsFor_padding hb hx hy hm (isFinite_of_result not_isFinite_sub hleft)
  rw [IsFinite, hxs, hys] at hfinite
  have hsides := stand_apart (hb.xmin.sub hroom hleft) (hb.xmax.add hroom hright) hfinite.1
  have hends := stand_apart (hb.ymax.add hroom hbottom) (hb.ymin.sub hroom htop) hfinite.2
  rw [xLimits] at hxs
  rw [yLimits] at hys
  rw [← hxs] at hsides
  rw [← hys] at hends
  exact ⟨hsides.1, hsides.2, hends.1, hends.2⟩

end Fitting

/-! ### Fits that succeed -/

section Moderate

variable {v : View} {b : Box} {w : ExactBox} {m x y : Float} {p q margin : ℚ} {k : ℕ}

theorem abs_spreading_le : |value spreading| ≤ 2 ^ 0 := by
  rw [pow_zero, abs_of_nonneg]
  · exact (standsFor_spreading.le_iff standsFor_one).1 (by decide +kernel)
  · exact (standsFor_zero.le_iff standsFor_spreading).1 (by decide +kernel)

theorem areFinite_spread (hx : Number.StandsFor x p) (hy : Number.StandsFor y q)
    (hp : |p| ≤ 2 ^ k) (hq : |q| ≤ 2 ^ k) (hk : k + 1 < 1024) : AreFinite (spread x y) := by
  have hshare {z : Float} {r : ℚ} (hz : Number.StandsFor z r) (hr : |r| ≤ 2 ^ k) :
      Number.StandsFor (spreading * z.abs) (rounded (value spreading * |r|)) ∧
        |rounded (value spreading * |r|)| ≤ 2 ^ k := by
    have hmul := standsFor_spreading.mul_of_abs_le hz.abs abs_spreading_le
      ((abs_abs r).symm ▸ hr) (by omega)
    rwa [zero_add] at hmul
  obtain ⟨hlow, hlow'⟩ := hshare hx hp
  obtain ⟨hhigh, hhigh'⟩ := hshare hy hq
  rw [spread]
  split
  · exact ⟨standsFor_spreading.neg.isFinite, standsFor_spreading.isFinite⟩
  · split
    · exact ⟨(hx.sub_of_abs_le hlow hp hlow' hk).1.isFinite,
        (hy.add_of_abs_le hhigh hq hhigh' hk).1.isFinite⟩
    · exact ⟨hx.isFinite, hy.isFinite⟩

theorem areFinite_apart (hx : Number.StandsFor x p) (hy : Number.StandsFor y q)
    (hp : |p| ≤ 2 ^ k) (hq : |q| ≤ 2 ^ k) (hk : k + 1 < 1024) : AreFinite (apart x y) := by
  rw [apart]
  split
  · exact (areFinite_spread hy hx hq hp hk).symm
  · exact areFinite_spread hx hy hp hq hk

theorem abs_max_le {r : ℚ} (hp : |p| ≤ r) (hq : |q| ≤ r) : |max p q| ≤ r := by
  rcases max_choice p q with h | h <;> rw [h]
  · exact hp
  · exact hq

/-- The room around a box that is not too large. -/
theorem standsFor_padding_of_within (hb : b.StandsFor w) (hw : w.IsWithin (2 ^ k))
    (hm : Number.StandsFor m (rounded margin)) (hmargin : |margin| ≤ 2 ^ k) (hk : k ≤ 500) :
    Number.StandsFor (padding b m) (ExactView.room .double w margin) ∧
      |ExactView.room .double w margin| ≤ 2 ^ (k + (k + 1)) := by
  obtain ⟨hwidth, hwidth'⟩ := hb.xmax.sub_of_abs_le hb.xmin hw.xmax hw.xmin (by omega)
  obtain ⟨hheight, hheight'⟩ := hb.ymax.sub_of_abs_le hb.ymin hw.ymax hw.ymin (by omega)
  have hone : |(1 : ℚ)| ≤ 2 ^ (k + 1) := by
    rw [abs_one]
    exact one_le_pow₀ one_le_two
  exact hm.mul_of_abs_le (standsFor_largerOf (standsFor_largerOf hwidth hheight) standsFor_one)
    (abs_rounded_le (fitsPlaces_two_pow _) hmargin) (abs_max_le (abs_max_le hwidth' hheight') hone) (by omega)

/-- A view can be fitted to any drawing that is not too large, with any margin that is not. -/
theorem exists_fit_ok (v : View) (hb : b.StandsFor w) (hw : w.IsWithin (2 ^ k))
    (hm : Number.StandsFor m (rounded margin)) (hmargin : |margin| ≤ 2 ^ k) (hk : k ≤ 500) :
    ∃ v', v.fit b m = .ok v' ∧ v'.IsFinite := by
  obtain ⟨hroom, hroom'⟩ := standsFor_padding_of_within hb hw hm hmargin hk
  have hside {r : ℚ} (hr : |r| ≤ 2 ^ k) : |r| ≤ 2 ^ (k + (k + 1)) :=
    hr.trans (pow_le_pow_right₀ one_le_two (by omega))
  obtain ⟨hleft, hleft'⟩ := hb.xmin.sub_of_abs_le hroom (hside hw.xmin) hroom' (by omega)
  obtain ⟨hright, hright'⟩ := hb.xmax.add_of_abs_le hroom (hside hw.xmax) hroom' (by omega)
  obtain ⟨hbottom, hbottom'⟩ := hb.ymax.add_of_abs_le hroom (hside hw.ymax) hroom' (by omega)
  obtain ⟨htop, htop'⟩ := hb.ymin.sub_of_abs_le hroom (hside hw.ymin) hroom' (by omega)
  obtain ⟨v', hv'⟩ := fit_of_finite (v := v) (b := b) (m := m)
    ⟨hleft.isFinite, hright.isFinite⟩ ⟨hbottom.isFinite, htop.isFinite⟩
  obtain ⟨-, -, hxs, hys, -⟩ := fit_ok_inv hv'
  refine ⟨v', hv', ?_⟩
  rw [IsFinite, hxs, hys]
  exact ⟨areFinite_apart hleft hright hleft' hright' (by omega),
    areFinite_apart hbottom htop hbottom' htop' (by omega)⟩

end Moderate

end View

end Lindenmayer
