import Lindenmayer.Proofs.Surface.Limits

/-!
# The room around a drawing

A view that is fitted to a drawing reaches beyond its box on every side. In exact arithmetic the
room is the same share of the longer side on all four, except that limits which nearly coincide for
their size are moved further apart, so that every end lies strictly inside and the y axis points
down. In doubles rounding can bring the limits back to the ends, but not past them.
-/
namespace Lindenmayer

open Number

namespace ExactBox

/-- The box around some points. Around none it is the origin. -/
def IsBoxOf (b : ExactBox) (points : Set (ℚ × ℚ)) : Prop :=
  b.IsTight points ∨ points = ∅ ∧ b = ⟨0, 0, 0, 0⟩

variable {b : ExactBox} {points : Set (ℚ × ℚ)} {r : ℚ}

theorem IsBoxOf.x_le (h : b.IsBoxOf points) : b.xmin ≤ b.xmax := by
  obtain htight | ⟨-, rfl⟩ := h
  · exact htight.xmin.2 htight.xmax.1
  · exact le_rfl

theorem IsBoxOf.y_le (h : b.IsBoxOf points) : b.ymin ≤ b.ymax := by
  obtain htight | ⟨-, rfl⟩ := h
  · exact htight.ymin.2 htight.ymax.1
  · exact le_rfl

theorem IsBoxOf.contains (h : b.IsBoxOf points) :
    ∀ w ∈ points, b.xmin ≤ w.1 ∧ w.1 ≤ b.xmax ∧ b.ymin ≤ w.2 ∧ w.2 ≤ b.ymax := by
  intro w hw
  obtain htight | ⟨rfl, -⟩ := h
  · have hx : w.1 ∈ Prod.fst '' points := Set.mem_image_of_mem _ hw
    have hy : w.2 ∈ Prod.snd '' points := Set.mem_image_of_mem _ hw
    exact ⟨htight.xmin.2 hx, htight.xmax.2 hx, htight.ymin.2 hy, htight.ymax.2 hy⟩
  · exact absurd hw (Set.notMem_empty w)

/-- A box reaches no farther than its points. -/
theorem IsBoxOf.isWithin (h : b.IsBoxOf points) (hr : 0 ≤ r)
    (hpoints : ∀ w ∈ points, |w.1| ≤ r ∧ |w.2| ≤ r) : b.IsWithin r := by
  obtain htight | ⟨-, rfl⟩ := h
  · have hx {c : ℚ} (hc : c ∈ Prod.fst '' points) : |c| ≤ r := by
      obtain ⟨w, hw, rfl⟩ := hc
      exact (hpoints w hw).1
    have hy {c : ℚ} (hc : c ∈ Prod.snd '' points) : |c| ≤ r := by
      obtain ⟨w, hw, rfl⟩ := hc
      exact (hpoints w hw).2
    exact ⟨hx htight.xmin.1, hy htight.ymin.1, hx htight.xmax.1, hy htight.ymax.1⟩
  · have hzero : |(0 : ℚ)| ≤ r := by rwa [abs_zero]
    exact ⟨hzero, hzero, hzero, hzero⟩

end ExactBox

/-- Every drawing with finite coordinates has an exact box. -/
theorem Box.exists_isBoxOf {segments : List Segment} (hfinite : ∀ s ∈ segments, s.IsFinite) :
    ∃ b, (Box.ofSegments segments).StandsFor b ∧
      b.IsBoxOf (exactPoints (segments.flatMap Segment.ends)) := by
  rcases eq_or_ne segments [] with rfl | hne
  · refine ⟨⟨0, 0, 0, 0⟩, ⟨?_, ?_, ?_, ?_⟩, Or.inr ⟨by simp [exactPoints], rfl⟩⟩
    all_goals exact standsFor_zero
  · obtain ⟨b, hb, htight⟩ := exists_ofSegments hne hfinite
    exact ⟨b, hb, Or.inl htight⟩

namespace View

theorem spreading_pos : 0 < value spreading :=
  (standsFor_zero.lt_iff standsFor_spreading).1 (by decide +kernel)

theorem closeness_pos : 0 < value closeness :=
  (standsFor_zero.lt_iff standsFor_closeness).1 (by decide +kernel)

theorem closeness_le_one : value closeness ≤ 1 :=
  (standsFor_closeness.le_iff standsFor_one).1 (by decide +kernel)

theorem negligible_pos : 0 < value negligible :=
  (standsFor_zero.lt_iff standsFor_negligible).1 (by decide +kernel)

theorem negligible_lt_spreading : value negligible < value spreading :=
  (standsFor_negligible.lt_iff standsFor_spreading).1 (by decide +kernel)

end View

namespace ExactView

section Spreading

variable {A : Arithmetic} {p q : ℚ}

theorem spread_of_not_nearlyCoincide (h : ¬ NearlyCoincide A p q) : spread A p q = (p, q) := by
  obtain ⟨hsize, hnear⟩ := not_or.1 h
  rw [spread, if_neg hsize, if_neg hnear]

/-- Limits are moved away from each other. -/
theorem spread_outward (hp : A.Keeps p) (hq : A.Keeps q) :
    (spread A p q).1 ≤ p ∧ q ≤ (spread A p q).2 := by
  rw [spread]
  split
  · next hsize =>
    have hlt := hsize.trans View.negligible_lt_spreading
    exact ⟨(neg_le_neg ((le_max_left _ _).trans hlt.le)).trans (neg_abs_le p),
      (le_abs_self q).trans ((le_max_right _ _).trans hlt.le)⟩
  · split
    · have hshare (r : ℚ) : 0 ≤ A.round (value View.spreading * |r|) :=
        A.round_nonneg (mul_nonneg View.spreading_pos.le (abs_nonneg r))
      exact ⟨A.round_le hp (sub_le_self p (hshare p)),
        A.le_round hq (le_add_of_nonneg_right (hshare q))⟩
    · exact ⟨le_rfl, le_rfl⟩

/-- Exact limits that nearly coincide do not both stay. -/
theorem spread_ne_of_nearlyCoincide (h : NearlyCoincide .exact p q) :
    spread .exact p q ≠ (p, q) := by
  intro heq
  rw [spread] at heq
  split at heq
  · next hsize =>
    obtain rfl := (Prod.mk.inj heq).2
    have hlt := ((le_abs_self _).trans (le_max_right _ _)).trans_lt hsize
    exact hlt.not_ge View.negligible_lt_spreading.le
  · next hsize =>
    rw [if_pos (h.resolve_left hsize)] at heq
    have hzero (r : ℚ) (hr : value View.spreading * |r| = 0) : r = 0 :=
      abs_eq_zero.1 ((mul_eq_zero.1 hr).resolve_left View.spreading_pos.ne')
    have hp : p = 0 := hzero p (sub_eq_self.1 (Prod.mk.inj heq).1)
    have hq : q = 0 := hzero q (add_eq_left.1 (Prod.mk.inj heq).2)
    rw [hp, hq, abs_zero, max_self] at hsize
    exact hsize View.negligible_pos

theorem spread_exact_eq_iff : spread .exact p q = (p, q) ↔ ¬ NearlyCoincide .exact p q :=
  ⟨fun heq h => spread_ne_of_nearlyCoincide h heq, spread_of_not_nearlyCoincide⟩

end Spreading

/-- The limits lie around the box, by this much on every side or by more. -/
structure Encloses (v : ExactView) (b : ExactBox) (pad : ℚ) : Prop where
  left : v.left ≤ b.xmin - pad
  right : b.xmax + pad ≤ v.right
  top : v.top ≤ b.ymin - pad
  bottom : b.ymax + pad ≤ v.bottom

/-- The point lies within the limits and on none of them. -/
structure Shows (v : ExactView) (w : ℚ × ℚ) : Prop where
  left : v.left < w.1
  right : w.1 < v.right
  top : v.top < w.2
  bottom : w.2 < v.bottom

/-- The room on the left and on the right of the box is this much. -/
def HasSideRoom (v : ExactView) (b : ExactBox) (pad : ℚ) : Prop :=
  v.left = b.xmin - pad ∧ v.right = b.xmax + pad

instance (v : ExactView) (b : ExactBox) (pad : ℚ) : Decidable (v.HasSideRoom b pad) :=
  inferInstanceAs (Decidable (_ ∧ _))

/-- The room above and below the box is this much. -/
def HasEndRoom (v : ExactView) (b : ExactBox) (pad : ℚ) : Prop :=
  v.top = b.ymin - pad ∧ v.bottom = b.ymax + pad

instance (v : ExactView) (b : ExactBox) (pad : ℚ) : Decidable (v.HasEndRoom b pad) :=
  inferInstanceAs (Decidable (_ ∧ _))

/-- The view shows the points, x growing to the right and y downwards, with this room or more around
their box. -/
structure Frames (v : ExactView) (b : ExactBox) (points : Set (ℚ × ℚ)) (pad : ℚ) : Prop where
  rightward : v.left < v.right
  downward : v.top < v.bottom
  shows : ∀ w ∈ points, v.Shows w
  encloses : v.Encloses b pad
  wide : 2 * pad ≤ v.right - v.left
  high : 2 * pad ≤ v.bottom - v.top

/-- The view with the bottom at the top. -/
def flip (v : ExactView) : ExactView := { v with bottom := v.top, top := v.bottom }

/-- No point lies outside limits that do not cut into the box. -/
theorem Encloses.contains {v : ExactView} {b : ExactBox} {points : Set (ℚ × ℚ)}
    (h : v.Encloses b 0) (hb : b.IsBoxOf points) :
    ∀ w ∈ points, (v.left ≤ w.1 ∧ w.1 ≤ v.right) ∧ v.top ≤ w.2 ∧ w.2 ≤ v.bottom := by
  intro w hw
  obtain ⟨hleft, hright, htop, hbottom⟩ := hb.contains w hw
  obtain ⟨hleft', hright', htop', hbottom'⟩ := h
  rw [sub_zero] at hleft' htop'
  rw [add_zero] at hright' hbottom'
  exact ⟨⟨hleft'.trans hleft, hright.trans hright'⟩, htop'.trans htop, hbottom.trans hbottom'⟩

theorem Encloses.shows {v : ExactView} {b : ExactBox} {pad : ℚ} {points : Set (ℚ × ℚ)}
    (h : v.Encloses b pad) (hpad : 0 < pad) (hb : b.IsBoxOf points) : ∀ w ∈ points, v.Shows w := by
  intro w hw
  obtain ⟨hleft, hright, htop, hbottom⟩ := hb.contains w hw
  exact ⟨h.left.trans_lt ((sub_lt_self _ hpad).trans_le hleft),
    (hright.trans_lt (lt_add_of_pos_right _ hpad)).trans_le h.right,
    h.top.trans_lt ((sub_lt_self _ hpad).trans_le htop),
    (hbottom.trans_lt (lt_add_of_pos_right _ hpad)).trans_le h.bottom⟩

/-- Limits around a box with some room have all that can be asked of them. -/
theorem Encloses.frames {v : ExactView} {b : ExactBox} {pad : ℚ} {points : Set (ℚ × ℚ)}
    (h : v.Encloses b pad) (hpad : 0 < pad) (hb : b.IsBoxOf points) : v.Frames b points pad := by
  have hwide : 2 * pad ≤ v.right - v.left := by linarith [h.left, h.right, hb.x_le]
  have hhigh : 2 * pad ≤ v.bottom - v.top := by linarith [h.top, h.bottom, hb.y_le]
  exact ⟨by linarith, by linarith, h.shows hpad hb, h, hwide, hhigh⟩

section Around

variable {A : Arithmetic} {b : ExactBox} {margin : ℚ}

theorem room_nonneg (hmargin : 0 ≤ margin) : 0 ≤ room A b margin :=
  A.round_nonneg (mul_nonneg (A.round_nonneg hmargin) (zero_le_one.trans (le_max_right _ _)))

/-- A lower limit is set first in x, and an upper one in y. -/
theorem around_x (h : (xLimits A b margin).1 ≤ (xLimits A b margin).2) :
    ((around A b margin).left, (around A b margin).right) =
      spread A (xLimits A b margin).1 (xLimits A b margin).2 := by
  change apart A _ _ = _
  rw [apart, if_neg h.not_gt]

theorem around_y (h : (yLimits A b margin).2 < (yLimits A b margin).1) :
    ((around A b margin).top, (around A b margin).bottom) =
      spread A (yLimits A b margin).2 (yLimits A b margin).1 := by
  change (apart A _ _).swap = _
  rw [apart, if_pos h, Prod.swap_swap]

theorem around_x_outward (h : (xLimits A b margin).1 ≤ (xLimits A b margin).2) :
    (around A b margin).left ≤ (xLimits A b margin).1 ∧
      (xLimits A b margin).2 ≤ (around A b margin).right := by
  have hspread := spread_outward (A.keeps_round (b.xmin - room A b margin))
    (A.keeps_round (b.xmax + room A b margin))
  exact ⟨(congrArg Prod.fst (around_x h)).trans_le hspread.1,
    hspread.2.trans_eq (congrArg Prod.snd (around_x h)).symm⟩

theorem around_y_outward (h : (yLimits A b margin).2 < (yLimits A b margin).1) :
    (around A b margin).top ≤ (yLimits A b margin).2 ∧
      (yLimits A b margin).1 ≤ (around A b margin).bottom := by
  have hspread := spread_outward (A.keeps_round (b.ymin - room A b margin))
    (A.keeps_round (b.ymax + room A b margin))
  exact ⟨(congrArg Prod.fst (around_y h)).trans_le hspread.1,
    hspread.2.trans_eq (congrArg Prod.snd (around_y h)).symm⟩

/-- Limits in y that are the same number are set like limits in x. -/
theorem around_y_upside_down (h : (yLimits A b margin).1 = (yLimits A b margin).2) :
    (around A b margin).bottom ≤ (yLimits A b margin).1 ∧
      (yLimits A b margin).2 ≤ (around A b margin).top := by
  have hlimits : ((around A b margin).bottom, (around A b margin).top) =
      spread A (yLimits A b margin).1 (yLimits A b margin).2 := by
    change apart A _ _ = _
    rw [apart, if_neg h.le.not_gt]
  have hspread := spread_outward (A.keeps_round (b.ymax + room A b margin))
    (A.keeps_round (b.ymin - room A b margin))
  exact ⟨(congrArg Prod.fst hlimits).trans_le hspread.1,
    hspread.2.trans_eq (congrArg Prod.snd hlimits).symm⟩

/-- The sides of the box are kept, and they are in order. -/
structure Suits (A : Arithmetic) (b : ExactBox) : Prop where
  xmin : A.Keeps b.xmin
  ymin : A.Keeps b.ymin
  xmax : A.Keeps b.xmax
  ymax : A.Keeps b.ymax
  x_le : b.xmin ≤ b.xmax
  y_le : b.ymin ≤ b.ymax

theorem xLimits_outward (hb : Suits A b) (hmargin : 0 ≤ margin) :
    (xLimits A b margin).1 ≤ b.xmin ∧ b.xmax ≤ (xLimits A b margin).2 :=
  ⟨A.round_le hb.xmin (sub_le_self _ (room_nonneg hmargin)),
    A.le_round hb.xmax (le_add_of_nonneg_right (room_nonneg hmargin))⟩

theorem yLimits_outward (hb : Suits A b) (hmargin : 0 ≤ margin) :
    (yLimits A b margin).2 ≤ b.ymin ∧ b.ymax ≤ (yLimits A b margin).1 :=
  ⟨A.round_le hb.ymin (sub_le_self _ (room_nonneg hmargin)),
    A.le_round hb.ymax (le_add_of_nonneg_right (room_nonneg hmargin))⟩

/-- No side of the box lies outside, whatever the arithmetic. If both limits in y become the same
number, they lose their order, and the view is upside down. -/
theorem around_encloses (hb : Suits A b) (hmargin : 0 ≤ margin) :
    (around A b margin).Encloses b 0 ∨
      (yLimits A b margin).1 = (yLimits A b margin).2 ∧ (around A b margin).flip.Encloses b 0 := by
  obtain ⟨hleft, hright⟩ := xLimits_outward hb hmargin
  obtain ⟨htop, hbottom⟩ := yLimits_outward hb hmargin
  have hx := around_x_outward (hleft.trans (hb.x_le.trans hright))
  rcases (htop.trans (hb.y_le.trans hbottom)).lt_or_eq with hlt | heq
  · have hy := around_y_outward hlt
    refine Or.inl ⟨?_, ?_, ?_, ?_⟩ <;> simp only [sub_zero, add_zero]
    · exact hx.1.trans hleft
    · exact hright.trans hx.2
    · exact hy.1.trans htop
    · exact hbottom.trans hy.2
  · have hy := around_y_upside_down heq.symm
    refine Or.inr ⟨heq.symm, ?_, ?_, ?_, ?_⟩ <;> simp only [sub_zero, add_zero]
    · exact hx.1.trans hleft
    · exact hright.trans hx.2
    · exact hy.1.trans (heq.symm.le.trans htop)
    · exact (hbottom.trans heq.symm.le).trans hy.2

theorem suits_exact (hx : b.xmin ≤ b.xmax) (hy : b.ymin ≤ b.ymax) : Suits .exact b :=
  ⟨trivial, trivial, trivial, trivial, hx, hy⟩

theorem le_room_exact (b : ExactBox) (hmargin : 0 ≤ margin) : margin ≤ room .exact b margin :=
  le_mul_of_one_le_right hmargin (le_max_right _ _)

theorem yLimits_exact_lt (hy : b.ymin ≤ b.ymax) (hmargin : 0 < margin) :
    (yLimits .exact b margin).2 < (yLimits .exact b margin).1 := by
  have hroom := hmargin.trans_le (le_room_exact b hmargin.le)
  exact (sub_lt_self _ hroom).trans_le (hy.trans (le_add_of_nonneg_right hroom.le))

/-- In exact arithmetic the limits are those asked for or lie beyond them. -/
theorem around_exact_encloses (hx : b.xmin ≤ b.xmax) (hy : b.ymin ≤ b.ymax)
    (hmargin : 0 < margin) :
    (around .exact b margin).Encloses b (room .exact b margin) := by
  obtain ⟨hleft, hright⟩ := xLimits_outward (suits_exact hx hy) hmargin.le
  have hxs := around_x_outward (hleft.trans (hx.trans hright))
  have hys := around_y_outward (yLimits_exact_lt hy hmargin)
  exact ⟨hxs.1, hxs.2, hys.1, hys.2⟩

/-- In exact arithmetic the limits in x are those asked for unless these nearly coincide. -/
theorem hasSideRoom_iff (hx : b.xmin ≤ b.xmax) (hy : b.ymin ≤ b.ymax) (hmargin : 0 < margin) :
    (around .exact b margin).HasSideRoom b (room .exact b margin) ↔
      ¬ NearlyCoincide .exact (b.xmin - room .exact b margin) (b.xmax + room .exact b margin) := by
  obtain ⟨hleft, hright⟩ := xLimits_outward (suits_exact hx hy) hmargin.le
  rw [HasSideRoom, ← Prod.mk.injEq, around_x (hleft.trans (hx.trans hright))]
  exact spread_exact_eq_iff

theorem hasEndRoom_iff (hy : b.ymin ≤ b.ymax) (hmargin : 0 < margin) :
    (around .exact b margin).HasEndRoom b (room .exact b margin) ↔
      ¬ NearlyCoincide .exact (b.ymin - room .exact b margin) (b.ymax + room .exact b margin) := by
  rw [HasEndRoom, ← Prod.mk.injEq, around_y (yLimits_exact_lt hy hmargin)]
  exact spread_exact_eq_iff

/-- Limits that leave some room do not nearly coincide if that room is not too small for the
distance from the axis. -/
theorem not_nearlyCoincide {low high pad r : ℚ} (hle : low ≤ high) (hlow : |low| ≤ r)
    (hhigh : |high| ≤ r) (hnear : r * value View.closeness < pad)
    (hpad : value View.negligible ≤ pad) :
    ¬ NearlyCoincide .exact (low - pad) (high + pad) := by
  have hpos : 0 < pad := View.negligible_pos.trans_le hpad
  have hleft : |low - pad| ≤ r + pad := (abs_sub _ _).trans (add_le_add hlow (abs_of_pos hpos).le)
  have hright : |high + pad| ≤ r + pad :=
    (abs_add_le _ _).trans (add_le_add hhigh (abs_of_pos hpos).le)
  rintro (hsize | hclose)
  · -- limits as far apart as that cannot both be as good as zero
    have hlow' := (le_max_left _ _).trans_lt hsize
    have hhigh' := (le_max_right _ _).trans_lt hsize
    linarith [neg_abs_le (low - pad), le_abs_self (high + pad)]
  · change high + pad - (low - pad) ≤ max |low - pad| |high + pad| * value View.closeness at hclose
    have hmost : max |low - pad| |high + pad| * value View.closeness ≤
        (r + pad) * value View.closeness :=
      mul_le_mul_of_nonneg_right (max_le hleft hright) View.closeness_pos.le
    have hshare : pad * value View.closeness ≤ pad :=
      mul_le_of_le_one_right hpos.le View.closeness_le_one
    linarith

/-- In exact arithmetic the room is the same on all sides if the drawing is not too far away for
the margin. -/
theorem room_even_of_near {r : ℚ} (hx : b.xmin ≤ b.xmax) (hy : b.ymin ≤ b.ymax)
    (hb : b.IsWithin r) (hnear : r * value View.closeness < margin)
    (hmargin : value View.negligible ≤ margin) :
    (around .exact b margin).HasSideRoom b (room .exact b margin) ∧
      (around .exact b margin).HasEndRoom b (room .exact b margin) := by
  have hpos : 0 < margin := View.negligible_pos.trans_le hmargin
  have hroom := le_room_exact b hpos.le
  exact ⟨(hasSideRoom_iff hx hy hpos).2
      (not_nearlyCoincide hx hb.xmin hb.xmax (hnear.trans_le hroom) (hmargin.trans hroom)),
    (hasEndRoom_iff hy hpos).2
      (not_nearlyCoincide hy hb.ymin hb.ymax (hnear.trans_le hroom) (hmargin.trans hroom))⟩

end Around

end ExactView

namespace Surface

open ExactView

variable {s t : Surface} {segments : List Segment} {m : Numeric} {margin : ℚ} {b : ExactBox}

theorem fit_ok_inv (hfit : s.fit segments m = (.ok (), t)) :
    ∃ x, m.toFloat? = some x ∧ s.view.fit (Box.ofSegments segments) x = .ok t.view := by
  rw [fit] at hfit
  cases hm : m.toFloat? with
  | none =>
    rw [hm] at hfit
    cases (Prod.mk.inj hfit).1
  | some x =>
    rw [hm] at hfit
    dsimp only at hfit
    cases hview : s.view.fit (Box.ofSegments segments) x with
    | error e =>
      rw [hview] at hfit
      cases (Prod.mk.inj hfit).1
    | ok v =>
      rw [hview] at hfit
      obtain rfl := (Prod.mk.inj hfit).2
      exact ⟨x, rfl, hview⟩

/-- The view that a fit sets is the one around the exact box, each result rounded to a double. -/
theorem standsFor_of_fit (hfit : s.fit segments m = (.ok (), t)) (hview : t.view.IsFinite)
    (hb : (Box.ofSegments segments).StandsFor b) (hx : b.xmin ≤ b.xmax) (hy : b.ymin ≤ b.ymax)
    (hm : m.StandsFor margin) : t.view.StandsFor (around .double b margin) := by
  obtain ⟨x, hmargin, hfit⟩ := fit_ok_inv hfit
  exact View.standsFor_of_fit hfit hview hb hx hy (hm.toFloat? hmargin)

/-- A surface can be fitted to any drawing that is not too large, with any margin that is not. -/
theorem exists_fit_ok (s : Surface) {k : ℕ} (hb : (Box.ofSegments segments).StandsFor b)
    (hwithin : b.IsWithin (2 ^ k)) (hm : m.StandsFor margin) (hmargin : |margin| ≤ 2 ^ k)
    (hk : k ≤ 500) : ∃ t, s.fit segments m = (.ok (), t) ∧ t.view.IsFinite := by
  have hsize : |margin| < 2 ^ 1023 :=
    hmargin.trans_lt (pow_lt_pow_right₀ one_lt_two (by omega))
  obtain ⟨x, hx⟩ := hm.exists_toFloat? hsize
  obtain ⟨v, hfit, hview⟩ := s.view.exists_fit_ok hb hwithin (hm.toFloat? hx) hmargin hk
  refine ⟨{ s with view := v }, ?_, hview⟩
  rw [fit, hx]
  dsimp only
  rw [hfit]
  rfl

/-- A view is fitted to a drawing as it would be in exact arithmetic, but for the rounding of each
result. In exact arithmetic x grows to the right and y downwards, and every end lies inside and on
no limit. The distance from the box of the drawing to the limits is the margin's share of its longer
side, which counts as at least one. So it is on both sides of an axis, unless the limits there
nearly coincide for their size: then they are moved further apart, and it is more. -/
theorem fit_shows_everything (hfinite : ∀ s ∈ segments, s.IsFinite) (hmargin : 0 < margin) :
    ∃ b, (Box.ofSegments segments).StandsFor b ∧
      b.IsBoxOf (exactPoints (segments.flatMap Segment.ends)) ∧
      ∃ v pad, v = around .exact b margin ∧
        pad = margin * max (max (b.xmax - b.xmin) (b.ymax - b.ymin)) 1 ∧
        v.Frames b (exactPoints (segments.flatMap Segment.ends)) pad ∧
        (v.HasSideRoom b pad ↔ ¬ NearlyCoincide .exact (b.xmin - pad) (b.xmax + pad)) ∧
        (v.HasEndRoom b pad ↔ ¬ NearlyCoincide .exact (b.ymin - pad) (b.ymax + pad)) ∧
        ∀ (s : Surface) (m : Numeric), m.StandsFor margin →
          (∀ t, s.fit segments m = (.ok (), t) → t.view.IsFinite →
            t.view.StandsFor (around .double b margin)) ∧
          ∀ k ≤ 500, margin ≤ 2 ^ k →
            (∀ w ∈ exactPoints (segments.flatMap Segment.ends), |w.1| ≤ 2 ^ k ∧ |w.2| ≤ 2 ^ k) →
            ∃ t, s.fit segments m = (.ok (), t) ∧ t.view.IsFinite := by
  obtain ⟨b, hb, hbox⟩ := Box.exists_isBoxOf hfinite
  have hpad := hmargin.trans_le (le_room_exact b hmargin.le)
  have hencloses := around_exact_encloses hbox.x_le hbox.y_le hmargin
  refine ⟨b, hb, hbox, _, _, rfl, rfl, hencloses.frames hpad hbox,
    hasSideRoom_iff hbox.x_le hbox.y_le hmargin, hasEndRoom_iff hbox.y_le hmargin,
    fun s m hm => ⟨fun t hfit hview => ?_, fun k hk hsize hpoints => ?_⟩⟩
  · exact standsFor_of_fit hfit hview hb hbox.x_le hbox.y_le hm
  · have hwithin := hbox.isWithin (pow_nonneg zero_le_two k) hpoints
    exact exists_fit_ok s hb hwithin hm ((abs_of_pos hmargin).trans_le hsize) hk

/-- A level line. -/
def level : List Segment := [⟨⟨0, 0⟩, ⟨3, 0⟩⟩]

theorem standsFor_level : (Box.ofSegments level).StandsFor ⟨0, 0, 3, 0⟩ := by
  constructor <;> exact standsFor_of_value_eq (by decide +kernel) (by decide +kernel)

theorem level_is_fitted :
    (∀ s ∈ level, s.IsFinite) ∧ ∃ v : ExactView, v = ⟨-6, 9, 6, -6⟩ ∧
      v.Frames ⟨0, 0, 3, 0⟩ (exactPoints (level.flatMap Segment.ends)) 6 ∧
      v.HasSideRoom ⟨0, 0, 3, 0⟩ 6 ∧ v.HasEndRoom ⟨0, 0, 3, 0⟩ 6 ∧
      ∃ t, blank.fit level (.whole 2) = (.ok (), t) ∧ t.view.StandsFor v := by
  have hfinite : ∀ s ∈ level, s.IsFinite := by decide +kernel
  obtain ⟨b, hb, hbox, v, pad, hv, hpad, hframes, hsides, hends, hfit⟩ :=
    fit_shows_everything hfinite (two_pos : (0 : ℚ) < 2)
  obtain rfl := hb.unique standsFor_level
  obtain rfl : pad = 6 := hpad.trans (by decide +kernel)
  obtain ⟨hview, hok⟩ := hfit blank (.whole 2) (Int.cast_ofNat 2).symm
  obtain ⟨t, ht, hlimits⟩ := hok 2 (by decide) (by decide +kernel) fun w hw => by
    obtain ⟨hleft, hright, htop, hbottom⟩ := hbox.contains w hw
    dsimp only at hleft hright htop hbottom
    constructor <;> rw [abs_le] <;> constructor <;> linarith
  have hrounded : around .double ⟨0, 0, 3, 0⟩ 2 = ⟨-6, 9, 6, -6⟩ := by decide +kernel
  have hexact : around .exact ⟨0, 0, 3, 0⟩ 2 = ⟨-6, 9, 6, -6⟩ := by decide +kernel
  refine ⟨hfinite, v, hv.trans hexact, hframes, hsides.2 (by decide +kernel),
    hends.2 (by decide +kernel), t, ht, ?_⟩
  rw [hv, hexact, ← hrounded]
  exact hview t ht hlimits

/-- A dot far from the y axis for the room that a margin of two leaves around it. -/
def farDot : List Segment := [⟨⟨4503599627370496, 0⟩, ⟨4503599627370496, 0⟩⟩]

theorem standsFor_farDot : (Box.ofSegments farDot).StandsFor ⟨2 ^ 52, 0, 2 ^ 52, 0⟩ := by
  constructor <;> exact standsFor_of_value_eq (by decide +kernel) (by decide +kernel)

/-- The room around it is not the same on all sides, neither in exact arithmetic nor in doubles. -/
theorem farDot_room_is_uneven :
    (∀ s ∈ farDot, s.IsFinite) ∧ ∃ b, (Box.ofSegments farDot).StandsFor b ∧
      ∃ pad, pad = 2 * max (max (b.xmax - b.xmin) (b.ymax - b.ymin)) 1 ∧
        ¬ (around .exact b 2).HasSideRoom b pad ∧ (around .exact b 2).HasEndRoom b pad ∧
        ∃ t v, blank.fit farDot (.whole 2) = (.ok (), t) ∧ t.view.StandsFor v ∧
          ¬ v.HasSideRoom b pad ∧ v.HasEndRoom b pad := by
  have hmargin : (Numeric.whole 2).StandsFor 2 := (Int.cast_ofNat 2).symm
  have hwithin : ExactBox.IsWithin ⟨2 ^ 52, 0, 2 ^ 52, 0⟩ (2 ^ 52) := by
    constructor <;> decide +kernel
  obtain ⟨t, ht, hview⟩ :=
    exists_fit_ok blank standsFor_farDot hwithin hmargin (by decide +kernel) (by decide)
  have hstands := standsFor_of_fit ht hview standsFor_farDot le_rfl le_rfl hmargin
  refine ⟨by decide +kernel, _, standsFor_farDot, _, rfl, ?_, ?_, t, _, ht, hstands, ?_, ?_⟩
  all_goals decide +kernel

/-- In doubles, too, no end lies outside the limits. But a limit can come to lie on an end, and
rounding can turn the view upside down. -/
theorem fit_leaves_nothing_outside (hfinite : ∀ s ∈ segments, s.IsFinite) (hmargin : 0 ≤ margin)
    (hm : m.StandsFor margin) (hfit : s.fit segments m = (.ok (), t)) (hview : t.view.IsFinite) :
    ∀ p ∈ segments.flatMap Segment.ends, (t.view.left ≤ p.x ∧ p.x ≤ t.view.right) ∧
      (t.view.top ≤ p.y ∧ p.y ≤ t.view.bottom ∨ t.view.bottom ≤ p.y ∧ p.y ≤ t.view.top) := by
  obtain ⟨b, hb, hbox⟩ := Box.exists_isBoxOf hfinite
  obtain ⟨hleft, hright, hbottom, htop⟩ :=
    standsFor_of_fit hfit hview hb hbox.x_le hbox.y_le hm
  have hsuits : Suits .double b :=
    ⟨hb.xmin.fits, hb.ymin.fits, hb.xmax.fits, hb.ymax.fits, hbox.x_le, hbox.y_le⟩
  intro p hp
  obtain ⟨w, hw⟩ := Segment.exists_standsFor hfinite p hp
  have hmem : w ∈ exactPoints (segments.flatMap Segment.ends) := ⟨p, hp, hw⟩
  obtain hupright | ⟨-, hflipped⟩ := around_encloses hsuits hmargin
  · obtain ⟨⟨hl, hr⟩, ht, hb⟩ := hupright.contains hbox w hmem
    exact ⟨⟨(hleft.le_iff hw.1).2 hl, (hw.1.le_iff hright).2 hr⟩,
      Or.inl ⟨(htop.le_iff hw.2).2 ht, (hw.2.le_iff hbottom).2 hb⟩⟩
  · obtain ⟨⟨hl, hr⟩, ht, hb⟩ := hflipped.contains hbox w hmem
    exact ⟨⟨(hleft.le_iff hw.1).2 hl, (hw.1.le_iff hright).2 hr⟩,
      Or.inr ⟨(hbottom.le_iff hw.2).2 ht, (hw.2.le_iff htop).2 hb⟩⟩

/-- The view of a dot that lies so far down that the room around it is lost in rounding. -/
example :
    let v := (blank.fit [⟨⟨0, 1e20⟩, ⟨0, 1e20⟩⟩] (.real View.defaultMargin)).2.view
    v.bottom < v.top := by
  decide +kernel

end Surface

end Lindenmayer
