import Lindenmayer.Proofs.Number.Infinite
import Lindenmayer.Proofs.Turtle.Bounds
import Lindenmayer.Surface.Strokes

/-!
# Views that cannot be fitted

A view is fitted in steps: first its limits in x, then those in y, and the aspect last. When limits
are not finite the step that should set them fails, and what was set before it stays. A coordinate
in x or a margin that is not finite makes the first step fail, and so does an infinite height, as
the room around the drawing is a share of it. A height that is no number is passed over.
-/
namespace Lindenmayer

open Number

/-! ### The least and the greatest of numbers that need not be finite -/

section Extremes

variable {a b : Float}

theorem isNaN_lesser : (lesser a b).isNaN = (a.isNaN || b.isNaN) := by
  unfold lesser
  cases ha : a.isNaN with
  | true => rw [if_pos rfl, ha, Bool.true_or]
  | false =>
    cases hb : b.isNaN with
    | true => rw [if_neg Bool.false_ne_true, if_pos rfl, hb, Bool.false_or]
    | false =>
      rw [if_neg Bool.false_ne_true, if_neg Bool.false_ne_true]
      split <;> assumption

theorem isNaN_greater : (greater a b).isNaN = (a.isNaN || b.isNaN) := by
  unfold greater
  cases ha : a.isNaN with
  | true => rw [if_pos rfl, ha, Bool.true_or]
  | false =>
    cases hb : b.isNaN with
    | true => rw [if_neg Bool.false_ne_true, if_pos rfl, hb, Bool.false_or]
    | false =>
      rw [if_neg Bool.false_ne_true, if_neg Bool.false_ne_true]
      split <;> assumption

theorem isBoundedBelow_of_lesser (h : IsBoundedBelow (lesser a b)) :
    IsBoundedBelow a ∧ IsBoundedBelow b := by
  have hnan := h.isNaN_eq_false
  rw [isNaN_lesser, Bool.or_eq_false_iff] at hnan
  obtain ⟨hlt, heq⟩ | ⟨hnot, heq⟩ := lesser_cases hnan.1 hnan.2 <;> rw [heq] at h
  · exact ⟨h, isBoundedBelow_of_lt hlt⟩
  · exact ⟨Classical.byContradiction fun hlow => hnot (lt_of_not_isBoundedBelow hnan.1 hlow h), h⟩

theorem isBoundedAbove_of_greater (h : IsBoundedAbove (greater a b)) :
    IsBoundedAbove a ∧ IsBoundedAbove b := by
  have hnan := h.isNaN_eq_false
  rw [isNaN_greater, Bool.or_eq_false_iff] at hnan
  obtain ⟨hlt, heq⟩ | ⟨hnot, heq⟩ := greater_cases hnan.1 hnan.2 <;> rw [heq] at h
  · exact ⟨h, isBoundedAbove_of_lt hlt⟩
  · exact ⟨Classical.byContradiction fun hhigh =>
      hnot (lt_of_not_isBoundedAbove h hnan.1 hhigh), h⟩

theorem isBoundedAbove_lesser (ha : a.isNaN = false) (hb : b.isNaN = false)
    (h : IsBoundedAbove a ∨ IsBoundedAbove b) : IsBoundedAbove (lesser a b) := by
  obtain ⟨hlt, heq⟩ | ⟨hnot, heq⟩ := lesser_cases ha hb <;> rw [heq]
  · exact isBoundedAbove_of_lt hlt
  · refine Classical.byContradiction fun hhigh => hnot ?_
    exact lt_of_not_isBoundedAbove (h.resolve_right hhigh) hb hhigh

theorem isBoundedBelow_greater (ha : a.isNaN = false) (hb : b.isNaN = false)
    (h : IsBoundedBelow a ∨ IsBoundedBelow b) : IsBoundedBelow (greater a b) := by
  obtain ⟨hlt, heq⟩ | ⟨hnot, heq⟩ := greater_cases ha hb <;> rw [heq]
  · exact isBoundedBelow_of_lt hlt
  · refine Classical.byContradiction fun hlow => hnot ?_
    exact lt_of_not_isBoundedBelow hb hlow (h.resolve_right hlow)

/-- The least or the greatest of some coordinates. -/
def extreme (op : Float → Float → Float) : List Float → Float
  | [] => 0
  | c :: rest => rest.foldl op c

variable {op : Float → Float → Float} {P Q : Float → Prop} {cs : List Float}

/-- What is true of a result only if it is true of both numbers must be true of all. -/
theorem forall_of_extreme (hop : ∀ a b, P (op a b) → P a ∧ P b) (h : P (extreme op cs)) :
    ∀ c ∈ cs, P c := by
  cases cs with
  | nil => simp
  | cons c rest =>
    change P (rest.foldl op c) at h
    induction rest generalizing c with
    | nil => simpa using h
    | cons d rest ih =>
      have hall := List.forall_mem_cons.1 (ih (op c d) h)
      exact List.forall_mem_cons.2 ⟨(hop c d hall.1).1,
        List.forall_mem_cons.2 ⟨(hop c d hall.1).2, hall.2⟩⟩

/-- What one of two good numbers passes on to the result, one of all passes on. -/
theorem extreme_of_exists (hgood : ∀ a b, Q a → Q b → Q (op a b))
    (hop : ∀ a b, Q a → Q b → P a ∨ P b → P (op a b)) (hcs : ∀ c ∈ cs, Q c)
    (h : ∃ c ∈ cs, P c) : P (extreme op cs) := by
  cases cs with
  | nil => simp at h
  | cons c rest =>
    change P (rest.foldl op c)
    induction rest generalizing c with
    | nil => simpa using h
    | cons d rest ih =>
      simp only [List.forall_mem_cons] at hcs
      obtain ⟨hc, hd, hrest⟩ := hcs
      refine ih (op c d) (List.forall_mem_cons.2 ⟨hgood c d hc hd, hrest⟩) ?_
      obtain ⟨x, hx, hpx⟩ := h
      simp only [List.mem_cons] at hx
      rcases hx with rfl | rfl | hx
      · exact ⟨_, List.mem_cons_self, hop x d hc hd (Or.inl hpx)⟩
      · exact ⟨_, List.mem_cons_self, hop c x hc hd (Or.inr hpx)⟩
      · exact ⟨x, List.mem_cons_of_mem _ hx, hpx⟩

theorem isNaN_lesser_eq_false (a b : Float) (ha : a.isNaN = false) (hb : b.isNaN = false) :
    (lesser a b).isNaN = false := by
  rw [isNaN_lesser, ha, hb, Bool.or_false]

theorem isNaN_greater_eq_false (a b : Float) (ha : a.isNaN = false) (hb : b.isNaN = false) :
    (greater a b).isNaN = false := by
  rw [isNaN_greater, ha, hb, Bool.or_false]

/-- Among the coordinates is an infinite one and another that differs; none is no number. -/
def ReachInfinity (cs : List Float) : Prop :=
  (∀ c ∈ cs, c.isNaN = false) ∧
    ∃ c ∈ cs, ∃ d ∈ cs, c < d ∧ (c.isFinite = false ∨ d.isFinite = false)

instance (cs : List Float) : Decidable (ReachInfinity cs) := inferInstanceAs (Decidable (_ ∧ _))

/-- The bounds of the least and of the greatest coordinate bound all of them. -/
theorem isFinite_of_extremes (hlow : IsBoundedBelow (extreme lesser cs))
    (hhigh : IsBoundedAbove (extreme greater cs)) : ∀ c ∈ cs, c.isFinite = true := by
  have hbelow := forall_of_extreme (fun _ _ => isBoundedBelow_of_lesser) hlow
  have habove := forall_of_extreme (fun _ _ => isBoundedAbove_of_greater) hhigh
  exact fun c hc => isFinite_iff_isBounded.2 ⟨hbelow c hc, habove c hc⟩

theorem extremes_not_finite (h : ∃ c ∈ cs, c.isFinite = false) :
    (extreme lesser cs).isFinite = false ∨ (extreme greater cs).isFinite = false := by
  obtain ⟨c, hc, hnot⟩ := h
  cases hlow : (extreme lesser cs).isFinite with
  | false => exact Or.inl rfl
  | true =>
    refine Or.inr (Bool.eq_false_iff.2 fun hhigh => Bool.eq_false_iff.1 hnot ?_)
    exact isFinite_of_extremes (isFinite_iff_isBounded.1 hlow).1
      (isFinite_iff_isBounded.1 hhigh).2 c hc

theorem sub_extremes_eq_infinity (h : ReachInfinity cs) :
    (extreme greater cs - extreme lesser cs).toModel.unpack = .infinity .positive := by
  obtain ⟨hnumbers, c, hc, d, hd, hlt, hinfinite⟩ := h
  have habove : IsBoundedAbove (extreme lesser cs) :=
    extreme_of_exists isNaN_lesser_eq_false (fun _ _ => isBoundedAbove_lesser) hnumbers
      ⟨c, hc, isBoundedAbove_of_lt hlt⟩
  have hbelow : IsBoundedBelow (extreme greater cs) :=
    extreme_of_exists isNaN_greater_eq_false (fun _ _ => isBoundedBelow_greater) hnumbers
      ⟨d, hd, isBoundedBelow_of_lt hlt⟩
  refine sub_eq_infinity ?_
  by_cases hhigh : IsBoundedAbove (extreme greater cs)
  · refine Or.inr ⟨hbelow, eq_infinity_of_not_isBoundedBelow habove.isNaN_eq_false fun hlow => ?_⟩
    have hall := isFinite_of_extremes hlow hhigh
    exact hinfinite.elim (Bool.eq_false_iff.1 · (hall c hc)) (Bool.eq_false_iff.1 · (hall d hd))
  · exact Or.inl ⟨eq_infinity_of_not_isBoundedAbove hbelow.isNaN_eq_false hhigh, habove⟩

end Extremes

namespace Box

theorem foldl_extend (points : List Point) (b : Box) :
    points.foldl extend b =
      ⟨(points.map (·.x)).foldl lesser b.xmin, (points.map (·.y)).foldl lesser b.ymin,
        (points.map (·.x)).foldl greater b.xmax, (points.map (·.y)).foldl greater b.ymax⟩ := by
  induction points generalizing b with
  | nil => rfl
  | cons p rest ih => exact ih (b.extend p)

/-- Each side of a box is a least or a greatest coordinate. -/
theorem ofPoints_eq (points : List Point) :
    ofPoints points =
      ⟨extreme lesser (points.map (·.x)), extreme lesser (points.map (·.y)),
        extreme greater (points.map (·.x)), extreme greater (points.map (·.y))⟩ := by
  cases points with
  | nil => rfl
  | cons p rest => exact foldl_extend rest (ofPoint p)

end Box

/-! ### The steps of a fit -/

namespace View

/-- The limits in x around a box, the left one first. -/
def xLimits (b : Box) (margin : Float) : Float × Float :=
  (b.xmin - padding b margin, b.xmax + padding b margin)

/-- The limits in y around a box, the bottom one first. -/
def yLimits (b : Box) (margin : Float) : Float × Float :=
  (b.ymax + padding b margin, b.ymin - padding b margin)

def AreFinite (limits : Float × Float) : Prop :=
  limits.1.isFinite = true ∧ limits.2.isFinite = true

instance (limits : Float × Float) : Decidable (AreFinite limits) :=
  inferInstanceAs (Decidable (_ ∧ _))

/-- The view after its limits in x have been set. -/
def withX (v : View) (limits : Float × Float) : View :=
  { v with left := (apart limits.1 limits.2).1, right := (apart limits.1 limits.2).2 }

variable {v : View} {b : Box} {m : Float} {limits : Float × Float}

theorem setX_of_finite (h : AreFinite limits) : v.setX limits.1 limits.2 = .ok (v.withX limits) :=
  if_pos (Bool.and_eq_true_iff.2 h)

theorem setX_of_not_finite (h : ¬ AreFinite limits) :
    v.setX limits.1 limits.2 = .error ⟨.notFinite, v⟩ :=
  if_neg fun hand => h (Bool.and_eq_true_iff.1 hand)

theorem setY_of_finite (h : AreFinite limits) : ∃ v', v.setY limits.1 limits.2 = .ok v' :=
  ⟨_, if_pos (Bool.and_eq_true_iff.2 h)⟩

theorem setY_of_not_finite (h : ¬ AreFinite limits) :
    v.setY limits.1 limits.2 = .error ⟨.notFinite, v⟩ :=
  if_neg fun hand => h (Bool.and_eq_true_iff.1 hand)

theorem fit_eq (v : View) (b : Box) (m : Float) :
    v.fit b m = (v.setX (xLimits b m).1 (xLimits b m).2 >>= fun v =>
      v.setY (yLimits b m).1 (yLimits b m).2 >>= fun v => pure (v.setAspect .equal)) :=
  rfl

theorem fit_of_x_not_finite (h : ¬ AreFinite (xLimits b m)) :
    v.fit b m = .error ⟨.notFinite, v⟩ := by
  rw [fit_eq, setX_of_not_finite h]
  rfl

theorem fit_of_y_not_finite (hx : AreFinite (xLimits b m)) (hy : ¬ AreFinite (yLimits b m)) :
    v.fit b m = .error ⟨.notFinite, v.withX (xLimits b m)⟩ := by
  rw [fit_eq, setX_of_finite hx]
  change (setY _ _ _ >>= _) = _
  rw [setY_of_not_finite hy]
  rfl

theorem fit_of_finite (hx : AreFinite (xLimits b m)) (hy : AreFinite (yLimits b m)) :
    ∃ v', v.fit b m = .ok v' := by
  obtain ⟨v', hv'⟩ := setY_of_finite (v := v.withX (xLimits b m)) hy
  rw [fit_eq, setX_of_finite hx]
  change ∃ v', (setY _ _ _ >>= _) = _
  rw [hv']
  exact ⟨_, rfl⟩

/-- The step at which a fit fails, and what it leaves. -/
theorem fit_error_cases {e : ViewError} (h : v.fit b m = .error e) :
    e.fault = .notFinite ∧
      (¬ AreFinite (xLimits b m) ∧ e.view = v ∨
        AreFinite (xLimits b m) ∧ ¬ AreFinite (yLimits b m) ∧ e.view = v.withX (xLimits b m)) := by
  by_cases hx : AreFinite (xLimits b m)
  · by_cases hy : AreFinite (yLimits b m)
    · obtain ⟨v', hv'⟩ := fit_of_finite (v := v) hx hy
      rw [hv'] at h
      cases h
    · rw [fit_of_y_not_finite hx hy] at h
      obtain rfl := Except.error.inj h
      exact ⟨rfl, Or.inr ⟨hx, hy, rfl⟩⟩
  · rw [fit_of_x_not_finite hx] at h
    obtain rfl := Except.error.inj h
    exact ⟨rfl, Or.inl ⟨hx, rfl⟩⟩

theorem isBoundedAbove_of_largerOf {x y : Float} (h : IsBoundedAbove (largerOf x y)) :
    IsBoundedAbove x := by
  by_cases hlt : x < y
  · exact isBoundedAbove_of_lt hlt
  · rwa [largerOf, if_neg hlt] at h

theorem not_isBoundedAbove_largerOf {x y : Float} (hy : y.toModel.unpack = .infinity .positive) :
    ¬ IsBoundedAbove (largerOf x y) := by
  have hnot : ¬ IsBoundedAbove y := fun h => h.2 hy
  by_cases hlt : x < y
  · rwa [largerOf, if_pos hlt]
  · rw [largerOf, if_neg hlt]
    have hnumber : y.isNaN = false := isNaN_eq_false_iff.2 fun h => by rw [hy] at h; cases h
    exact fun hx => hlt (lt_of_not_isBoundedAbove hx hnumber hnot)

/-- An infinite height makes the room around the box infinite, or no number. -/
theorem padding_not_finite
    (h : m.isFinite = false ∨ (b.ymax - b.ymin).toModel.unpack = .infinity .positive) :
    (padding b m).isFinite = false := by
  refine not_isFinite_mul (h.imp_right fun hheight => Bool.eq_false_iff.2 fun hroom => ?_)
  have habove := (isFinite_iff_isBounded.1 hroom).2
  exact not_isBoundedAbove_largerOf hheight (isBoundedAbove_of_largerOf habove)

theorem not_areFinite_xLimits
    (h : (padding b m).isFinite = false ∨ b.xmin.isFinite = false ∨ b.xmax.isFinite = false) :
    ¬ AreFinite (xLimits b m) := by
  rintro ⟨hleft, hright⟩
  rcases h with h | h | h
  · rw [xLimits, not_isFinite_sub (Or.inr h)] at hleft
    cases hleft
  · rw [xLimits, not_isFinite_sub (Or.inl h)] at hleft
    cases hleft
  · rw [xLimits, not_isFinite_add (Or.inl h)] at hright
    cases hright

/-- The numbers for which the first step of a fit must fail. -/
theorem not_areFinite_xLimits_of_points {points : List Point}
    (h : m.isFinite = false ∨ (∃ x ∈ points.map (·.x), x.isFinite = false) ∨
      ReachInfinity (points.map (·.y))) :
    ¬ AreFinite (xLimits (Box.ofPoints points) m) := by
  refine not_areFinite_xLimits ?_
  rw [Box.ofPoints_eq]
  rcases h with h | h | h
  · exact Or.inl (padding_not_finite (Or.inl h))
  · exact Or.inr (extremes_not_finite h)
  · exact Or.inl (padding_not_finite (Or.inr (sub_extremes_eq_infinity h)))

end View

namespace Surface

open View

variable {s t : Surface} {segments : List Segment} {margin : Numeric} {e : ViewError}

theorem fit_error_inv (hfit : s.fit segments margin = (.error e, t))
    (hfault : e.fault = .notFinite) :
    ∃ m, margin.toFloat? = some m ∧ s.view.fit (Box.ofSegments segments) m = .error e ∧
      t = { s with view := e.view } := by
  rw [fit] at hfit
  cases hmargin : margin.toFloat? with
  | none =>
    rw [hmargin] at hfit
    obtain rfl := Except.error.inj (Prod.mk.inj hfit).1
    cases hfault
  | some m =>
    rw [hmargin] at hfit
    dsimp only at hfit
    cases hview : s.view.fit (Box.ofSegments segments) m with
    | ok v =>
      rw [hview] at hfit
      cases (Prod.mk.inj hfit).1
    | error e' =>
      rw [hview] at hfit
      obtain rfl := Except.error.inj (Prod.mk.inj hfit).1
      exact ⟨m, rfl, hview, (Prod.mk.inj hfit).2.symm⟩

/-- A fit that fails because limits are not finite leaves the strokes, the limits in y and the
aspect as they were. So it leaves those in x unless they are finite themselves: then it was the
limits in y that failed, and the ones in x have been set. Nothing changes if the margin or a
coordinate in x is not finite, or if the drawing is infinitely high. -/
theorem fit_fails_between_steps (hfit : s.fit segments margin = (.error e, t))
    (hfault : e.fault = .notFinite) :
    (t.picture = s.picture ∧ t.view.bottom = s.view.bottom ∧ t.view.top = s.view.top ∧
      t.view.aspect = s.view.aspect) ∧
    ∃ m, margin.toFloat? = some m ∧
      (t = s ∧ ¬ AreFinite (xLimits (Box.ofSegments segments) m) ∨
        t = { s with view := s.view.withX (xLimits (Box.ofSegments segments) m) } ∧
          AreFinite (xLimits (Box.ofSegments segments) m) ∧
          ¬ AreFinite (yLimits (Box.ofSegments segments) m)) ∧
      (m.isFinite = false ∨ (∃ p ∈ segments.flatMap Segment.ends, p.x.isFinite = false) ∨
        ReachInfinity ((segments.flatMap Segment.ends).map (·.y)) → t = s) := by
  obtain ⟨m, hmargin, hview, rfl⟩ := fit_error_inv hfit hfault
  obtain ⟨-, ⟨hx, hkept⟩ | ⟨hx, hy, hmoved⟩⟩ := fit_error_cases hview
  · rw [hkept]
    exact ⟨⟨rfl, rfl, rfl, rfl⟩, m, hmargin, Or.inl ⟨rfl, hx⟩, fun _ => rfl⟩
  · rw [hmoved]
    refine ⟨⟨rfl, rfl, rfl, rfl⟩, m, hmargin, Or.inr ⟨rfl, hx, hy⟩, fun h => absurd hx ?_⟩
    refine not_areFinite_xLimits_of_points (h.imp_right (Or.imp_left ?_))
    rintro ⟨p, hp, hnot⟩
    exact ⟨p.x, List.mem_map_of_mem hp, hnot⟩

/-- A drawing that is infinitely high. -/
def endless : List Segment := [⟨⟨0, 0⟩, ⟨1, 1 / 0⟩⟩]

theorem endless_fit_changes_nothing :
    ∃ e, blank.fit endless (.real defaultMargin) = (.error e, blank) ∧ e.fault = .notFinite := by
  have hx : ¬ AreFinite (xLimits (Box.ofSegments endless) defaultMargin) := by decide +kernel
  have hfit : blank.fit endless (.real defaultMargin) =
      blank.withView (.error ⟨.notFinite, blank.view⟩) :=
    congrArg blank.withView (fit_of_x_not_finite hx)
  obtain ⟨-, m, -, -, hsame⟩ := fit_fails_between_steps hfit rfl
  have hhigh : ReachInfinity ((endless.flatMap Segment.ends).map (·.y)) := by decide +kernel
  exact ⟨_, hfit.trans (congrArg (Prod.mk _) (hsame (Or.inr (Or.inr hhigh)))), rfl⟩

/-- A drawing with a coordinate in y that is no number. -/
def unlevel : List Segment := [⟨⟨0, 0⟩, ⟨1, 0 / 0⟩⟩]

theorem unlevel_fit_moves_sides :
    ∃ e t, blank.fit unlevel (.real defaultMargin) = (.error e, t) ∧ e.fault = .notFinite ∧
      t.view.left < blank.view.left ∧ blank.view.right < t.view.right := by
  have hx : AreFinite (xLimits (Box.ofSegments unlevel) defaultMargin) := by decide +kernel
  have hy : ¬ AreFinite (yLimits (Box.ofSegments unlevel) defaultMargin) := by decide +kernel
  refine ⟨_, _, congrArg blank.withView (fit_of_y_not_finite hx hy), rfl, ?_, ?_⟩
  · decide +kernel
  · decide +kernel

end Surface

end Lindenmayer
