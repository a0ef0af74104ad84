import Lindenmayer.Proofs.Number.Results
import Lindenmayer.Surface.Canvas
import Lindenmayer.Surface.View

/-!
# The view of a canvas

Every canvas has a view. Its sides and half of each are finite doubles, and so are the parts of the
height above and below the origin, which are shares of it. What was in view before plays no part.
-/
namespace Lindenmayer

namespace View

open Number

theorem isFinite_originHeight :
    (1 - originHeight).isFinite = true ∧ (-originHeight).isFinite = true := by
  decide +kernel

/-- The heights above and below the origin are shares of the height. -/
theorem isFinite_originHeight_mul {height : Float} (h : height.isFinite = true) :
    ((1 - originHeight) * height).isFinite = true ∧ (-originHeight * height).isFinite = true := by
  obtain ⟨habove, hbelow⟩ := isFinite_originHeight
  have hshares : |value (1 - originHeight)| ≤ 1 ∧ |value (-originHeight)| ≤ 1 := by
    simp only [abs_le]
    decide +kernel
  exact ⟨((standsFor_value habove).mul_of_abs_le_one (standsFor_value h) hshares.1).isFinite,
    ((standsFor_value hbelow).mul_of_abs_le_one (standsFor_value h) hshares.2).isFinite⟩

/-- A view depends on nothing but the size that it is shown for. -/
theorem showCanvas_eq_ok {v u : View} {width height : Numeric}
    (h : v.showCanvas width height = .ok u) (v' : View) : v'.showCanvas width height = .ok u := by
  rw [showCanvas] at h ⊢
  cases hhalf : width.half? with
  | none =>
    rw [hhalf] at h
    cases h
  | some half =>
    rw [hhalf] at h
    dsimp only [setX, setAspect] at h ⊢
    split at h
    · cases h
    · cases h
    · next w height hw hheight =>
      split at hw
      · next hfinite =>
        obtain rfl := Except.ok.inj hw
        rw [if_pos hfinite, hheight]
        dsimp only [setY] at h ⊢
        split at h
        · next hvertical =>
          rw [if_pos hvertical]
          exact h
        · cases h
      · cases hw

theorem exists_showCanvas (v : View) (canvas : Canvas) :
    ∃ shown, v.showCanvas (.whole canvas.width) (.whole canvas.height) = .ok shown := by
  obtain ⟨half, hhalf, hwide⟩ := Binary64.exists_ofQuotient? canvas.width_le (j := 1) (by decide)
  obtain ⟨height, hheight, hhigh⟩ :=
    Binary64.exists_ofQuotient? canvas.height_le (j := 0) (by decide)
  have hhalf : (Numeric.whole canvas.width).half? = some half := hhalf
  have hheight : (Numeric.whole canvas.height).toFloat? = some height := hheight
  have hleft : (-half).isFinite = true := (standsFor_value hwide).neg.isFinite
  obtain ⟨habove, hbelow⟩ := isFinite_originHeight_mul hhigh
  rw [showCanvas, hhalf, hheight]
  dsimp only
  rw [setX, if_pos (by rw [hleft, hwide]; rfl)]
  dsimp only
  rw [setY, if_pos (by rw [habove, hbelow]; rfl)]
  exact ⟨_, rfl⟩

end View

/-- The view of a canvas. -/
def Canvas.view (canvas : Canvas) : View :=
  match View.initial.showCanvas (.whole canvas.width) (.whole canvas.height) with
  | .ok v => v
  | .error e => e.view

theorem View.showCanvas_eq (v : View) (canvas : Canvas) :
    v.showCanvas (.whole canvas.width) (.whole canvas.height) = .ok canvas.view := by
  obtain ⟨shown, hshown⟩ := initial.exists_showCanvas canvas
  rw [showCanvas_eq_ok hshown v, Canvas.view, hshown]

end Lindenmayer
