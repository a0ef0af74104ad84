import Lindenmayer.Number.Binary64

/-!
# Canvases

A canvas is measured in pixels. Its sides are finite doubles that are cut to their whole parts, so
neither of them passes the greatest double, and every canvas has a view.
-/
namespace Lindenmayer

structure Canvas where
  width : Int
  height : Int
  width_le : width.natAbs ≤ Number.Binary64.greatest
  height_le : height.natAbs ≤ Number.Binary64.greatest
  deriving DecidableEq

namespace Canvas

/-- The canvas with these sides, unless one of them is too long. -/
def ofSides? (width height : Int) : Option Canvas :=
  if h : width.natAbs ≤ Number.Binary64.greatest ∧ height.natAbs ≤ Number.Binary64.greatest then
    some ⟨width, height, h.1, h.2⟩
  else none

theorem natAbs_le_greatest (side : UInt16) :
    (side.toNat : Int).natAbs ≤ Number.Binary64.greatest :=
  Nat.le_trans (Nat.le_of_lt side.toNat_lt) (by decide +kernel)

/-- A canvas of a size that screens have. -/
def ofPixels (width height : UInt16) : Canvas where
  width := width.toNat
  height := height.toNat
  width_le := natAbs_le_greatest width
  height_le := natAbs_le_greatest height

/-- A canvas without area. -/
def empty : Canvas := ofPixels 0 0

end Canvas

end Lindenmayer
