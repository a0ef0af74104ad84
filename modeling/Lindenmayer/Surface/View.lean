import Lindenmayer.Turtle.Box
import Lindenmayer.Value

/-!
# Views

The part of the plane that a surface shows: limits in x from left to right, and in y from bottom to
top. Because y grows downward, the bottom limit is the greater one. A limit must be finite; an
axis that cannot take its new limits keeps the old ones, and nothing after it changes. Limits that
coincide, or nearly so for their size, would show nothing and are moved apart. Before a view with
equal units is painted, the axis that shows too much for the shape of the canvas is cut.
-/
namespace Lindenmayer

/-- Whether a unit must be equally long on both axes. -/
inductive Aspect where
  | auto
  | equal
  deriving DecidableEq

def Aspect.name : Aspect → String
  | auto => "auto"
  | equal => "equal"

structure View where
  left : Float
  right : Float
  bottom : Float
  top : Float
  aspect : Aspect

/-- Why a view cannot take new limits. -/
inductive ViewFault where
  /-- A limit is not finite. -/
  | notFinite
  /-- Half of an integer exceeds every finite double. -/
  | halfTooLarge
  /-- An integer exceeds every finite double. -/
  | tooLarge
  deriving DecidableEq

/-- The text of a fault; limits that are not finite have none. -/
def ViewFault.message? : ViewFault → Option (List Char)
  | notFinite => none
  | halfTooLarge => some "integer division result too large for a float".toList
  | tooLarge => some Numeric.tooLarge

/-- The view is the one that remains after the fault. -/
structure ViewError where
  fault : ViewFault
  view : View

namespace View

def initial : View := ⟨0, 1, 0, 1, .auto⟩

/-- The first argument unless the second is greater. -/
def largerOf (a b : Float) : Float := if a < b then b else a

/-- The share of its size by which each of two limits that nearly coincide is moved. -/
def spreading : Float := 0.05

/-- Limits closer than this share of their size nearly coincide. -/
def closeness : Float := 1e-15

/-- Limits below this size are as good as zero: a million of the least normal double for each unit
that is close. -/
def negligible : Float := 1e6 / closeness * 2.2250738585072014e-308

/-- A lower and an upper limit, moved apart if they nearly coincide. -/
def spread (low high : Float) : Float × Float :=
  let size := largerOf low.abs high.abs
  if size < negligible then (-spreading, spreading)
  else if high - low ≤ size * closeness then
    (low - spreading * low.abs, high + spreading * high.abs)
  else (low, high)

/-- Two limits in either order, which they keep, moved apart if they nearly coincide. -/
def apart (a b : Float) : Float × Float :=
  if b < a then (spread b a).swap else spread a b

def setX (v : View) (left right : Float) : Except ViewError View :=
  if left.isFinite && right.isFinite then
    .ok { v with left := (apart left right).1, right := (apart left right).2 }
  else .error ⟨.notFinite, v⟩

def setY (v : View) (bottom top : Float) : Except ViewError View :=
  if bottom.isFinite && top.isFinite then
    .ok { v with bottom := (apart bottom top).1, top := (apart bottom top).2 }
  else .error ⟨.notFinite, v⟩

def setAspect (v : View) (aspect : Aspect) : View := { v with aspect := aspect }

/-- The fraction of the height between the top and the origin. -/
def originHeight : Float := 0.95

/-- A canvas of the given size, a pixel a unit, with the origin in the middle of its width. -/
def showCanvas (v : View) (width height : Numeric) : Except ViewError View :=
  let v := v.setAspect .auto
  match width.half? with
  | none => .error ⟨.halfTooLarge, v⟩
  | some half =>
    match v.setX (-half) half, height.toFloat? with
    | .error e, _ => .error e
    | .ok v, none => .error ⟨.tooLarge, v⟩
    | .ok v, some height => v.setY ((1 - originHeight) * height) (-originHeight * height)

/-- The room around a box: a share of its longer side, which counts as at least one. -/
def padding (b : Box) (margin : Float) : Float :=
  margin * largerOf (largerOf (b.xmax - b.xmin) (b.ymax - b.ymin)) 1

/-- The box with room on all sides. -/
def fit (v : View) (b : Box) (margin : Float) : Except ViewError View := do
  let pad := padding b margin
  let v ← v.setX (b.xmin - pad) (b.xmax + pad)
  let v ← v.setY (b.ymax + pad) (b.ymin - pad)
  return v.setAspect .equal

/-- The share of a box's longer side that is left around it if nothing else is said. -/
def defaultMargin : Float := 0.05

/-- The distance between two limits, which counts as at least a tiny amount. -/
def extent (a b : Float) : Float := largerOf (b - a).abs 1e-30

/-- The middle of two limits; it is infinite if their sum is. -/
def centre (a b : Float) : Float := 0.5 * (a + b)

/-- Differences from the shape of the canvas below this share are not seen. -/
def tolerance : Float := 0.005

/-- The view cut so that a unit is equally long on both axes of a canvas whose height is the given
share of its width. The axis that shows too much keeps its middle. -/
def cut (v : View) (shape : Float) : Except ViewError View :=
  let width := extent v.left v.right
  let height := extent v.bottom v.top
  let excess := shape * width / height - 1
  if excess.abs < tolerance then .ok v
  else if excess < 0 then
    let middle := centre v.top v.bottom
    let reach := shape * width / 2
    v.setY (middle + reach) (middle - reach)
  else
    let middle := centre v.left v.right
    let reach := height / shape / 2
    v.setX (middle - reach) (middle + reach)

end View

end Lindenmayer
