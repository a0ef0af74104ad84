import Lindenmayer.Turtle.Drawing
import Lindenmayer.Value

/-!
# Segments as rows of numbers, and their bounding box

A segment is four numbers, so rows of numbers are segments when they are equally long and hold a
multiple of four numbers in all, each within the range of doubles. The box of some segments is the
least upright rectangle around their end points; a coordinate that is not a number spoils its axis.
-/
namespace Lindenmayer

/-- Why rows of numbers are no segments. -/
inductive TableError where
  /-- Two rows have different lengths. -/
  | uneven
  /-- An integer exceeds every finite double. -/
  | tooLarge
  /-- The numbers cannot be grouped by four. -/
  | remainder
  deriving DecidableEq

namespace Segment

def ofNumbers? : List Float → Option (List Segment)
  | [] => some []
  | x₁ :: y₁ :: x₂ :: y₂ :: rest => (ofNumbers? rest).map (⟨⟨x₁, y₁⟩, ⟨x₂, y₂⟩⟩ :: ·)
  | _ => none

/-- Whether all rows are equally long. -/
def isEven {α : Type} : List (List α) → Bool
  | [] => true
  | row :: rest => rest.all fun other => other.length == row.length

/-- Equally long rows, read one after the other. -/
def ofRows? (rows : List (List Float)) : Option (List Segment) :=
  if isEven rows then ofNumbers? rows.flatten else none

/-- Rows of numbers of any kind. Their lengths are compared first, and they are counted last. -/
def ofTable (rows : List (List Numeric)) : Except TableError (List Segment) :=
  if !isEven rows then .error .uneven
  else
    match rows.flatten.mapM Numeric.toFloat? with
    | none => .error .tooLarge
    | some numbers =>
      match ofNumbers? numbers with
      | none => .error .remainder
      | some segments => .ok segments

def numbers (s : Segment) : List Float := [s.start.x, s.start.y, s.finish.x, s.finish.y]

def ends (s : Segment) : List Point := [s.start, s.finish]

end Segment

/-- The lesser of two numbers, the second if they are equal, and no number if either is none. -/
def lesser (a b : Float) : Float :=
  if a.isNaN then a else if b.isNaN then b else if a < b then a else b

def greater (a b : Float) : Float :=
  if a.isNaN then a else if b.isNaN then b else if b < a then a else b

structure Box where
  xmin : Float
  ymin : Float
  xmax : Float
  ymax : Float

namespace Box

/-- The box of no segments. -/
def zero : Box := ⟨0, 0, 0, 0⟩

def ofPoint (p : Point) : Box := ⟨p.x, p.y, p.x, p.y⟩

def extend (b : Box) (p : Point) : Box :=
  ⟨lesser b.xmin p.x, lesser b.ymin p.y, greater b.xmax p.x, greater b.ymax p.y⟩

def ofPoints : List Point → Box
  | [] => zero
  | p :: rest => rest.foldl extend (ofPoint p)

def ofSegments (segments : List Segment) : Box := ofPoints (segments.flatMap Segment.ends)

def numbers (b : Box) : List Float := [b.xmin, b.ymin, b.xmax, b.ymax]

end Box

end Lindenmayer
