import Lindenmayer.Animation.Stage
import Lindenmayer.Surface.View

/-!
# Surfaces

A surface is a picture and the view of it. Strokes and the view are independent: drawing changes no
limit, and a new view moves no stroke.
-/
namespace Lindenmayer

structure Surface where
  picture : Picture Segment
  view : View

namespace Surface

def blank : Surface := ⟨Picture.blank, View.initial⟩

/-- The colour behind the strokes. -/
def background : String := "#000000"

def strokeColor : String := "#7cfc00"

def lineWidth : Float := 1

/-- The left, bottom, right and top edges of the drawing area within the canvas. -/
def area : List Float := [0, 0, 1, 1]

def axisVisible : Bool := false

/-- The end points that strokes through the segments really have: an end that is not finite is left
out, and its segment shrinks to the other one. -/
def visibleEnds (segments : List Segment) : List Point :=
  (segments.flatMap Segment.ends).filter fun p => p.x.isFinite && p.y.isFinite

def clear (s : Surface) : Surface := { s with picture := Picture.blank }

def stroke (s : Surface) (segments : Array Segment) : Surface :=
  { s with picture := s.picture.stroke segments }

def withView (s : Surface) (r : Except ViewError View) : Except ViewError Unit × Surface :=
  match r with
  | .ok v => (.ok (), { s with view := v })
  | .error e => (.error e, { s with view := e.view })

def showCanvas (s : Surface) (width height : Numeric) : Except ViewError Unit × Surface :=
  s.withView (s.view.showCanvas width height)

/-- Shows all segments with a margin around them. A margin that exceeds every finite double
changes nothing. -/
def fit (s : Surface) (segments : List Segment) (margin : Numeric) :
    Except ViewError Unit × Surface :=
  match margin.toFloat? with
  | none => s.withView (.error ⟨.tooLarge, s.view⟩)
  | some margin => s.withView (s.view.fit (Box.ofSegments segments) margin)

/-- Cuts the view to the shape of what it is painted on. -/
def cut (s : Surface) (shape : Float) : Except ViewError Unit × Surface :=
  s.withView (s.view.cut shape)

end Surface

end Lindenmayer
