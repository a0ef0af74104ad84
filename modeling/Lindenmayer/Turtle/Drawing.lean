import Lindenmayer.Turtle.Pen

/-!
# The turtle

A turtle walks over a plane whose y coordinate grows downward. It starts at the origin, heading
up, and carries a stack of saved poses. Every drawing symbol moves it one step ahead and leaves a
segment; restoring with nothing saved does nothing. A heading that has grown infinite has no
direction, and drawing with it fails. All arithmetic is on doubles.
-/
namespace Lindenmayer

structure Point where
  x : Float
  y : Float

structure Segment where
  start : Point
  finish : Point

/-- Where the turtle is and where it looks, as an angle in radians. -/
structure Pose where
  position : Point
  heading : Float

/-- The length of a step and the angle of a turn, in radians. -/
structure Gait where
  step : Float
  turn : Float

/-- The heading is infinite. -/
structure Disoriented where
  deriving DecidableEq

def Disoriented.message (_ : Disoriented) : List Char := "math domain error".toList

def pi : Float := 3.141592653589793

def origin : Point := ⟨0, 0⟩

def Pose.initial : Pose := ⟨origin, -pi / 2⟩

def Gait.ofDegrees (step angle : Float) : Gait := ⟨step, angle * pi / 180⟩

namespace Pose

def turnRight (g : Gait) (p : Pose) : Pose := { p with heading := p.heading + g.turn }

def turnLeft (g : Gait) (p : Pose) : Pose := { p with heading := p.heading - g.turn }

/-- The point one step ahead. -/
def ahead (g : Gait) (p : Pose) : Point :=
  ⟨p.position.x + g.step * p.heading.cos, p.position.y + g.step * p.heading.sin⟩

/-- The step ahead and the pose after it. -/
def advance (g : Gait) (p : Pose) : Except Disoriented (Segment × Pose) :=
  if p.heading.isInf then .error ⟨⟩
  else .ok (⟨p.position, p.ahead g⟩, { p with position := p.ahead g })

end Pose

structure Turtle where
  pose : Pose
  /-- The saved poses, the latest first. -/
  saved : List Pose

namespace Turtle

def initial : Turtle := ⟨Pose.initial, []⟩

/-- What one action draws, and the turtle after it. -/
def act (g : Gait) (t : Turtle) : Action → Except Disoriented (Option Segment × Turtle)
  | .right => .ok (none, { t with pose := t.pose.turnRight g })
  | .left => .ok (none, { t with pose := t.pose.turnLeft g })
  | .save => .ok (none, { t with saved := t.pose :: t.saved })
  | .restore =>
    match t.saved with
    | [] => .ok (none, t)
    | pose :: saved => .ok (none, ⟨pose, saved⟩)
  | .draw =>
    match t.pose.advance g with
    | .error e => .error e
    | .ok (segment, pose) => .ok (some segment, { t with pose := pose })
  | .ignore => .ok (none, t)

/-- Follows a word symbol by symbol; `drawn` holds the segments so far, the latest first. -/
def follow (g : Gait) (pen : Pen) :
    (drawn : List Segment) → Turtle → Word → Except Disoriented (List Segment × Turtle)
  | drawn, t, [] => .ok (drawn, t)
  | drawn, t, c :: w =>
    match t.act g (pen.action c) with
    | .error e => .error e
    | .ok (none, t) => follow g pen drawn t w
    | .ok (some segment, t) => follow g pen (segment :: drawn) t w

end Turtle

/-- The segments that a word draws, in the order of drawing. -/
def Word.segments (w : Word) (g : Gait) (pen : Pen) : Except Disoriented (List Segment) :=
  (Turtle.initial.follow g pen [] w).map fun result => result.1.reverse

end Lindenmayer
