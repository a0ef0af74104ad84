import Lindenmayer.Turtle.Drawing
import Lindenmayer.Value

/-!
# Walks in numbers of any kind

A step and a turn may be given as integers of any size. No walk begins with a turn that exceeds
every finite double. A step that does so is noticed by the first symbol that draws: the symbols
before it only steer, and an infinite heading is noticed before the step is.
-/
namespace Lindenmayer

/-- Why a walk fails. -/
inductive WalkError where
  | disoriented (e : Disoriented)
  /-- A step or a turn exceeds every finite double. -/
  | tooLarge
  deriving DecidableEq

def WalkError.message : WalkError → List Char
  | disoriented e => e.message
  | tooLarge => Numeric.tooLarge

namespace Word

/-- The symbols up to the first one that draws, which is included, if there is one. -/
def untilDrawing? (w : Word) (pen : Pen) : Option Word :=
  match w.dropWhile fun c => pen.action c ≠ .draw with
  | [] => none
  | c :: _ => some ((w.takeWhile fun c => pen.action c ≠ .draw) ++ [c])

/-- The segments that a word draws with a step and a turn in degrees. -/
def walk (w : Word) (step angle : Numeric) (pen : Pen) : Except WalkError (List Segment) :=
  match angle.toFloat?, step.toFloat? with
  | none, _ => .error .tooLarge
  | some angle, some step => (w.segments (.ofDegrees step angle) pen).mapError .disoriented
  | some angle, none =>
    match w.untilDrawing? pen with
    | none => .ok []
    | some beginning =>
      match beginning.segments (.ofDegrees 0 angle) pen with
      | .error e => .error (.disoriented e)
      | .ok _ => .error .tooLarge

end Word

end Lindenmayer
