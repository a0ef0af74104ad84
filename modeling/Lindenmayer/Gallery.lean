import Lindenmayer.Config

/-!
# Known systems

A few systems by name, with the angle and the pen that suit them. Their rules are kept as text and
read like any other.
-/
namespace Lindenmayer

structure Preset where
  name : List Char
  start : Word
  rulesText : List Char
  angle : Int
  pen : Word

namespace Preset

def ofStrings (name start rulesText : String) (angle : Int) (pen : String) : Preset :=
  ⟨name.toList, start.toList, rulesText.toList, angle, pen.toList⟩

/-- The known systems in the order in which they are listed. -/
def all : List Preset := [
  ofStrings "sierpinski_triangle" "F-G-G" "F=F-G+F+G-F\nG=GG" 120 "FG",
  ofStrings "sierpinski_arrowhead" "A" "A=B-A-B\nB=A+B+A" 60 "AB",
  ofStrings "dragon_curve" "FX" "X=X+YF+\nY=-FX-Y" 90 "F",
  ofStrings "barnsley_fern" "X" "X=F+[[X]-X]-F[-FX]+X\nF=FF" 25 "F",
  ofStrings "sticks" "X" "X=F[+X]F[-X]+X\nF=FF" 20 "F",
  ofStrings "hilbert" "L" "L=+RF-LFL-FR+\nR=-LF+RFR+FL-" 90 "F",
  ofStrings "pentaplexity" "F++F++F++F++F" "F=F++F++F+++++F-F++F" 36 "F",
  ofStrings "algae" "A" "A=AB\nB=A" 25 "AB",
  ofStrings "bush" "F" "F=F[+F]F[-F]F" 25 "F"]

def find? (name : List Char) : Option Preset := all.find? fun p => p.name == name

/-- The settings of a preset, with its own turn and pen unless others are given. -/
def settings (p : Preset) (iterations : Value) (angle : Option Value) (step : Value)
    (pen : Option Pen) : Settings where
  start := some p.start
  rulesText := some p.rulesText
  iterations := iterations
  angle := angle.getD (.number (.whole p.angle))
  step := step
  pen := pen.getD (.only p.pen)

end Preset

end Lindenmayer
