import Lindenmayer.Rules.Table
import Lindenmayer.Text.Letter

/-!
# What a symbol does

Four symbols steer: plus and minus turn, brackets save and restore. Any other symbol draws or
does nothing, and the pen decides which; the steering symbols never draw.
-/
namespace Lindenmayer

/-- The symbols that draw: every letter, or those of a list. -/
inductive Pen where
  | letters
  | only (symbols : Word)
  deriving DecidableEq

def Pen.draws : Pen → Char → Bool
  | letters, c => Text.isLetter c
  | only symbols, c => symbols.contains c

/-- With y growing downward, a growing heading turns the turtle to its right. -/
inductive Action where
  | right
  | left
  | save
  | restore
  | draw
  | ignore
  deriving DecidableEq

def Pen.action (pen : Pen) (c : Char) : Action :=
  if c = '+' then .right
  else if c = '-' then .left
  else if c = '[' then .save
  else if c = ']' then .restore
  else if pen.draws c then .draw
  else .ignore

end Lindenmayer
