import Lindenmayer.Number.Decimal
import Lindenmayer.Number.Numeral
import Lindenmayer.Text.Lines
import Lindenmayer.Turtle.Box

/-!
# Segments as text

A table of segments has one segment a line, its four numbers in scientific form with single spaces
between them. What is read back may be laid out more freely: numbers separated by white space in
lines of equal length, with comments after a hash sign and empty lines anywhere.
-/
namespace Lindenmayer

namespace Segment

/-- As many digits after the point as keep every double apart from its neighbours. -/
def rowDigits : Nat := 18

def rowText (s : Segment) : List Char :=
  Text.joinWith ' ' (s.numbers.map (Number.scientificText rowDigits))

/-- The text of a table of segments. -/
def tableText (segments : List Segment) : List Char :=
  segments.flatMap fun s => s.rowText ++ ['\n']

/-- Where a comment begins. -/
def commentMark : Char := '#'

/-- The numbers of a line; what spells no number stands for the double that is none. -/
def lineNumbers (line : List Char) : List Float :=
  (Text.fields Text.isBlank (line.takeWhile (· ≠ commentMark))).map fun field =>
    (Number.readFloat? field).getD Number.RealNumeral.nan.toFloat

/-- Lines without numbers do not count; the others must have equally many. -/
def ofText? (text : List Char) : Option (List Segment) :=
  let lines := Text.splitOn '\n' (Text.normalizeLineEnds text)
  ofRows? ((lines.map lineNumbers).filter fun row => !row.isEmpty)

end Segment

end Lindenmayer
