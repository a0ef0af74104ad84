import Lindenmayer.Number.Numeral
import Lindenmayer.Text.Quoted

/-!
# Values of unknown kind

Settings arrive from text fields and data files, so a setting may hold any value. A number is a
truth value, an integer of any size or a double; comparisons between them are exact. Messages
repeat a value in a fixed written form.
-/
namespace Lindenmayer

/-- Truth values count as the numbers 1 and 0. -/
inductive Numeric where
  | truth (b : Bool)
  | whole (i : Int)
  | real (x : Float)

inductive Value where
  | null
  | number (n : Numeric)
  | text (s : List Char)
  | list (items : List Value)
  | record (fields : List (List Char × Value))

namespace Numeric

def truthText (b : Bool) : List Char :=
  if b then ['T', 'r', 'u', 'e'] else ['F', 'a', 'l', 's', 'e']

def written : Numeric → List Char
  | truth b => truthText b
  | whole i => Number.intText i
  | real x => Number.floatText x

/-- The integer with the same value, for numbers that are integers by kind. -/
def int? : Numeric → Option Int
  | truth b => some (if b then 1 else 0)
  | whole i => some i
  | real _ => none

/-- The double nearest to the number, unless the number exceeds every finite double. -/
def toFloat? : Numeric → Option Float
  | truth b => some (if b then 1.0 else 0.0)
  | whole i => Number.Binary64.ofInt? i
  | real x => some x

/-- Half of the number, rounded only once, unless the half of an integer exceeds every finite
double. -/
def half? : Numeric → Option Float
  | truth b => some (if b then 0.5 else 0.0)
  | whole i => Number.Binary64.ofQuotient? i 2
  | real x => some (x / 2)

def isWritable : Numeric → Bool
  | whole i => Number.isWritable i
  | _ => true

/-- What is said of an integer that exceeds every finite double. -/
def tooLarge : List Char := "int too large to convert to float".toList

/-- No double that is not a number is below anything. -/
def below (n : Numeric) (k : Nat) : Bool :=
  match n with
  | truth b => decide ((if b then 1 else 0) < k)
  | whole i => decide (i < k)
  | real x => decide (x < Float.ofNat k)

def positive : Numeric → Bool
  | truth b => b
  | whole i => decide (0 < i)
  | real x => decide ((0 : Float) < x)

/-- An integer plus a number: an integer unless the number is a double. The sum with a double
does not exist if the integer exceeds every finite double. -/
def addInt? (i : Int) : Numeric → Option Numeric
  | truth b => some (whole (i + if b then 1 else 0))
  | whole j => some (whole (i + j))
  | real x => (Number.Binary64.ofInt? i).map fun y => real (y + x)

end Numeric

namespace Value

def separated (parts : List (List Char)) : List Char :=
  [',', ' '].intercalate parts

mutual

/-- The form in which a message repeats the value. -/
def written : Value → List Char
  | null => ['N', 'o', 'n', 'e']
  | number n => n.written
  | text s => Text.quote s
  | list items => '[' :: separated (writtenItems items) ++ [']']
  | record fields => '{' :: separated (writtenFields fields) ++ ['}']

def writtenItems : List Value → List (List Char)
  | [] => []
  | v :: rest => v.written :: writtenItems rest

def writtenFields : List (List Char × Value) → List (List Char)
  | [] => []
  | (key, v) :: rest => (Text.quote key ++ ':' :: ' ' :: v.written) :: writtenFields rest

end

mutual

/-- Whether all integers in the value can be written. -/
def isWritable : Value → Bool
  | number n => n.isWritable
  | list items => areWritable items
  | record fields => fieldsAreWritable fields
  | _ => true

def areWritable : List Value → Bool
  | [] => true
  | v :: rest => v.isWritable && areWritable rest

def fieldsAreWritable : List (List Char × Value) → Bool
  | [] => true
  | (_, v) :: rest => v.isWritable && fieldsAreWritable rest

end

/-- A message that ends with the value, unless that cannot be written. -/
def said (text : List Char) (v : Value) : List Char :=
  if v.isWritable then text ++ v.written else Number.tooLong

end Value

end Lindenmayer
