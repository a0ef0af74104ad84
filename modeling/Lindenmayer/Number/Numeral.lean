import Lindenmayer.Number.Decimal
import Lindenmayer.Text.Blank
import Lindenmayer.Text.Digit

/-!
# Numbers read from text

The spellings accepted for integers and reals: white space around the number, an optional sign,
decimal digits of any script, and single underscores between digits. A real may have a point, a
power of ten, or be one of the words `inf`, `infinity` and `nan` in any case. Reading a real never
fails for its size: it rounds to the nearest double, which may be infinite or zero.
-/
namespace Lindenmayer.Number

/-- White space that may surround a number. The separators U+001C to U+001F, white space
elsewhere, are not allowed here. -/
def isNumberBlank (c : Char) : Bool :=
  Text.isBlank c && !(28 ≤ c.toNat && c.toNat ≤ 31)

def stripNumber (s : List Char) : List Char :=
  Text.dropEnd isNumberBlank (s.dropWhile isNumberBlank)

/-- Digits of every script as ASCII digits; other characters stay. -/
def asciiDigits (s : List Char) : List Char :=
  s.map fun c => match Text.digitValue? c with
    | some d => Nat.digitChar d
    | none => c

/-- The text without its underscores, each of which must stand between two digits. -/
def dropUnderscores? : (afterDigit : Bool) → List Char → Option (List Char)
  | _, [] => some []
  | afterDigit, '_' :: rest =>
    match rest with
    | c :: _ => if afterDigit && c.isDigit then dropUnderscores? false rest else none
    | [] => none
  | _, c :: rest => (dropUnderscores? c.isDigit rest).map (c :: ·)

/-- The characters of a number without surrounding white space, foreign digits and
underscores. -/
def plainNumeral? (s : List Char) : Option (List Char) :=
  dropUnderscores? false (stripNumber (asciiDigits s))

/-- Whether a minus sign was present, and the text after the sign. -/
def takeSign : List Char → Bool × List Char
  | '-' :: rest => (true, rest)
  | '+' :: rest => (false, rest)
  | s => (false, s)

def natOfDigits (s : List Char) : Nat := s.foldl (fun n c => 10 * n + (c.toNat - 48)) 0

def readInt? (s : List Char) : Option Int := do
  let plain ← plainNumeral? s
  let (negative, digits) := takeSign plain
  if digits.isEmpty || !digits.all Char.isDigit || maxIntDigits < digits.length then none
  else
    let n : Int := natOfDigits digits
    some (if negative then -n else n)

/-- A real number as written. -/
inductive RealNumeral where
  | nan
  | infinite (negative : Bool)
  | decimal (negative : Bool) (value : Decimal)

/-- The exponent after the mantissa: nothing, or a letter e and a signed integer. -/
def readExponent? : List Char → Option Int
  | [] => some 0
  | c :: rest =>
    if c = 'e' ∨ c = 'E' then
      let (negative, digits) := takeSign rest
      if digits.isEmpty || !digits.all Char.isDigit then none
      else
        let n : Int := natOfDigits digits
        some (if negative then -n else n)
    else none

/-- Digits with at most one point among or around them, then the exponent. -/
def readDecimal? (s : List Char) : Option Decimal := do
  let whole := s.takeWhile Char.isDigit
  let rest := s.dropWhile Char.isDigit
  let (fraction, rest) := match rest with
    | '.' :: rest => (rest.takeWhile Char.isDigit, rest.dropWhile Char.isDigit)
    | rest => ([], rest)
  if whole.isEmpty && fraction.isEmpty then none
  else
    let e ← readExponent? rest
    some ⟨natOfDigits (whole ++ fraction), e - fraction.length⟩

def RealNumeral.ofText? (s : List Char) : Option RealNumeral := do
  let plain ← plainNumeral? s
  let (negative, body) := takeSign plain
  let word := body.map Char.toLower
  if word = ['i', 'n', 'f'] ∨ word = ['i', 'n', 'f', 'i', 'n', 'i', 't', 'y'] then
    some (.infinite negative)
  else if word = ['n', 'a', 'n'] then some .nan
  else (readDecimal? body).map (.decimal negative)

/-- Powers of ten far outside the range of doubles are settled without computing them. -/
def RealNumeral.toFloat : RealNumeral → Float
  | .nan => Float.ofBits 0x7ff8000000000000
  | .infinite negative => Binary64.nearest negative (Nat.pow 10 400) 1
  | .decimal negative ⟨digits, exponent⟩ =>
    let top := exponent + (natDigits digits).length
    if digits = 0 ∨ top < -400 then Binary64.nearest negative 0 1
    else if 400 < top then Binary64.nearest negative (Nat.pow 10 400) 1
    else Binary64.nearest negative (digits * Nat.pow 10 exponent.toNat)
        (Nat.pow 10 (-exponent).toNat)

def readFloat? (s : List Char) : Option Float := (RealNumeral.ofText? s).map RealNumeral.toFloat

example : readInt? [' ', '-', '1', '_', '0', '\n'] = some (-10) := by decide +kernel

example : readInt? ['1', '_', '_', '0'] = none := by decide +kernel

example : (readFloat? ['.', '5', 'e', '1']).map Float.toBits = some (5 : Float).toBits := by
  decide +kernel

end Lindenmayer.Number
