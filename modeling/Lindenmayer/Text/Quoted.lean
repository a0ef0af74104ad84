import Lindenmayer.Text.Printable

/-!
# Quoted text

The form in which a message repeats a text it was given: between quotation marks, on one line,
with every character that is not printable spelled out by its code point.
-/
namespace Lindenmayer.Text

/-- `width` lower-case hexadecimal digits of `n`, most significant first. -/
def hexDigits : (width n : Nat) → List Char
  | 0, _ => []
  | width + 1, n => hexDigits width (n / 16) ++ [Nat.digitChar (n % 16)]

/-- The shortest of the three spellings that has room for the code point. -/
def codePointEscape (c : Char) : List Char :=
  let n := c.toNat
  if n < 0x100 then '\\' :: 'x' :: hexDigits 2 n
  else if n < 0x10000 then '\\' :: 'u' :: hexDigits 4 n
  else '\\' :: 'U' :: hexDigits 8 n

/-- One character between marks `mark`. -/
def quoteChar (mark c : Char) : List Char :=
  if c = mark ∨ c = '\\' then ['\\', c]
  else if c = '\n' then ['\\', 'n']
  else if c = '\r' then ['\\', 'r']
  else if c = '\t' then ['\\', 't']
  else if isPrintable c then [c]
  else codePointEscape c

/-- Single marks, unless the text has single marks in it and no double ones. -/
def quoteMark (s : List Char) : Char :=
  if s.contains '\'' && !s.contains '"' then '"' else '\''

def quote (s : List Char) : List Char :=
  let mark := quoteMark s
  mark :: s.flatMap (quoteChar mark) ++ [mark]

example : quote ['i', 't', '\'', 's'] = ['"', 'i', 't', '\'', 's', '"'] := by decide +kernel

example : quote ['\'', '"', '\x01'] =
    ['\'', '\\', '\'', '"', '\\', 'x', '0', '1', '\''] := by decide +kernel

end Lindenmayer.Text
