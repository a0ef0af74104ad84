/-!
# White space

The characters that count as white space around numbers, rules and start words, and the text
without them at its ends. Zero-width characters such as U+200B are not white space.
-/
namespace Lindenmayer.Text

def isBlank (c : Char) : Bool :=
  let n := c.toNat
  (9 ≤ n && n ≤ 13) || (28 ≤ n && n ≤ 32) || n == 0x85 || n == 0xa0 || n == 0x1680 ||
    (0x2000 ≤ n && n ≤ 0x200a) || n == 0x2028 || n == 0x2029 || n == 0x202f || n == 0x205f ||
    n == 0x3000

/-- The text without the longest run at its end whose characters all satisfy `p`. -/
def dropEnd (p : Char → Bool) (s : List Char) : List Char :=
  (s.reverse.dropWhile p).reverse

/-- The text without white space at either end. -/
def strip (s : List Char) : List Char := dropEnd isBlank (s.dropWhile isBlank)

/-- Each character that the core library takes for white space is white space here too. -/
theorem isBlank_of_isWhitespace {c : Char} (h : c.isWhitespace = true) : isBlank c = true := by
  simp only [Char.isWhitespace, Bool.or_eq_true, decide_eq_true_eq] at h
  rcases h with ((h | h) | h) | h <;> subst h <;> decide

end Lindenmayer.Text
