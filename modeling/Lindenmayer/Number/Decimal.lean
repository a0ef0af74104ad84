import Lindenmayer.Number.Binary64

/-!
# Numbers written in decimal

Two ways to choose decimal digits for a positive dyadic number. The shortest choice takes the
fewest digits that still lie among the reals which round to the number, and the nearest such
digits; the fixed choice rounds to a given count. Layout is a matter of its own: `Notation` says
when a number is written with a power of ten, and the writers follow it.
-/
namespace Lindenmayer.Number

/-- The number `digits · 10 ^ exponent`. -/
structure Decimal where
  digits : Nat
  exponent : Int
  deriving DecidableEq

/-- The digits of a natural number, most significant first; one digit for zero. -/
def natDigits (n : Nat) : List Char := Nat.toDigits 10 n

/-- The exponent of the greatest power of ten that is at most `num / den`. -/
def floorLog10 (num den : Nat) : Int :=
  if den ≤ num then ((natDigits (num / den)).length : Int) - 1
  else
    let ceil := (den + num - 1) / num
    if ceil ≤ 1 then 0 else -((natDigits (ceil - 1)).length : Int)

namespace Dyadic

/-- A quotient lies among the reals that round to `d`. The neighbours of `d` are one unit of
the exponent away, the one below only half a unit if `d` is the least number of its exponent;
an end point rounds to `d` when the significand of `d` is even. The quotient is `num / den`. -/
def ReadsBack (d : Dyadic) (num den : Nat) : Prop :=
  let below := if d.significand = Nat.pow 2 52 ∧ -1074 < d.exponent then 1 else 2
  let scale := 4 * den * Nat.pow 2 d.exponent.toNat
  let value := 4 * num * Nat.pow 2 (-d.exponent).toNat
  let low := scale * d.significand - below * (scale / 4)
  let high := scale * d.significand + 2 * (scale / 4)
  if d.significand % 2 = 0 then low ≤ value ∧ value ≤ high else low < value ∧ value < high

instance (d : Dyadic) (num den : Nat) : Decidable (d.ReadsBack num den) := by
  unfold ReadsBack
  infer_instance

/-- The decimal with unit `10 ^ k` nearest to `d` among the two around it that read back as
`d`; a tie goes to the even digits. -/
def onGrid? (d : Dyadic) (k : Int) : Option Decimal :=
  let up := Nat.pow 10 (-k).toNat
  let down := Nat.pow 10 k.toNat
  let num := d.num * up
  let den := d.den * down
  let a := num / den
  let readsBack (n : Nat) : Bool := decide (d.ReadsBack (n * down) up)
  match readsBack a, readsBack (a + 1) with
  | true, true => some ⟨roundDiv num den, k⟩
  | true, false => some ⟨a, k⟩
  | false, true => some ⟨a + 1, k⟩
  | false, false => none

/-- The finest grid among those for `count`, `count + 1`, … digits that has a decimal reading
back as `d`. Seventeen digits always do. -/
def shortestFrom (d : Dyadic) (top : Int) : (rounds count : Nat) → Decimal
  | 0, count =>
    let k := top - (count : Int)
    ⟨roundDiv (d.num * Nat.pow 10 (-k).toNat) (d.den * Nat.pow 10 k.toNat), k⟩
  | rounds + 1, count =>
    match d.onGrid? (top - (count : Int)) with
    | some r => r
    | none => shortestFrom d top rounds (count + 1)

/-- The fewest digits that read back as `d`, for a positive `d`. -/
def shortest (d : Dyadic) : Decimal := shortestFrom d (floorLog10 d.num d.den) 17 0

/-- `d` rounded to `places + 1` significant digits, for a positive `d`. -/
def rounded (d : Dyadic) (places : Nat) : Decimal :=
  let top := floorLog10 d.num d.den
  let k := top - (places : Int)
  let q := roundDiv (d.num * Nat.pow 10 (-k).toNat) (d.den * Nat.pow 10 k.toNat)
  if q = Nat.pow 10 (places + 1) then ⟨Nat.pow 10 places, k + 1⟩ else ⟨q, k⟩

end Dyadic

/-- The layout of a decimal number. -/
structure Notation where
  /-- Powers of ten of the leading digit for which no exponent is written. -/
  plainFrom : Int
  plainBelow : Int
  exponentDigits : Nat

/-- Numbers from `0.0001` up to but not including `10 ^ 16` are written without an exponent,
others with an exponent of at least two digits. -/
def general : Notation := ⟨-4, 16, 2⟩

def padLeft (width : Nat) (s : List Char) : List Char :=
  List.replicate (width - s.length) '0' ++ s

def dropTrailingZeros (s : List Char) : List Char :=
  (s.reverse.dropWhile (· == '0')).reverse

/-- The power of ten with its sign and at least `digits` digits. -/
def exponentText (digits : Nat) (e : Int) : List Char :=
  'e' :: (if e < 0 then '-' else '+') :: padLeft digits (natDigits e.natAbs)

/-- Digits with the decimal point after the first `point` of them, for `0 < point`. -/
def pointAfter (point : Nat) (digits : List Char) : List Char :=
  let whole := digits.take point
  let rest := digits.drop point
  whole ++ List.replicate (point - digits.length) '0' ++
    '.' :: (if rest.isEmpty then ['0'] else rest)

/-- A positive decimal in the given notation. A number without an exponent always has a
fraction, if only a zero. -/
def Notation.write (f : Notation) (d : Decimal) : List Char :=
  let all := natDigits d.digits
  let top := d.exponent + all.length - 1
  let digits := match dropTrailingZeros all with
    | [] => ['0']
    | digits => digits
  if f.plainFrom ≤ top ∧ top < f.plainBelow then
    if 0 ≤ top then pointAfter (top.toNat + 1) digits
    else '0' :: '.' :: List.replicate (-top - 1).toNat '0' ++ digits
  else
    let head := digits.take 1
    let rest := digits.drop 1
    head ++ (if rest.isEmpty then [] else '.' :: rest) ++ exponentText f.exponentDigits top

def withSign (negative : Bool) (s : List Char) : List Char := if negative then '-' :: s else s

/-- The shortest text that reads back as the double. -/
def floatText (x : Float) : List Char :=
  match Binary64.ofFloat x with
  | .nan => ['n', 'a', 'n']
  | .infinite negative => withSign negative ['i', 'n', 'f']
  | .finite d =>
    withSign d.negative
      (if d.significand = 0 then ['0', '.', '0'] else general.write d.shortest)

/-- One digit, a point, `places` digits and the power of ten. -/
def scientificText (places : Nat) (x : Float) : List Char :=
  match Binary64.ofFloat x with
  | .nan => ['n', 'a', 'n']
  | .infinite negative => withSign negative ['i', 'n', 'f']
  | .finite d =>
    let r := if d.significand = 0 then ⟨0, -(places : Int)⟩ else d.rounded places
    let digits := padLeft (places + 1) (natDigits r.digits)
    withSign d.negative
      (digits.take 1 ++ (if places = 0 then [] else '.' :: digits.drop 1) ++
        exponentText 2 (r.exponent + places))

def intText (i : Int) : List Char := withSign (i < 0) (natDigits i.natAbs)

/-- Integers of more digits than this are neither read nor written. -/
def maxIntDigits : Nat := 4300

/-- Whether an integer has few enough digits for a message. -/
def isWritable (i : Int) : Bool := decide (i.natAbs < Nat.pow 10 maxIntDigits)

theorem isWritable_of_natAbs_le {i j : Int} (h : i.natAbs ≤ j.natAbs) (hj : isWritable j = true) :
    isWritable i = true :=
  decide_eq_true (Nat.lt_of_le_of_lt h (of_decide_eq_true hj))

/-- The least size that has too many digits. -/
theorem isWritable_pow (i : Int) (h : i.natAbs = Nat.pow 10 maxIntDigits) : isWritable i = false :=
  decide_eq_false (by rw [h]; exact Nat.lt_irrefl _)

/-- What is said in place of a message with an integer of too many digits. -/
def tooLong : List Char :=
  "Exceeds the limit (".toList ++ intText maxIntDigits ++
    " digits) for integer string conversion; use sys.set_int_max_str_digits() to increase the limit".toList

/-- Digits with a comma between each two groups of three, counted from the right. -/
def groupedDigits : List Char → List Char
  | [] => []
  | c :: rest =>
    if rest.length % 3 = 0 ∧ rest ≠ [] then c :: ',' :: groupedDigits rest
    else c :: groupedDigits rest

def groupedText (n : Nat) : List Char := groupedDigits (natDigits n)

example : floatText 0.1 = ['0', '.', '1'] := by decide +kernel

example : floatText 1e16 = ['1', 'e', '+', '1', '6'] := by decide +kernel

example : floatText (-5e-324) = ['-', '5', 'e', '-', '3', '2', '4'] := by decide +kernel

example : scientificText 2 0.0125 = ['1', '.', '2', '5', 'e', '-', '0', '2'] := by decide +kernel

example : groupedText 1234567 = ['1', ',', '2', '3', '4', ',', '5', '6', '7'] := by decide +kernel

end Lindenmayer.Number
