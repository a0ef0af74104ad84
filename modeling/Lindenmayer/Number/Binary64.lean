/-!
# Double-precision numbers by their bits

A finite double is a dyadic number: a sign, a whole significand and a power of two. This module
reads a double as one, and finds the double nearest to a quotient of natural numbers, with a half
going to the even neighbour. Both directions work on the bits in exact arithmetic; no
floating-point operation is used.
-/
namespace Lindenmayer.Number

/-- `num / den` to the nearest integer; a half goes to the even neighbour. -/
def roundDiv (num den : Nat) : Nat :=
  let q := num / den
  let twice := 2 * (num % den)
  if twice < den then q else if den < twice then q + 1 else q + q % 2

/-- The number `± significand · 2 ^ exponent`. -/
structure Dyadic where
  negative : Bool
  significand : Nat
  exponent : Int
  deriving DecidableEq

namespace Dyadic

/-- The absolute value is `num / den`. -/
def num (d : Dyadic) : Nat := d.significand * Nat.pow 2 d.exponent.toNat

def den (d : Dyadic) : Nat := Nat.pow 2 (-d.exponent).toNat

/-- The whole part, toward zero. -/
def truncate (d : Dyadic) : Int :=
  let whole : Int := Int.ofNat (d.num / d.den)
  if d.negative then -whole else whole

def IsWhole (d : Dyadic) : Prop := d.num % d.den = 0

instance (d : Dyadic) : Decidable d.IsWhole := inferInstanceAs (Decidable (_ = _))

end Dyadic

/-- What the bits of a double stand for. -/
inductive Binary64 where
  | nan
  | infinite (negative : Bool)
  | finite (value : Dyadic)
  deriving DecidableEq

namespace Binary64

/-- Bit 63 is the sign, the eleven bits below it the biased exponent, the rest the fraction.
The least exponent field marks the numbers without a hidden bit. -/
def ofBits (bits : Nat) : Binary64 :=
  let negative : Bool := decide (Nat.pow 2 63 ≤ bits)
  let field : Nat := bits / Nat.pow 2 52 % Nat.pow 2 11
  let fraction : Nat := bits % Nat.pow 2 52
  if field = 2047 then
    if fraction = 0 then .infinite negative else .nan
  else if field = 0 then .finite ⟨negative, fraction, -1074⟩
  else .finite ⟨negative, Nat.pow 2 52 + fraction, (field : Int) - 1075⟩

def ofFloat (x : Float) : Binary64 := ofBits x.toBits.toNat

/-- The exponent of the greatest power of two that is at most `num / den`, for positive `num`
and `den`. The lengths of the two in bits determine it up to one. -/
def floorLog2 (num den : Nat) : Int :=
  let k : Int := (num.log2 : Int) - den.log2
  if den * Nat.pow 2 k.toNat ≤ num * Nat.pow 2 (-k).toNat then k else k - 1

/-- The bits, sign apart, of the double nearest to `num / den`; at least `0x7ff · 2 ^ 52` when
that is no finite double. A significand that rounds up to `2 ^ 53` carries into the exponent. -/
def magnitudeBits (num den : Nat) : Nat :=
  if num = 0 then 0
  else
    let e := max (floorLog2 num den - 52) (-1074)
    (e + 1074).toNat * Nat.pow 2 52 +
      roundDiv (num * Nat.pow 2 (-e).toNat) (den * Nat.pow 2 e.toNat)

def signBit (negative : Bool) : Nat := if negative then Nat.pow 2 63 else 0

/-- The bits of positive infinity. -/
def infiniteBits : Nat := 2047 * Nat.pow 2 52

/-- The greatest finite double, a whole number. -/
def greatest : Nat := (Nat.pow 2 53 - 1) * Nat.pow 2 971

/-- The double nearest to `± num / den`; infinite when all finite doubles are too small. -/
def nearest (negative : Bool) (num den : Nat) : Float :=
  Float.ofBits (UInt64.ofNat (signBit negative + min (magnitudeBits num den) infiniteBits))

/-- The double nearest to `i / den`, unless all finite doubles are too small. -/
def ofQuotient? (i : Int) (den : Nat) : Option Float :=
  if magnitudeBits i.natAbs den < infiniteBits then some (nearest (i < 0) i.natAbs den) else none

/-- The double nearest to an integer, unless all finite doubles are too small. -/
def ofInt? (i : Int) : Option Float := ofQuotient? i 1

end Binary64

example : Binary64.ofInt? (2 ^ 53 + 1) = Binary64.ofInt? (2 ^ 53) := by decide +kernel

example : (Binary64.ofInt? (2 ^ 1024)).isNone ∧ (Binary64.ofQuotient? (2 ^ 1024) 2).isSome := by
  decide +kernel

example : (Binary64.nearest false 1 10).toBits = (0.1 : Float).toBits := by decide +kernel

example : Binary64.ofFloat (-0.75) = .finite ⟨true, 3 * 2 ^ 51, -53⟩ := by decide +kernel

end Lindenmayer.Number
