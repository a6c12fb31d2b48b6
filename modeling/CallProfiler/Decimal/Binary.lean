/-!
# Decimal.Binary: binary floating point as exact arithmetic

The magnitudes of double precision are the numbers `significand * 2 ^ exponent` with at most 53
binary digits and an exponent of at least `-1074`. This module works with them on natural numbers
alone:

* `magnitude` takes a float apart into the exact number that it stands for;
* `nearest` rounds a quotient of natural numbers to the closest magnitude, ties to the even
  significand;
* `Magnitude.code` gives the bit pattern, on which the order of magnitudes is the order of numbers.

Text is read and written on top of it, so that no rounding happens outside `nearest`.
-/

namespace CallProfiler.Decimal

/-- A non-negative number `significand * 2 ^ exponent`. -/
structure Magnitude where
  significand : Nat
  exponent : Int
  deriving DecidableEq, Repr

/-! ## Rounding quotients -/

/-- The integer closest to `num / den`; a tie goes to the even one. -/
def roundHalfEven (num den : Nat) : Nat :=
  let whole := num / den
  let rest := 2 * (num % den)
  if rest < den then whole
  else if den < rest then whole + 1
  else whole + whole % 2

/-- The exponent of the last kept binary digit of `num / den`: 53 digits are kept, but nothing below
`2 ^ -1074`. -/
def unitExponent (num den : Nat) : Int :=
  -- the quotient lies between `2 ^ (estimate + 52)` and `2 ^ (estimate + 54)`
  let estimate : Int := (num.log2 : Int) - den.log2 - 53
  let fits := if 0 ≤ estimate + 53 then num < den <<< (estimate + 53).toNat
    else num <<< (-(estimate + 53)).toNat < den
  max (if fits then estimate else estimate + 1) (-1074)

/-- The magnitude closest to `num / den`; a tie goes to the even significand. The exponent is not
bounded from above, see `Magnitude.overflows`. -/
def nearest (num den : Nat) : Magnitude :=
  let unit := unitExponent num den
  let significand := if 0 ≤ unit then roundHalfEven num (den <<< unit.toNat)
    else roundHalfEven (num <<< (-unit).toNat) den
  ⟨significand, unit⟩

namespace Magnitude

/-- Zero. -/
def zero : Magnitude := ⟨0, -1074⟩

/-- The numerator of the number as a fraction over `den`. -/
def num (m : Magnitude) : Nat := m.significand <<< m.exponent.toNat

/-- The power of two under `num`. -/
def den (m : Magnitude) : Nat := 1 <<< (-m.exponent).toNat

/-- The product, rounded. -/
def mul (a b : Magnitude) : Magnitude := nearest (a.num * b.num) (a.den * b.den)

/-- The quotient, rounded. -/
def div (a b : Magnitude) : Magnitude := nearest (a.num * b.den) (a.den * b.num)

/-- The bit pattern of a magnitude without its sign. A full significand of 53 digits carries the
implicit bit into the exponent field, and so does one that was rounded up to `2 ^ 53`. -/
def code (m : Magnitude) : Nat :=
  if m.significand = 0 then 0 else ((m.exponent + 1074).toNat <<< 52) + m.significand

/-- The least bit pattern that is not a finite magnitude. -/
def infinityCode : Nat := 2047 <<< 52

/-- Whether the magnitude is too large for double precision. -/
def overflows (m : Magnitude) : Bool := infinityCode ≤ m.code

/-- The float with this magnitude and sign. -/
def toFloat (negative : Bool) (m : Magnitude) : Float :=
  Float.ofBits (UInt64.ofNat (m.code + if negative then 1 <<< 63 else 0))

end Magnitude

/-! ## Taking floats apart -/

/-- Whether the sign bit of the float is set. -/
def isNegative (x : Float) : Bool := 1 <<< 63 ≤ x.toBits.toNat

/-- The exact magnitude of a finite float; `none` for infinities and NaN. -/
def magnitude (x : Float) : Option Magnitude :=
  let code := x.toBits.toNat % (1 <<< 63)
  if Magnitude.infinityCode ≤ code then none
  else if code >>> 52 = 0 then some ⟨code, -1074⟩
  else some ⟨(1 <<< 52) + code % (1 <<< 52), (code >>> 52 : Nat) - 1075⟩

/-- The exact value of a finite float times a whole number, rounded to an integer. -/
def Magnitude.roundTimes (m : Magnitude) (factor : Nat) : Nat :=
  roundHalfEven (m.num * factor) m.den

end CallProfiler.Decimal
