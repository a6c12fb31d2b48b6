import CallProfiler.Decimal.Binary

/-!
# Decimal.Scaled: decimals read into double precision

A number in a document is a 64-bit significand and a power of ten. The significand is rounded, then
multiplied or divided once by the rounded power; a power below `10 ^ -308` is divided away in several
steps. Each step rounds, so the result can differ from the closest float in its last digits.
-/

namespace CallProfiler.Decimal

/-- The largest power of ten that is applied in one step. -/
def greatestPower : Nat := 308

/-- A power of ten, rounded. -/
def powerOfTen (exponent : Nat) : Magnitude := nearest (Nat.pow 10 exponent) 1

/-- Multiplies a magnitude by a power of ten; `none` if the result is too large. -/
def scaleByTen (m : Magnitude) (exponent : Int) : Option Magnitude :=
  if 0 ≤ exponent then
    if exponent ≤ greatestPower then
      let product := m.mul (powerOfTen exponent.toNat)
      if product.overflows then none else some product
    else if m.significand = 0 then some m
    else none
  else if -exponent ≤ greatestPower then some (m.div (powerOfTen (-exponent).toNat))
  else if m.significand = 0 then some m
  else scaleByTen (m.div (powerOfTen greatestPower)) (exponent + greatestPower)
  termination_by exponent.natAbs
  decreasing_by simp only [greatestPower] at *; omega

/-- The float `significand * 10 ^ exponent` as documents are read; `none` if it is too large. -/
def ofScaled (negative : Bool) (significand : Nat) (exponent : Int) : Option Float :=
  (scaleByTen (nearest significand 1) exponent).map (Magnitude.toFloat negative)

/-- The float closest to a whole number. -/
def ofInt (i : Int) : Float := (nearest i.natAbs 1).toFloat (decide (i < 0))

end CallProfiler.Decimal
