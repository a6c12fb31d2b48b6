import CallProfiler.Decimal.Binary

/-!
# Decimal.Shortest: the fewest digits that read back

Every finite float owns an interval of numbers that round to it: half way down to its lower
neighbour and half way up to the upper one, ends included exactly if its significand is even.
`shortest` looks for the coarsest decimal grid that has a point in this interval and takes the point
closest to the float. If a grid has a point in the interval, then one of the two grid points around
the float itself is in it, so only those two are tested.
-/

namespace CallProfiler.Decimal

/-- A decimal number `digits * 10 ^ exponent`. -/
structure Digits where
  digits : Nat
  exponent : Int
  deriving DecidableEq, Repr

/-- Which of two equally close decimals is taken. -/
inductive Tie where
  | up
  | even
  deriving DecidableEq, Repr

/-- The number of decimal digits; zero has one. -/
def digitCount (n : Nat) : Nat := if n < 10 then 1 else digitCount (n / 10) + 1
  termination_by n

/-- The decimal exponent of the leading digit of a positive quotient. -/
def leadingExponent (num den : Nat) : Int :=
  if den ≤ num then (digitCount (num / den) : Int) - 1
  else -(digitCount ((den - 1) / num) : Int)

/-- The same number without zeros at its end. -/
def Digits.trim (d : Digits) (fuel : Nat) : Digits :=
  match fuel with
  | 0 => d
  | fuel + 1 => if d.digits % 10 = 0 then trim ⟨d.digits / 10, d.exponent + 1⟩ fuel else d

/-- The rounding interval of a magnitude on the grid of quarter units: lower end, value, upper end
and whether the ends belong to it. Below a power of two the lower neighbour is only half as far. -/
structure RoundingInterval where
  low : Nat
  value : Nat
  high : Nat
  closed : Bool
  deriving DecidableEq, Repr

/-- The rounding interval of a magnitude, in units of a quarter of its last binary digit. -/
def Magnitude.interval (m : Magnitude) : RoundingInterval :=
  let s := m.significand
  let below := if s = 1 <<< 52 ∧ -1074 < m.exponent then 1 else 2
  ⟨4 * s - below, 4 * s, 4 * s + 2, s % 2 = 0⟩

/-- Whether the number `point`, given in the units of the interval, rounds to the value. -/
def RoundingInterval.holds (i : RoundingInterval) (point : Nat) : Bool :=
  if i.closed then i.low ≤ point ∧ point ≤ i.high else i.low < point ∧ point < i.high

/-- The interval measured in smaller units. -/
def RoundingInterval.scale (i : RoundingInterval) (factor : Nat) : RoundingInterval :=
  { i with low := i.low * factor, value := i.value * factor, high := i.high * factor }

/-- The point of the grid with steps of `step` that lies in the interval and is closest to its value,
counted in steps; `none` if no point of the grid lies in the interval. -/
def RoundingInterval.onGrid (i : RoundingInterval) (tie : Tie) (step : Nat) : Option Nat :=
  let below := i.value / step
  let toBelow := i.value - below * step
  let toAbove := (below + 1) * step - i.value
  match i.holds (below * step), i.holds ((below + 1) * step) with
  | true, false => some below
  | false, true => some (below + 1)
  | false, false => none
  -- both neighbours read back: the closer one is taken
  | true, true =>
    if toBelow < toAbove then some below
    else if toAbove < toBelow then some (below + 1)
    else match tie with
      | .up => some (below + 1)
      | .even => some (if below % 2 = 0 then below else below + 1)

/-- The interval and the grid `10 ^ exponent` in common whole units. -/
def Magnitude.gridPoint (m : Magnitude) (tie : Tie) (exponent : Int) : Option Nat :=
  let binary := m.exponent - 2
  let interval := m.interval.scale ((1 <<< binary.toNat) * Nat.pow 10 (-exponent).toNat)
  interval.onGrid tie (Nat.pow 10 exponent.toNat * (1 <<< (-binary).toNat))

/-- The first grid from `exponent` downwards with a point in the interval, at most `grids` of them. -/
def Magnitude.searchGrid (m : Magnitude) (tie : Tie) (exponent : Int) : (grids : Nat) → Option Digits
  | 0 => none
  | grids + 1 =>
    match m.gridPoint tie exponent with
    | some digits => some ⟨digits, exponent⟩
    | none => m.searchGrid tie (exponent - 1) grids

/-- The decimal with the fewest digits that rounds to the magnitude, and of those the closest one.
Seventeen digits always suffice. -/
def shortest (tie : Tie) (m : Magnitude) : Digits :=
  if m.significand = 0 then ⟨0, 0⟩
  else match m.searchGrid tie (leadingExponent m.num m.den) 17 with
    | some d => d.trim 20
    | none => ⟨0, 0⟩

end CallProfiler.Decimal
