import CallProfiler.Decimal.Shortest

/-!
# Decimal.Notation: how floats are laid out as text

Which digits to write is decided by `shortest`; how they are laid out is a `FloatNotation`. Three
notations are in use: `plain` in messages, `inspected` in descriptions of state and `json` in
documents. Times are written with a fixed number of places instead (`fixedPlaces`).
-/

namespace CallProfiler.Decimal

/-- The layout decisions of one kind of text. -/
structure FloatNotation where
  /-- Which of two equally close shortest decimals is written. -/
  tie : Tie
  /-- The exponents of the leading digit that are written without an exponent part; `none` for all. -/
  positional : Option (Int × Int)
  /-- Whether a whole number ends with `.0`. -/
  wholePoint : Bool
  /-- Whether a positive exponent carries a sign. -/
  plusExponent : Bool
  nan : String
  infinity : String
  negativeInfinity : String
  deriving Repr

/-- Messages: never an exponent, no point in whole numbers. -/
def FloatNotation.plain : FloatNotation where
  tie := .up
  positional := none
  wholePoint := false
  plusExponent := false
  nan := "NaN"
  infinity := "inf"
  negativeInfinity := "-inf"

/-- Descriptions of state: positional from `0.0001` to below `1e16`. -/
def FloatNotation.inspected : FloatNotation :=
  { FloatNotation.plain with positional := some (-4, 15), wholePoint := true }

/-- Documents: positional from `0.00001` to below `1e+16`; what is not finite is `null`. -/
def FloatNotation.json : FloatNotation where
  tie := .even
  positional := some (-5, 15)
  wholePoint := true
  plusExponent := true
  nan := "null"
  infinity := "null"
  negativeInfinity := "null"

/-! ## Layout -/

/-- The decimal digits of a number, most significant first. -/
def digitChars (n : Nat) : List Char := Nat.toDigits 10 n

/-- Digits without an exponent part: zeros fill the places up to the point or after it. -/
def layoutPositional (wholePoint : Bool) (digits : List Char) (exponent : Int) : List Char :=
  let point : Int := digits.length + exponent
  if 0 ≤ exponent then
    digits ++ List.replicate exponent.toNat '0' ++ if wholePoint then ['.', '0'] else []
  else if 0 < point then
    -- the point falls between two digits
    digits.take point.toNat ++ '.' :: digits.drop point.toNat
  else
    '0' :: '.' :: List.replicate (-point).toNat '0' ++ digits

/-- One leading digit, the others after a point, and the exponent of the leading digit. -/
def layoutScientific (plusExponent : Bool) (digits : List Char) (leading : Int) : List Char :=
  let fraction := digits.drop 1
  let mark := if leading < 0 then ['e', '-'] else if plusExponent then ['e', '+'] else ['e']
  digits.take 1 ++ (if fraction.isEmpty then [] else '.' :: fraction) ++ mark ++
    digitChars leading.natAbs

/-- The text of a decimal in a notation. -/
def FloatNotation.layout (notn : FloatNotation) (d : Digits) : List Char :=
  let digits := digitChars d.digits
  let leading : Int := d.exponent + digits.length - 1
  let positional := match notn.positional with
    | none => true
    | some (least, greatest) => least ≤ leading ∧ leading ≤ greatest
  if positional then layoutPositional notn.wholePoint digits d.exponent
  else layoutScientific notn.plusExponent digits leading

/-- The text of a float in a notation, as characters. -/
def FloatNotation.chars (notn : FloatNotation) (x : Float) : List Char :=
  match magnitude x with
  | some m =>
    let body := notn.layout (shortest notn.tie m)
    if isNegative x then '-' :: body else body
  | none =>
    if x.isNaN then notn.nan.toList
    else if isNegative x then notn.negativeInfinity.toList
    else notn.infinity.toList

/-- The text of a float in a notation. -/
def FloatNotation.write (notn : FloatNotation) (x : Float) : String := String.ofList (notn.chars x)

/-! ## A fixed number of places -/

/-- A text filled with zeros on the left up to a width. -/
def padZeros (width : Nat) (text : List Char) : List Char :=
  List.replicate (width - text.length) '0' ++ text

/-- A non-negative number with a fixed number of places, rounded from its exact value with ties to
even, and filled with zeros on the left up to a width. -/
def fixedPlaces (width places : Nat) (x : Float) : List Char :=
  match magnitude x with
  | none => (FloatNotation.plain.chars x)
  | some m =>
    let unit := Nat.pow 10 places
    let units := m.roundTimes unit
    let whole := digitChars (units / unit)
    let fraction := padZeros places (digitChars (units % unit))
    padZeros width (if places = 0 then whole else whole ++ '.' :: fraction)

end CallProfiler.Decimal
