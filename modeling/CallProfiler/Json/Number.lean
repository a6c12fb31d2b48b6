import CallProfiler.Decimal.Scaled
import CallProfiler.Json.Reader

/-!
# Json.Number: numbers in documents

A number without fraction and exponent that fits 64 bits is a whole number. All others are floats:
as many leading digits as fit 64 bits make the significand, the others only move the exponent.
-/

namespace CallProfiler.Json

/-- A number as it is read, before its type is checked. -/
inductive Number where
  | whole (value : Int)
  | float (value : Float)
  deriving Repr

/-- The value of a decimal digit. -/
def digitValue (c : Char) : Nat := c.toNat - 48

/-- Appends digits to a significand while it fits 64 bits, and returns the digits that no longer
fit. -/
def appendDigits (significand : Nat) : List Char → Nat × List Char
  | [] => (significand, [])
  | c :: digits =>
    let longer := significand * 10 + digitValue c
    if longer < UInt64.size then appendDigits longer digits else (significand, c :: digits)

/-- The digits at the front, and what is left after them. -/
def splitDigits (input : List Char) : List Char × List Char :=
  (input.takeWhile Char.isDigit, input.dropWhile Char.isDigit)

/-- The fault of a missing digit. -/
def missingDigit (input : List Char) : Fault := if input.isEmpty then .truncated else .malformed

/-- The number `significand * 10 ^ exponent`; a number that is too large is malformed. -/
def scaledNumber (negative : Bool) (significand : Nat) (exponent : Int) : Except Fault Number :=
  match Decimal.ofScaled negative significand exponent with
  | some value => .ok (.float value)
  | none => .error .malformed

/-- The exponent part, after its mark. -/
def readExponent (negative : Bool) (significand : Nat) (exponent : Int) : Reader Number :=
  fun input =>
    let (shrinks, input) := match input with
      | c :: rest => if c = '-' then (true, rest) else if c = '+' then (false, rest) else (false, input)
      | [] => (false, input)
    let (digits, rest) := splitDigits input
    if digits.isEmpty then .error (missingDigit input)
    else
      let power : Int := digits.foldl (fun n c => n * 10 + digitValue c) 0
      (scaledNumber negative significand (if shrinks then exponent - power else exponent + power)).map
        (·, rest)

/-- Whether the character starts an exponent part. -/
def marksExponent (c : Char) : Bool := c = 'e' || c = 'E'

/-- The fraction and all that follows it, after its point. -/
def readFraction (negative : Bool) (significand : Nat) (exponent : Int) : Reader Number :=
  fun input =>
    let (digits, rest) := splitDigits input
    if digits.isEmpty then .error (missingDigit input)
    else
      let (significand, dropped) := appendDigits significand digits
      let exponent := exponent - (digits.length - dropped.length : Nat)
      match rest with
      | c :: rest' =>
        if marksExponent c then readExponent negative significand exponent rest'
        else (scaledNumber negative significand exponent).map (·, rest)
      | [] => (scaledNumber negative significand exponent).map (·, rest)

/-- A number without fraction and exponent. -/
def wholeNumber (negative : Bool) (significand : Nat) : Number :=
  if negative then
    if significand = 0 then .float (Decimal.Magnitude.zero.toFloat true)
    else if significand ≤ 1 <<< 63 then .whole (-significand)
    else .float (Decimal.ofInt (-significand))
  else .whole significand

/-- A number after its sign. -/
def readNumber (negative : Bool) : Reader Number := fun input =>
  let (digits, rest) := splitDigits input
  match digits with
  | [] => .error (missingDigit input)
  | first :: others =>
    if first = '0' ∧ others ≠ [] then .error .malformed
    else
      let (significand, dropped) := appendDigits 0 digits
      let ending : Except Fault (Number × List Char) :=
        if dropped.isEmpty then .ok (wholeNumber negative significand, rest)
        else (scaledNumber negative significand dropped.length).map (·, rest)
      match rest with
      | c :: rest' =>
        if c = '.' then readFraction negative significand dropped.length rest'
        else if marksExponent c then readExponent negative significand dropped.length rest'
        else ending
      | [] => ending

/-! ## Skipping -/

/-- Skips the exponent part after its mark. Where a number is skipped, a missing digit is malformed
also at the end of the text. -/
def skipExponent (input : List Char) : Except Fault (List Char) :=
  let input := match input with
    | c :: rest => if c = '-' ∨ c = '+' then rest else input
    | [] => input
  let (digits, rest) := splitDigits input
  if digits.isEmpty then .error .malformed else .ok rest

/-- Skips what follows the digits before the point. -/
def skipFraction (input : List Char) : Except Fault (List Char) :=
  match input with
  | [] => .ok input
  | c :: rest =>
    if c = '.' then
      let (digits, rest) := splitDigits rest
      if digits.isEmpty then .error .malformed
      else match rest with
        | c :: rest' => if marksExponent c then skipExponent rest' else .ok rest
        | [] => .ok rest
    else if marksExponent c then skipExponent rest
    else .ok input

/-- Skips a number after its sign, whatever its size. -/
def skipNumber (input : List Char) : Except Fault (List Char) :=
  let (digits, rest) := splitDigits input
  match digits with
  | [] => .error .malformed
  | first :: others => if first = '0' ∧ others ≠ [] then .error .malformed else skipFraction rest

end CallProfiler.Json
