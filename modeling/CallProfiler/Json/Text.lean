import CallProfiler.Decimal.Notation

/-!
# Json.Text: writing documents

Documents are written without blanks. A piece of a document is a list of characters, so that a
reader can be run on what a writer made and lemmas can follow the characters one by one.
-/

namespace CallProfiler.Json

/-- The hexadecimal digit of a number below sixteen, in lower case. -/
def hexDigit (n : Nat) : Char :=
  if n < 10 then Char.ofNat (48 + n) else Char.ofNat (87 + n)

/-- A character inside a quoted text. Quotes, backslashes and control characters are escaped, the
common control characters by a letter and the others by their number. -/
def escape (c : Char) : List Char :=
  if c = '"' then ['\\', '"']
  else if c = '\\' then ['\\', '\\']
  else if c = '\x08' then ['\\', 'b']
  else if c = '\x0c' then ['\\', 'f']
  else if c = '\n' then ['\\', 'n']
  else if c = '\x0d' then ['\\', 'r']
  else if c = '\t' then ['\\', 't']
  else if c.toNat < 32 then ['\\', 'u', '0', '0', hexDigit (c.toNat / 16), hexDigit (c.toNat % 16)]
  else [c]

/-- A quoted text. -/
def quote (s : String) : List Char := '"' :: s.toList.flatMap escape ++ ['"']

/-- Pieces separated by commas. -/
def commaSeparated : List (List Char) → List Char
  | [] => []
  | [piece] => piece
  | piece :: next :: rest => piece ++ ',' :: commaSeparated (next :: rest)

/-- An object from its members. -/
def object (members : List (List Char)) : List Char := '{' :: commaSeparated members ++ ['}']

/-- An array from its elements. -/
def array (elements : List (List Char)) : List Char := '[' :: commaSeparated elements ++ [']']

/-- A member of an object. -/
def member (name : String) (value : List Char) : List Char := quote name ++ ':' :: value

/-- A truth value. -/
def boolean (b : Bool) : List Char := if b then ['t', 'r', 'u', 'e'] else ['f', 'a', 'l', 's', 'e']

/-- The absent value. -/
def null : List Char := ['n', 'u', 'l', 'l']

/-- A natural number. -/
def natural (n : Nat) : List Char := Decimal.digitChars n

/-- A whole number. -/
def integer (i : Int) : List Char := if i < 0 then '-' :: natural i.natAbs else natural i.natAbs

/-- A float; what is not finite is written as the absent value. -/
def float (x : Float) : List Char := Decimal.FloatNotation.json.chars x

end CallProfiler.Json
