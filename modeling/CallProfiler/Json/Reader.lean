/-!
# Json.Reader: reading documents into expected types

Documents are read straight into the type that is expected, from left to right, and the first fault
decides the answer:

* `truncated`: the text ends too early;
* `malformed`: the text is no document, or a number in it is out of range, or something follows it;
* `mismatched`: the text is a document so far, but not of the expected type.

A reader takes the characters that are left and returns a value and what is left after it. The
number of brackets that may still be opened is passed along as `depth`.
-/

namespace CallProfiler.Json

/-- Why a document could not be read. -/
inductive Fault where
  | truncated
  | malformed
  | mismatched
  deriving DecidableEq, Repr

/-- A reader of one value from the front of the characters that are left. -/
abbrev Reader (α : Type) := List Char → Except Fault (α × List Char)

/-- The number of brackets that a document may have open at once. -/
def depthLimit : Nat := 127

/-! ## Blanks and words -/

/-- Blanks between the pieces of a document. -/
def isBlank (c : Char) : Bool := c = ' ' || c = '\n' || c = '\t' || c = '\x0d'

/-- What is left after leading blanks. -/
def skipBlanks (input : List Char) : List Char := input.dropWhile isBlank

/-- Reads the given characters, no more and no less. -/
def expectWord : (word : List Char) → List Char → Except Fault (List Char)
  | [], input => .ok input
  | _ :: _, [] => .error .truncated
  | expected :: word, c :: input => if c = expected then expectWord word input else .error .malformed

/-- Reads a colon between the name and the value of a member. -/
def expectColon (input : List Char) : Except Fault (List Char) :=
  match skipBlanks input with
  | [] => .error .truncated
  | c :: rest => if c = ':' then .ok rest else .error .malformed

/-! ## Texts -/

/-- The value of a hexadecimal digit, in either case. -/
def hexValue (c : Char) : Option Nat :=
  if c.isDigit then some (c.toNat - 48)
  else if 'a' ≤ c ∧ c ≤ 'f' then some (c.toNat - 87)
  else if 'A' ≤ c ∧ c ≤ 'F' then some (c.toNat - 55)
  else none

/-- The number of bytes of a text in its encoded form. -/
def byteLength (input : List Char) : Nat := input.foldr (fun c bytes => c.utf8Size + bytes) 0

/-- Four hexadecimal digits. The text counts as truncated only if fewer than four bytes are left. -/
def readHex (input : List Char) : Except Fault (Nat × List Char) :=
  match input.take 4 |>.mapM hexValue with
  | some [a, b, c, d] => .ok (((a * 16 + b) * 16 + c) * 16 + d, input.drop 4)
  | _ => if byteLength (input.take 4) < 4 then .error .truncated else .error .malformed

/-- Whether the code unit is the first half of a pair. -/
def isLeadingHalf (unit : Nat) : Bool := 0xD800 ≤ unit ∧ unit ≤ 0xDBFF

/-- Whether the code unit is the second half of a pair. -/
def isTrailingHalf (unit : Nat) : Bool := 0xDC00 ≤ unit ∧ unit ≤ 0xDFFF

/-- A character given by its number, after the `u`. A character beyond 16 bits is given by a pair of
halves, and no half may stand alone. -/
def readNumbered (input : List Char) : Except Fault (Char × List Char) := do
  let (unit, rest) ← readHex input
  if isTrailingHalf unit then .error .malformed
  else if isLeadingHalf unit then
    let rest ← expectWord ['\\', 'u'] rest
    let (second, rest) ← readHex rest
    if isTrailingHalf second then
      .ok (Char.ofNat ((unit - 0xD800) * 1024 + (second - 0xDC00) + 0x10000), rest)
    else .error .malformed
  else .ok (Char.ofNat unit, rest)

/-- The character that a letter after a backslash stands for. -/
def unescape (c : Char) : Option Char :=
  if c = '"' then some '"'
  else if c = '\\' then some '\\'
  else if c = '/' then some '/'
  else if c = 'b' then some '\x08'
  else if c = 'f' then some '\x0c'
  else if c = 'n' then some '\n'
  else if c = 'r' then some '\x0d'
  else if c = 't' then some '\t'
  else none

/-- An escaped character, after its backslash. Where the text is skipped, halves may stand alone. -/
def readEscape (skipping : Bool) (input : List Char) : Except Fault (Char × List Char) :=
  match input with
  | [] => .error .truncated
  | c :: rest =>
    if c = 'u' then
      if skipping then (readHex rest).map fun (_, rest) => (c, rest) else readNumbered rest
    else match unescape c with
      | some plain => .ok (plain, rest)
      | none => .error .malformed

/-- The characters of a text after its opening quote, up to and including the closing one. At most
`fuel` characters are read; the number of characters left is enough. -/
def readCharacters (skipping : Bool) : (fuel : Nat) → List Char → Except Fault (List Char × List Char)
  | 0, _ => .error .truncated
  | _ + 1, [] => .error .truncated
  | fuel + 1, c :: rest =>
    if c = '"' then .ok ([], rest)
    else if c = '\\' then do
      let (plain, rest) ← readEscape skipping rest
      let (text, rest) ← readCharacters skipping fuel rest
      .ok (plain :: text, rest)
    else if c.toNat < 32 then .error .malformed
    else do
      let (text, rest) ← readCharacters skipping fuel rest
      .ok (c :: text, rest)

/-- A text after its opening quote. -/
def readQuoted (input : List Char) : Except Fault (String × List Char) := do
  let (text, rest) ← readCharacters false input.length input
  .ok (String.ofList text, rest)

/-- Skips a text after its opening quote. -/
def skipQuoted (input : List Char) : Except Fault (List Char) :=
  (readCharacters true input.length input).map (·.2)

end CallProfiler.Json
