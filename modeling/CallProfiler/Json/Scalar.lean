import CallProfiler.Json.Number

/-!
# Json.Scalar: reading values that are no containers

A reader of one type that meets a value of another type reads that value far enough to know that it
is well formed: a fault inside it comes first, and only then is it mismatched. Containers are not
looked into.
-/

namespace CallProfiler.Json

/-- The fault of a value of the wrong type, given the characters that are left from its start. -/
def wrongType (input : List Char) : Fault :=
  let after (read : Except Fault Unit) : Fault := match read with
    | .error fault => fault
    | .ok _ => .mismatched
  match input with
  | [] => .truncated
  | c :: rest =>
    if c = 'n' then after ((expectWord ['u', 'l', 'l'] rest).map fun _ => ())
    else if c = 't' then after ((expectWord ['r', 'u', 'e'] rest).map fun _ => ())
    else if c = 'f' then after ((expectWord ['a', 'l', 's', 'e'] rest).map fun _ => ())
    else if c = '-' then after ((readNumber true rest).map fun _ => ())
    else if c.isDigit then after ((readNumber false input).map fun _ => ())
    else if c = '"' then after ((readQuoted rest).map fun _ => ())
    else if c = '[' ∨ c = '{' then .mismatched
    else .malformed

/-- A truth value. -/
def readBool : Reader Bool := fun input =>
  match skipBlanks input with
  | [] => .error .truncated
  | c :: rest =>
    if c = 't' then (expectWord ['r', 'u', 'e'] rest).map (true, ·)
    else if c = 'f' then (expectWord ['a', 'l', 's', 'e'] rest).map (false, ·)
    else .error (wrongType (c :: rest))

/-- A number of any kind, turned into the expected type. -/
def readNumberAs {α : Type} (convert : Number → Option α) : Reader α := fun input =>
  let check (read : Except Fault (Number × List Char)) : Except Fault (α × List Char) := do
    let (number, rest) ← read
    match convert number with
    | some value => .ok (value, rest)
    | none => .error .mismatched
  match skipBlanks input with
  | [] => .error .truncated
  | c :: rest =>
    if c = '-' then check (readNumber true rest)
    else if c.isDigit then check (readNumber false (c :: rest))
    else .error (wrongType (c :: rest))

/-- A whole number from zero to below `2 ^ 64`. -/
def readUInt64 : Reader UInt64 := readNumberAs fun
  | .whole value => if 0 ≤ value ∧ value < UInt64.size then some (UInt64.ofNat value.toNat) else none
  | .float _ => none

/-- A whole number from `-2 ^ 63` to below `2 ^ 63`. -/
def readInt64 : Reader Int64 := readNumberAs fun
  | .whole value =>
    if Int64.minValue.toInt ≤ value ∧ value ≤ Int64.maxValue.toInt then some (Int64.ofInt value)
    else none
  | .float _ => none

/-- Any number, as a float. -/
def readFloat : Reader Float := readNumberAs fun
  | .whole value => some (Decimal.ofInt value)
  | .float value => some value

/-- The absent value, or a value for the given reader. -/
def readOptional {α : Type} (read : Reader α) : Reader (Option α) := fun input =>
  match skipBlanks input with
  | [] => .error .truncated
  | c :: rest =>
    if c = 'n' then (expectWord ['u', 'l', 'l'] rest).map (none, ·)
    else (read (c :: rest)).map fun (value, rest) => (some value, rest)

/-- The absent value. -/
def readNull : Reader Unit := fun input =>
  match skipBlanks input with
  | [] => .error .truncated
  | c :: rest =>
    if c = 'n' then (expectWord ['u', 'l', 'l'] rest).map ((), ·)
    else .error (wrongType (c :: rest))

/-- A text. -/
def readString : Reader String := fun input =>
  match skipBlanks input with
  | [] => .error .truncated
  | c :: rest => if c = '"' then readQuoted rest else .error (wrongType (c :: rest))

/-! ## Skipping a value of any kind -/

/-- A container that is open while a value is skipped. -/
inductive Frame where
  | array
  | object
  deriving DecidableEq, Repr

/-- What may come next while a value is skipped: a value, a value or the end of the innermost
container, or a comma or that end. -/
inductive Expecting where
  | value
  | first
  | following
  deriving DecidableEq, Repr

/-- Whether the character closes the container. -/
def Frame.closes (frame : Frame) (c : Char) : Bool :=
  match frame with
  | .array => c = ']'
  | .object => c = '}'

/-- Skips the name of a member of an object, and the colon after it; arrays have no names. -/
def Frame.skipName (frame : Frame) (input : List Char) : Except Fault (List Char) :=
  match frame with
  | .array => .ok input
  | .object =>
    match skipBlanks input with
    | [] => .error .truncated
    | c :: rest => if c = '"' then do expectColon (← skipQuoted rest) else .error .malformed

/-- Skips a scalar from its first character on, or reports which container it opens. -/
def skipScalar (c : Char) (rest : List Char) : Except Fault (Option Frame × List Char) :=
  if c = 'n' then (expectWord ['u', 'l', 'l'] rest).map (none, ·)
  else if c = 't' then (expectWord ['r', 'u', 'e'] rest).map (none, ·)
  else if c = 'f' then (expectWord ['a', 'l', 's', 'e'] rest).map (none, ·)
  else if c = '-' then (skipNumber rest).map (none, ·)
  else if c.isDigit then (skipNumber (c :: rest)).map (none, ·)
  else if c = '"' then (skipQuoted rest).map (none, ·)
  else if c = '[' then .ok (some .array, rest)
  else if c = '{' then .ok (some .object, rest)
  else .error .malformed

/-- Skips a value of any kind and any depth, given the containers that it has opened. Every second
step takes a character, so twice the characters that are left bound the steps. -/
def skipSteps : (fuel : Nat) → List Frame → Expecting → List Char → Except Fault (List Char)
  | 0, _, _, _ => .error .truncated
  | fuel + 1, frames, .value, input =>
    match skipBlanks input with
    | [] => .error .truncated
    | c :: rest => do
      match ← skipScalar c rest with
      | (some frame, rest) => skipSteps fuel (frame :: frames) .first rest
      | (none, rest) => skipSteps fuel frames .following rest
  | _ + 1, [], _, input => .ok input
  | fuel + 1, frame :: frames, expecting, input =>
    match skipBlanks input with
    | [] => .error .truncated
    | c :: rest =>
      if frame.closes c then skipSteps fuel frames .following rest
      else if expecting = .first then do
        skipSteps fuel (frame :: frames) .value (← frame.skipName (c :: rest))
      else if c = ',' then do skipSteps fuel (frame :: frames) .value (← frame.skipName rest)
      else .error .malformed

/-- Skips a value of any kind and any depth. -/
def skipValue (input : List Char) : Except Fault (List Char) :=
  skipSteps (2 * input.length + 2) [] .value input

end CallProfiler.Json
