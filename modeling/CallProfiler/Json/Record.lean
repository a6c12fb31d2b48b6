import CallProfiler.Json.Scalar

/-!
# Json.Record: reading arrays and records

A record is an object whose members have fixed names and types, or an array of its fields in their
order. Members with other names are skipped, no name may occur twice, and a field that must be given
but is not makes the record mismatched. A record or array counts against the depth limit.
-/

namespace CallProfiler.Json

/-! ## Arrays -/

/-- Moves to the next element of an array: what is left before the element, or `none` at the closing
bracket, which is not taken. -/
def nextElement (first : Bool) (input : List Char) : Except Fault (Option (List Char)) :=
  match skipBlanks input with
  | [] => .error .truncated
  | c :: rest =>
    if c = ']' then .ok none
    else if first then .ok (some (c :: rest))
    else if c = ',' then
      match skipBlanks rest with
      | [] => .error .truncated
      | c :: rest => if c = ']' then .error .malformed else .ok (some (c :: rest))
    else .error .malformed

/-- Takes the closing bracket of an array. -/
def closeArray (input : List Char) : Except Fault (List Char) :=
  match skipBlanks input with
  | [] => .error .truncated
  | c :: rest => if c = ']' then .ok rest else .error .malformed

/-- The elements of an array up to its closing bracket, which is not taken. Each element takes a
character, so the number of characters left bounds their number. -/
def readElements {α : Type} (item : Reader α) : (fuel : Nat) → (first : Bool) → Reader (List α)
  | 0, _, _ => .error .truncated
  | fuel + 1, first, input => do
    match ← nextElement first input with
    | none => .ok ([], input)
    | some input =>
      let (value, rest) ← item input
      let (values, rest) ← readElements item fuel false rest
      .ok (value :: values, rest)

/-- An array whose elements the given reader reads. -/
def readArray {α : Type} (depth : Nat) (item : Reader α) : Reader (List α) := fun input =>
  match skipBlanks input with
  | [] => .error .truncated
  | c :: rest =>
    if c = '[' then
      if depth = 0 then .error .malformed
      else do
        let (values, rest) ← readElements item (rest.length + 1) true rest
        .ok (values, ← closeArray rest)
    else .error (wrongType (c :: rest))

/-! ## Members -/

/-- Moves to the next member of an object: what is left before its name, or `none` at the closing
brace, which is not taken. -/
def nextMember (first : Bool) (input : List Char) : Except Fault (Option (List Char)) :=
  match skipBlanks input with
  | [] => .error .truncated
  | c :: rest =>
    if c = '}' then .ok none
    else if first then if c = '"' then .ok (some (c :: rest)) else .error .malformed
    else if c = ',' then
      match skipBlanks rest with
      | [] => .error .truncated
      | c :: rest => if c = '"' then .ok (some (c :: rest)) else .error .malformed
    else .error .malformed

/-- Takes the closing brace of an object. -/
def closeObject (input : List Char) : Except Fault (List Char) :=
  match skipBlanks input with
  | [] => .error .truncated
  | c :: rest => if c = '}' then .ok rest else .error .malformed

/-- The members of an object up to its closing brace, which is not taken. The value so far is handed
from member to member. -/
def readMembers {σ : Type} (readMember : σ → String → Reader σ) :
    (fuel : Nat) → (first : Bool) → σ → Reader σ
  | 0, _, _, _ => .error .truncated
  | fuel + 1, first, value, input => do
    match ← nextMember first input with
    | none => .ok (value, input)
    | some input =>
      let (name, rest) ← readString input
      let (value, rest) ← readMember value name rest
      readMembers readMember fuel false value rest

/-- An object whose members change a value one after the other. -/
def readObject {σ : Type} (depth : Nat) (readMember : σ → String → Reader σ) (start : σ) : Reader σ :=
  fun input =>
    match skipBlanks input with
    | [] => .error .truncated
    | c :: rest =>
      if c = '{' then
        if depth = 0 then .error .malformed
        else do
          let (value, rest) ← readMembers readMember (rest.length + 1) true start rest
          .ok (value, ← closeObject rest)
      else .error (wrongType (c :: rest))

/-! ## Records -/

/-- How a record is read: its fields in their order, their names, which of them must be given, and
how the value of a field goes into the record. -/
structure RecordShape (φ σ : Type) where
  fields : List φ
  name : φ → String
  required : φ → Bool
  read : φ → σ → Reader σ

namespace RecordShape

variable {φ σ : Type}

/-- The field with a name. -/
def field? (shape : RecordShape φ σ) (name : String) : Option φ :=
  shape.fields.find? fun field => shape.name field == name

/-- One member: the record so far and the names given so far. A name that occurs twice is refused
before its value is read. -/
def readMember (shape : RecordShape φ σ) (state : σ × List String) (name : String) :
    Reader (σ × List String) := fun input =>
  match shape.field? name with
  | none => do
    let rest ← skipValue (← expectColon input)
    .ok (state, rest)
  | some field =>
    -- the second value is not even looked at
    if state.2.contains name then .error .mismatched
    else do
      let (value, rest) ← shape.read field state.1 (← expectColon input)
      .ok ((value, name :: state.2), rest)

/-- Whether all fields that must be given are among the given names. -/
def complete (shape : RecordShape φ σ) (given : List String) : Bool :=
  shape.fields.all fun field => !shape.required field || given.contains (shape.name field)

/-- The fields of a record that is given as an array, up to its closing bracket, which is not
taken. -/
def readFields (shape : RecordShape φ σ) : List φ → (first : Bool) → σ → Reader σ
  | [], _, value, input => .ok (value, input)
  | field :: fields, first, value, input => do
    match ← nextElement first input with
    | none => if shape.required field then .error .mismatched else readFields shape fields first value input
    | some input =>
      let (value, rest) ← shape.read field value input
      readFields shape fields false value rest

/-- A record, starting from the values of the fields that are not given. -/
def reader (shape : RecordShape φ σ) (depth : Nat) (start : σ) : Reader σ := fun input =>
  match skipBlanks input with
  | [] => .error .truncated
  | c :: rest =>
    if c = '{' then
      if depth = 0 then .error .malformed
      else do
        let ((value, given), rest) ←
          readMembers shape.readMember (rest.length + 1) true (start, []) rest
        if shape.complete given then .ok (value, ← closeObject rest) else .error .mismatched
    else if c = '[' then
      if depth = 0 then .error .malformed
      else do
        let (value, rest) ← shape.readFields shape.fields true start rest
        .ok (value, ← closeArray rest)
    else .error (wrongType (c :: rest))

end RecordShape

/-! ## Documents -/

/-- A whole document: one value, and nothing but blanks after it. -/
def readDocument {α : Type} (read : Reader α) (text : String) : Except Fault α := do
  let (value, rest) ← read text.toList
  if (skipBlanks rest).isEmpty then .ok value else .error .malformed

end CallProfiler.Json
