import CallProfiler.Json.Record
import CallProfiler.Json.Text

/-!
# OperationType: where monitored work comes from

Work is either caused from outside (`server`) or done on behalf of another system (`external`).
Limits on reporting are kept per type, see `ByType`.
-/

namespace CallProfiler

/-- The origin of a monitored execution. -/
inductive OperationType where
  | server
  | external
  deriving DecidableEq, Repr, Inhabited

namespace OperationType

/-- The name of the type in texts and documents. -/
def name : OperationType → String
  | .server => "server"
  | .external => "external"

/-- The type with a name. -/
def ofName? (name : String) : Option OperationType :=
  if name = "server" then some .server
  else if name = "external" then some .external
  else none

/-- The type as a document. -/
def toJson (t : OperationType) : List Char := Json.quote t.name

/-- The name of a type, from after its opening quote on. -/
def readName : Json.Reader OperationType := fun input => do
  let (name, rest) ← Json.readQuoted input
  match ofName? name with
  | some t => .ok (t, rest)
  | none => .error .mismatched

/-- A type that is the name of a member, from after the opening brace on: anything but a name in its
place is malformed, as in every object. -/
def readMember : Json.Reader OperationType := fun input =>
  match Json.skipBlanks input with
  | [] => .error .truncated
  | c :: rest =>
    if c = '"' then do
      let (t, rest) ← readName rest
      let (_, rest) ← Json.readNull (← Json.expectColon rest)
      .ok (t, ← Json.closeObject rest)
    else .error .malformed

/-- A type is its name, or an object with the name as its only member and the absent value in it. -/
def reader (depth : Nat) : Json.Reader OperationType := fun input =>
  match Json.skipBlanks input with
  | [] => .error .truncated
  | c :: rest =>
    if c = '"' then readName rest
    else if c = '{' then if depth = 0 then .error .malformed else readMember rest
    else .error .malformed

end OperationType

/-- A value for some of the operation types. -/
structure ByType (α : Type) where
  server : Option α := none
  external : Option α := none
  deriving BEq, DecidableEq, Repr

namespace ByType

variable {α β : Type}

/-- No value for any type. -/
def empty : ByType α := {}

/-- The value of a type. -/
def get? (m : ByType α) : OperationType → Option α
  | .server => m.server
  | .external => m.external

/-- Gives a type a value. -/
def set (m : ByType α) (t : OperationType) (value : α) : ByType α :=
  match t with
  | .server => { m with server := some value }
  | .external => { m with external := some value }

/-- Changes every value. -/
def map (f : α → β) (m : ByType α) : ByType β := ⟨m.server.map f, m.external.map f⟩

/-- The types with a value, with it, in a fixed order. -/
def toList (m : ByType α) : List (OperationType × α) :=
  (m.server.toList.map (OperationType.server, ·)) ++
    (m.external.toList.map (OperationType.external, ·))

@[simp] theorem get?_set (m : ByType α) (t u : OperationType) (value : α) :
    (m.set t value).get? u = if u = t then some value else m.get? u := by
  cases t <;> cases u <;> rfl

@[simp] theorem get?_map (f : α → β) (m : ByType α) (t : OperationType) :
    (m.map f).get? t = (m.get? t).map f := by
  cases t <;> rfl

end ByType

end CallProfiler
