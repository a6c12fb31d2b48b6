import CallProfiler.Json.Record
import CallProfiler.Json.Text
import CallProfiler.Tree.Basic

/-!
# Tree.Snapshot: copies of trees, and their documents

A snapshot is a tree as a plain value, without handles, readings and the difference between open and
closed calls. In a document the flag of io calls and the children are left out where they carry
nothing, and are optional when a document is read. Each level but the last opens two brackets, so 64
levels can be read.
-/

namespace CallProfiler

/-- A copy of a call and of all below it. -/
inductive Snapshot where
  | node (signature : String) (gross net : UInt64) (ioCall : Bool) (children : List Snapshot)
  deriving Repr

namespace Snapshot

/-- The signature of the call. -/
def signature : Snapshot → String
  | node signature _ _ _ _ => signature

/-- The duration of the call. -/
def gross : Snapshot → UInt64
  | node _ gross _ _ _ => gross

/-- The duration of the call without its children. -/
def net : Snapshot → UInt64
  | node _ _ net _ _ => net

/-- Whether the call was measured elsewhere. -/
def ioCall : Snapshot → Bool
  | node _ _ _ ioCall _ => ioCall

/-- The calls below this one, in call order. -/
def children : Snapshot → List Snapshot
  | node _ _ _ _ children => children

mutual

/-- The snapshot as a document. -/
def write : Snapshot → List Char
  | node signature gross net ioCall children =>
    Json.object
      ([Json.member "signature" (Json.quote signature),
        Json.member "executionTime" (Json.natural gross.toNat),
        Json.member "netExecutionTime" (Json.natural net.toNat)] ++
      (if ioCall then [Json.member "ioCall" (Json.boolean true)] else []) ++
      match children with
      | [] => []
      | first :: rest => [Json.member "children" (Json.array (write first :: writeAll rest))])

/-- Several snapshots as documents. -/
def writeAll : List Snapshot → List (List Char)
  | [] => []
  | first :: rest => write first :: writeAll rest

end

/-- The snapshot as a document. -/
def toJson (s : Snapshot) : String := String.ofList s.write

/-- The members of a snapshot's document. -/
inductive Field where
  | signature
  | executionTime
  | netExecutionTime
  | ioCall
  | children
  deriving DecidableEq, Repr

/-- The name of a member. -/
def Field.name : Field → String
  | .signature => "signature"
  | .executionTime => "executionTime"
  | .netExecutionTime => "netExecutionTime"
  | .ioCall => "ioCall"
  | .children => "children"

/-- Reads one member into a snapshot. -/
def readField (readChildren : Json.Reader (List Snapshot)) (field : Field) (s : Snapshot) :
    Json.Reader Snapshot := fun input =>
  match field with
  | .signature => (Json.readString input).map fun (v, rest) =>
    (node v s.gross s.net s.ioCall s.children, rest)
  | .executionTime => (Json.readUInt64 input).map fun (v, rest) =>
    (node s.signature v s.net s.ioCall s.children, rest)
  | .netExecutionTime => (Json.readUInt64 input).map fun (v, rest) =>
    (node s.signature s.gross v s.ioCall s.children, rest)
  | .ioCall => (Json.readBool input).map fun (v, rest) =>
    (node s.signature s.gross s.net v s.children, rest)
  | .children => (readChildren input).map fun (v, rest) =>
    (node s.signature s.gross s.net s.ioCall v, rest)

/-- How snapshots are read. -/
def shape (readChildren : Json.Reader (List Snapshot)) : Json.RecordShape Field Snapshot where
  fields := [.signature, .executionTime, .netExecutionTime, .ioCall, .children]
  name := Field.name
  required := fun
    | .signature | .executionTime | .netExecutionTime => true
    | .ioCall | .children => false
  read := readField readChildren

/-- A reader for children where no bracket may be opened any more. -/
def noChildren : Json.Reader (List Snapshot) :=
  Json.readArray 0 fun _ => .error .malformed

/-- Reads a snapshot in which `depth` brackets may be open at once. -/
def reader : (depth : Nat) → Json.Reader Snapshot
  | 0 => (shape noChildren).reader 0 (node "" 0 0 false [])
  | 1 => (shape noChildren).reader 1 (node "" 0 0 false [])
  | depth + 2 =>
    (shape (Json.readArray (depth + 1) (reader depth))).reader (depth + 2) (node "" 0 0 false [])

/-- Reads a snapshot from a document. -/
def ofJson (text : String) : Except Json.Fault Snapshot :=
  Json.readDocument (reader Json.depthLimit) text

end Snapshot

namespace CallTree

/-- A copy of a node and of what is at most `fuel` levels below it; `none` if the node is gone. -/
def copy (t : CallTree) : (fuel : Nat) → NodeRef → Option Snapshot
  | 0, h => (t.get? h).map fun n => .node n.signature n.gross n.net n.ioCall []
  | fuel + 1, h =>
    (t.get? h).map fun n =>
      .node n.signature n.gross n.net n.ioCall (n.children.filterMap (t.copy fuel))

/-- A copy of a node and of all below it. No tree has more levels than slots. -/
def snapshotFrom (t : CallTree) (h : NodeRef) : Option Snapshot := t.copy t.slots.size h

/-- A copy of the whole tree. -/
def snapshot (t : CallTree) : Option Snapshot := t.snapshotFrom t.root

end CallTree

end CallProfiler
