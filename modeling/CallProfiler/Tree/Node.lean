import CallProfiler.Clock

/-!
# Tree.Node: recorded calls and the handles to them

A node is one recorded call. Its gross time is fixed when it is closed. Its net time is the gross time
without that of its children; while the node is open the field holds minus the children's time modulo
`2 ^ 64`, so that closing it only has to add the gross time.

A handle names a slot of a tree and the generation in which the slot was filled. A slot that is emptied
moves to its next generation, so an old handle does not reach a later node.
-/

namespace CallProfiler

/-- A handle to a node of a tree. -/
structure NodeRef where
  index : UInt32
  generation : UInt32
  deriving DecidableEq, Repr, Inhabited

/-- One recorded call. -/
structure CallNode where
  signature : String := ""
  /-- The reading when the call started. -/
  start : Reading := 0
  /-- The duration of the call; zero until it is closed. -/
  gross : UInt64 := 0
  /-- The duration without the children's; while open, minus the children's modulo `2 ^ 64`. -/
  net : UInt64 := 0
  /-- The children in call order. -/
  children : List NodeRef := []
  /-- The caller; the root has none. -/
  parent : Option NodeRef := none
  /-- Whether the call was measured elsewhere and recorded as a leaf. -/
  ioCall : Bool := false
  /-- Whether the call has ended. -/
  closed : Bool := false
  deriving DecidableEq, Repr, Inhabited

namespace CallNode

/-- A node that carries no data. -/
def blank : CallNode := {}

/-- Clears every field. -/
def reset (n : CallNode) : CallNode :=
  { n with
    signature := "", start := 0, gross := 0, net := 0, children := [], parent := none,
    ioCall := false, closed := false }

/-- Whether the node carries no data. -/
def isBlank (n : CallNode) : Bool :=
  n.signature.isEmpty && n.start == 0 && n.gross == 0 && n.net == 0 && n.children.isEmpty &&
    n.parent.isNone && !n.ioCall && !n.closed

/-- A node from the pool that becomes a call starting now. A signature is written after what the node
already holds, so the node has to be blank. A root gets `none` for its parent; its recorder leaves that
field alone, and on a blank node this is the same. -/
def begun (n : CallNode) (signature : String) (now : Reading) (parent : Option NodeRef) : CallNode :=
  { n with signature := n.signature ++ signature, start := now, parent := parent }

/-- A node from the pool that becomes a leaf of a known duration. -/
def measured (n : CallNode) (description : String) (duration : UInt64) (now : Reading)
    (parent : NodeRef) : CallNode :=
  { n with
    signature := n.signature ++ description, start := saturatingSub now duration,
    gross := duration, net := duration, ioCall := true, closed := true, parent := some parent }

/-- The net time of a node that closes after `gross`, from minus the children's time. Children that
were measured elsewhere can take longer than the node; its net time is then zero, which shows as a
wrapped sum above the gross time. -/
def closedNet (gross pending : UInt64) : UInt64 :=
  let net := gross + pending
  if gross < net then 0 else net

/-- The node closed at a reading, under a new signature if one is given. -/
def closedAt (n : CallNode) (now : Reading) (signature : Option String) : CallNode :=
  let gross := saturatingSub now n.start
  { n with
    gross := gross, net := closedNet gross n.net, closed := true,
    signature := signature.getD n.signature }

/-- Takes the gross time of a finished child out of the net time. -/
def charge (n : CallNode) (nanos : UInt64) : CallNode :=
  { n with net := if n.closed then saturatingSub n.net nanos else n.net - nanos }

@[simp] theorem reset_eq_blank (n : CallNode) : n.reset = blank := rfl

end CallNode

/-- Why an operation on a recording is refused. -/
inductive RecordError where
  /-- A recording was begun while another one runs, whose innermost open call is named. -/
  | alreadyActive (current : String)
  /-- Something was asked of a recording while none runs. -/
  | notActive
  /-- A handle whose node is gone. -/
  | staleNode (handle : NodeRef)
  deriving DecidableEq, Repr

/-- The text of the error. -/
def RecordError.message : RecordError → String
  | .alreadyActive current => "Call stack is already active (current node: " ++ current ++ ")"
  | .notActive => "Call stack is not active"
  | .staleNode h => "Stale node handle: index " ++ toString h.index.toNat ++ ", generation " ++
      toString h.generation.toNat

end CallProfiler
