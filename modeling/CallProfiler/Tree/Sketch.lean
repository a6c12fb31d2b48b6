import CallProfiler.Tree.Edit

/-!
# Tree.Sketch: trees from a description of their calls

A sketch says how a recording went without handles and readings: which calls were made inside which
others, and how long each went on after the last of its children. `Sketch.draft` records the sketches
of the calls below a root, with a clock that starts at zero. A root is never measured elsewhere, so it
is described by itself.
-/

namespace CallProfiler

/-- A description of a call below the root. -/
inductive Sketch where
  /-- A call that goes on for `rest` after the last of its children. It is left open if nobody ends
  it. -/
  | call (signature : String) (rest : UInt64) (ended : Bool) (children : List Sketch)
  /-- A call that was measured elsewhere. -/
  | io (description : String) (duration : UInt64)
  deriving Repr, Inhabited

/-- A recording that is under way. -/
structure Draft where
  now : Reading
  tree : CallTree
  pool : NodePool
  deriving DecidableEq, Repr, Inhabited

namespace Draft

/-- A recording of a root alone. -/
def begin (signature : String) : Draft :=
  let (tree, pool) := CallTree.begin {} 0 signature
  ⟨0, tree, pool⟩

/-- Changes the tree. -/
def edit (d : Draft) (change : TreeEdit) : EditAnswer × Draft :=
  let (answer, tree, pool) := d.tree.edit d.pool d.now change
  (answer, { d with tree := tree, pool := pool })

/-- Lets time pass for an open call, and ends it. -/
def finish (d : Draft) (h : NodeRef) (rest : UInt64) (ended : Bool) : Draft :=
  let d := { d with now := d.now + rest }
  if ended then (d.edit (.close h none 0)).2 else d

end Draft

namespace Sketch

mutual

/-- Records a call below a node. -/
def record (parent : NodeRef) (d : Draft) : Sketch → Draft
  | io description duration => (d.edit (.addIoCall parent description duration)).2
  | call signature rest ended children =>
    match d.edit (.openChild parent signature) with
    | (.issued h, d) => (recordAll h d children).finish h rest ended
    | (_, d) => d

/-- Records several calls below a node, one after the other. -/
def recordAll (parent : NodeRef) (d : Draft) : List Sketch → Draft
  | [] => d
  | first :: others => recordAll parent (record parent d first) others

end

/-- The recording of a root that goes on for `rest` after the last of the calls below it, and that is
left open if nobody ends it. -/
def draft (signature : String) (rest : UInt64) (ended : Bool) (children : List Sketch) : Draft :=
  let d := Draft.begin signature
  (recordAll d.tree.root d children).finish d.tree.root rest ended

end Sketch

end CallProfiler
