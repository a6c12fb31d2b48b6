import CallProfiler.Tree.Node

/-!
# Tree.Pool: nodes that are used again

All trees take their nodes from one pool and give them back to it. The pool hands out the node that
was released last, or a new one if it has none. A pool that is switched off keeps nothing.
-/

namespace CallProfiler

/-- A pool of nodes. -/
structure NodePool where
  /-- Whether released nodes are kept. -/
  enabled : Bool := true
  /-- The nodes that wait for use, the one released last first. -/
  free : List CallNode := []
  /-- How many nodes were made. -/
  allocated : UInt64 := 0
  /-- How many nodes were handed out again. -/
  reused : UInt64 := 0
  deriving DecidableEq, Repr, Inhabited

namespace NodePool

/-- Hands out a node. -/
def acquire (pool : NodePool) : CallNode × NodePool :=
  match pool.enabled, pool.free with
  | true, node :: free => (node, { pool with free := free, reused := pool.reused + 1 })
  | _, _ => (.blank, { pool with allocated := pool.allocated + 1 })

/-- Takes a node back, cleared. -/
def release (pool : NodePool) (node : CallNode) : NodePool :=
  if pool.enabled then { pool with free := node.reset :: pool.free } else pool

/-- How many nodes wait for use. -/
def available (pool : NodePool) : Nat := pool.free.length

end NodePool

end CallProfiler
