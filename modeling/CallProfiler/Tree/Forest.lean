import CallProfiler.Tree.Edit

/-!
# Tree.Forest: several trees that share a pool

A forest numbers its trees and remembers every handle that was ever issued, so that any handle can be
used on any tree, also on the wrong one or after its node is gone.
-/

namespace CallProfiler

/-- Trees that share a pool and a clock. -/
structure Forest where
  now : Reading := 0
  pool : NodePool := {}
  /-- The trees in the order in which they were begun; `none` for those that were given back. -/
  trees : Array (Option CallTree) := #[]
  /-- The handles in the order in which they were issued. -/
  handles : Array NodeRef := #[]
  deriving Repr, Inhabited

namespace Forest

/-- What a request names that is not there. -/
inductive Missing where
  | tree
  | handle
  deriving DecidableEq, Repr

/-- The tree with a number, unless it was given back. -/
def tree? (f : Forest) (t : Nat) : Option CallTree := f.trees[t]?.join

/-- The tree and the handle with these numbers; a missing tree is reported first. -/
def locate (f : Forest) (t h : Nat) : Except Missing (CallTree × NodeRef) :=
  match f.tree? t, f.handles[h]? with
  | none, _ => .error .tree
  | some _, none => .error .handle
  | some tree, some handle => .ok (tree, handle)

/-- Moves the clock. -/
def tick (f : Forest) (step : ClockStep) : Forest := { f with now := step.apply f.now }

/-- Begins a tree, and issues the handle of its root. -/
def plant (f : Forest) (signature : String) : NodeRef × Forest :=
  let (tree, pool) := CallTree.begin f.pool f.now signature
  (tree.root,
    { f with pool := pool, trees := f.trees.push (some tree), handles := f.handles.push tree.root })

/-- Changes a tree with a handle; a handle that is issued is remembered. -/
def edit (f : Forest) (t h : Nat) (change : NodeRef → TreeEdit) : Except Missing EditAnswer × Forest :=
  match f.locate t h with
  | .error missing => (.error missing, f)
  | .ok (tree, handle) =>
    let (answer, tree, pool) := tree.edit f.pool f.now (change handle)
    let handles := match answer with
      | .issued node => f.handles.push node
      | _ => f.handles
    (.ok answer, { f with pool := pool, trees := f.trees.setIfInBounds t (some tree), handles := handles })

/-- Gives a tree back to the pool, if it is there. -/
def recycle (f : Forest) (t : Nat) : Forest :=
  match f.tree? t with
  | none => f
  | some tree =>
    { f with pool := tree.recycle f.pool, trees := f.trees.setIfInBounds t none }

/-- Takes nodes out of the pool and throws them away; says of each whether it was blank. -/
def discard (f : Forest) : (times : Nat) → List Bool × Forest
  | 0 => ([], f)
  | times + 1 =>
    let (node, pool) := f.pool.acquire
    let (blanks, f) := discard { f with pool := pool } times
    (node.isBlank :: blanks, f)

end Forest

end CallProfiler
