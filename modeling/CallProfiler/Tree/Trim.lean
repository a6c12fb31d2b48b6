import CallProfiler.Tree.Basic

/-!
# Tree.Trim: dropping fast calls afterwards

Trimming goes through a tree from the root and removes every closed call below the threshold, with
all that is below it. Each visited node keeps its other children. The net time of a closed node is
then computed anew from the children it keeps; an open node gets the time of its removed children
back.
-/

namespace CallProfiler.CallTree

/-- Splits children: the fast ones are removed one after the other, and their time is added up; the
others are kept. Children that are gone already are dropped. -/
def sift (threshold : UInt64) : List NodeRef → CallTree → NodePool →
    List NodeRef × UInt64 × CallTree × NodePool
  | [], t, pool => ([], 0, t, pool)
  | child :: rest, t, pool =>
    match t.get? child with
    | none => sift threshold rest t pool
    | some node =>
      if node.closed && node.gross < threshold then
        let (t, pool) := t.remove pool [child]
        let (kept, credited, t, pool) := sift threshold rest t pool
        (kept, node.gross + credited, t, pool)
      else
        let (kept, credited, t, pool) := sift threshold rest t pool
        (child :: kept, credited, t, pool)

/-- The gross times of some nodes together, at most the greatest reading. -/
def grossTotal (t : CallTree) (hs : List NodeRef) : UInt64 :=
  (hs.filterMap t.get?).foldl (fun total node => saturatingAdd total node.gross) 0

/-- Trims the children of one node, and returns those it keeps. -/
def trimNode (t : CallTree) (pool : NodePool) (threshold : UInt64) (h : NodeRef) :
    List NodeRef × CallTree × NodePool :=
  match t.get? h with
  | none => ([], t, pool)
  | some node =>
    -- the node is without children until it is known which of them it keeps
    let (kept, credited, t, pool) :=
      sift threshold node.children (t.update h ({ · with children := [] })) pool
    let keptTime := t.grossTotal kept
    (kept,
      t.update h fun n =>
        { n with
          children := kept
          net := if n.closed then saturatingSub n.gross keptTime else n.net + credited },
      pool)

/-- Trims the pending nodes and those that they keep, the last kept child first; at most `fuel` nodes
are visited. -/
def trimPending (threshold : UInt64) : (fuel : Nat) → (pending : List NodeRef) → CallTree →
    NodePool → CallTree × NodePool
  | 0, _, t, pool => (t, pool)
  | _ + 1, [], t, pool => (t, pool)
  | fuel + 1, h :: pending, t, pool =>
    let (kept, t, pool) := t.trimNode pool threshold h
    trimPending threshold fuel (kept.reverse ++ pending) t pool

/-- Drops every closed call faster than the threshold, except the root. No node is visited twice, so
the number of slots bounds the visits. -/
def removeCallsFasterThan (t : CallTree) (pool : NodePool) (threshold : UInt64) :
    CallTree × NodePool :=
  trimPending threshold t.slots.size [t.root] t pool

end CallProfiler.CallTree
