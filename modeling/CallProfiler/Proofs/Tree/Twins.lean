import CallProfiler.Tree.Edit
import CallProfiler.Proofs.Tree.Removal

/-!
# Proofs.Tree.Twins: trees do not feel their pool

A pool hands out nodes, and a signature is written behind what a node already holds. Two pools all of
whose nodes are blank are `Twins`: they may hold different numbers of nodes, one of them may be
switched off, and still no tree can tell them apart. Each operation on a tree has one lemma that says
so: with twins it returns the same and builds the same tree, and it leaves twins behind. `edit_twins`
puts them together.
-/

namespace CallProfiler

namespace NodePool

/-- Two pools that have nothing but blank nodes to hand out. -/
structure Twins (pool pool' : NodePool) : Prop where
  left : pool.AllBlank
  right : pool'.AllBlank

variable {pool pool' : NodePool}

/-- Twin pools hand out the same node. -/
theorem Twins.acquire (twins : pool.Twins pool') :
    pool.acquire.1 = pool'.acquire.1 ∧ pool.acquire.2.Twins pool'.acquire.2 :=
  ⟨twins.left.acquire_fst.trans twins.right.acquire_fst.symm,
    twins.left.acquire_snd, twins.right.acquire_snd⟩

end NodePool

namespace CallTree

variable {pool pool' : NodePool}

/-! ## Removing -/

/-- A removal is the same with both pools. -/
theorem remove_twins (t : CallTree) (twins : pool.Twins pool') (pending : List NodeRef) :
    (t.remove pool pending).1 = (t.remove pool' pending).1 ∧
    (t.remove pool pending).2.Twins (t.remove pool' pending).2 := by
  refine ⟨?_, allBlank_remove t twins.left pending, allBlank_remove t twins.right pending⟩
  clear twins
  induction t, pool, pending using remove.induct generalizing pool' with
  | case1 t pool => rw [remove_nil, remove_nil]
  | case2 t pool h pending n live ih =>
    rw [remove_live live, remove_live live]
    exact ih
  | case3 t pool h pending gone ih =>
    rw [remove_gone gone, remove_gone gone]
    exact ih

theorem recycle_twins (t : CallTree) (twins : pool.Twins pool') :
    (t.recycle pool).Twins (t.recycle pool') :=
  ⟨allBlank_recycle t twins.left, allBlank_recycle t twins.right⟩

/-! ## Trimming -/

/-- The children of a node are sorted alike with both pools. -/
theorem sift_twins (threshold : UInt64) (cs : List NodeRef) (t : CallTree)
    (twins : pool.Twins pool') :
    (sift threshold cs t pool).1 = (sift threshold cs t pool').1 ∧
    (sift threshold cs t pool).2.1 = (sift threshold cs t pool').2.1 ∧
    (sift threshold cs t pool).2.2.1 = (sift threshold cs t pool').2.2.1 ∧
    (sift threshold cs t pool).2.2.2.Twins (sift threshold cs t pool').2.2.2 := by
  induction cs generalizing t pool pool' with
  | nil => exact ⟨rfl, rfl, rfl, twins⟩
  | cons c rest ih =>
    unfold sift
    split
    · exact ih t twins
    · split
      · rcases remove_twins t twins [c] with ⟨tree, twins'⟩
        rcases ih (t.remove pool [c]).1 twins' with ⟨kept, credited, final, last⟩
        dsimp only
        rw [kept, credited, final, ← tree]
        exact ⟨rfl, rfl, rfl, tree ▸ last⟩
      · rcases ih t twins with ⟨kept, credited, final, last⟩
        dsimp only
        rw [kept, credited, final]
        exact ⟨rfl, rfl, rfl, last⟩

/-- A visit of a trim is the same with both pools. -/
theorem trimNode_twins (threshold : UInt64) (h : NodeRef) (t : CallTree)
    (twins : pool.Twins pool') :
    (t.trimNode pool threshold h).1 = (t.trimNode pool' threshold h).1 ∧
    (t.trimNode pool threshold h).2.1 = (t.trimNode pool' threshold h).2.1 ∧
    (t.trimNode pool threshold h).2.2.Twins (t.trimNode pool' threshold h).2.2 := by
  unfold trimNode
  split
  · exact ⟨rfl, rfl, twins⟩
  · next n live =>
    rcases sift_twins threshold n.children (t.update h ({ · with children := [] })) twins with
      ⟨kept, credited, final, last⟩
    dsimp only
    rw [kept, credited, final]
    exact ⟨rfl, rfl, last⟩

/-- So is a whole trim, by induction on its fuel. -/
theorem trimPending_twins (threshold : UInt64) (fuel : Nat) (pending : List NodeRef) (t : CallTree)
    (twins : pool.Twins pool') :
    (trimPending threshold fuel pending t pool).1 = (trimPending threshold fuel pending t pool').1 ∧
    (trimPending threshold fuel pending t pool).2.Twins
      (trimPending threshold fuel pending t pool').2 := by
  induction fuel generalizing t pool pool' pending with
  | zero => exact ⟨rfl, twins⟩
  | succ fuel ih =>
    cases pending with
    | nil => exact ⟨rfl, twins⟩
    | cons h pending =>
      rcases trimNode_twins threshold h t twins with ⟨kept, final, last⟩
      unfold trimPending
      dsimp only
      rw [← kept, ← final]
      exact ih _ _ last

/-! ## Recording -/

/-- A recording begins the same with both pools, since what they hand out is the same. -/
theorem begin_twins (twins : pool.Twins pool') (now : Reading) (signature : String) :
    (CallTree.begin pool now signature).1 = (CallTree.begin pool' now signature).1 ∧
    (CallTree.begin pool now signature).2.Twins (CallTree.begin pool' now signature).2 := by
  rcases twins.acquire with ⟨node, rest⟩
  unfold CallTree.begin
  dsimp only
  rw [node]
  exact ⟨rfl, rest⟩

/-- A call is started alike with both pools. -/
theorem openChild_twins (t : CallTree) (twins : pool.Twins pool') (now : Reading)
    (parent : NodeRef) (signature : String) :
    (t.openChild pool now parent signature).1 = (t.openChild pool' now parent signature).1 ∧
    (t.openChild pool now parent signature).2.1 = (t.openChild pool' now parent signature).2.1 ∧
    (t.openChild pool now parent signature).2.2.Twins
      (t.openChild pool' now parent signature).2.2 := by
  rcases twins.acquire with ⟨node, rest⟩
  unfold openChild
  split
  · exact ⟨rfl, rfl, twins⟩
  · dsimp only
    rw [node]
    split
    · exact ⟨rfl, rfl, rest⟩
    · exact ⟨rfl, rfl, rest⟩

/-- A measured call is added alike with both pools. -/
theorem addIoCall_twins (t : CallTree) (twins : pool.Twins pool') (now : Reading)
    (parent : NodeRef) (description : String) (duration : UInt64) :
    (t.addIoCall pool now parent description duration).1 =
      (t.addIoCall pool' now parent description duration).1 ∧
    (t.addIoCall pool now parent description duration).2.1 =
      (t.addIoCall pool' now parent description duration).2.1 ∧
    (t.addIoCall pool now parent description duration).2.2.Twins
      (t.addIoCall pool' now parent description duration).2.2 := by
  rcases twins.acquire with ⟨node, rest⟩
  unfold addIoCall
  split
  · exact ⟨rfl, rfl, twins⟩
  · dsimp only
    rw [node]
    split
    · exact ⟨rfl, rfl, rest⟩
    · exact ⟨rfl, rfl, rest⟩

/-- A call is ended alike with both pools. -/
theorem close_twins (t : CallTree) (twins : pool.Twins pool') (now : Reading) (h : NodeRef)
    (signature : Option String) (minimum : UInt64) :
    (t.close pool now h signature minimum).1 = (t.close pool' now h signature minimum).1 ∧
    (t.close pool now h signature minimum).2.1 = (t.close pool' now h signature minimum).2.1 ∧
    (t.close pool now h signature minimum).2.2.Twins
      (t.close pool' now h signature minimum).2.2 := by
  unfold close
  split
  · exact ⟨rfl, rfl, twins⟩
  · next node live =>
    dsimp only
    split
    · exact ⟨rfl, rfl, twins⟩
    · next parent caller =>
      split
      · rcases remove_twins ((t.update h fun _ => node.closedAt now signature).detach parent h)
          twins [h] with ⟨tree, last⟩
        exact ⟨rfl, tree, last⟩
      · split
        · exact ⟨rfl, rfl, twins⟩
        · exact ⟨rfl, rfl, twins⟩

/-- No change of a tree depends on what the pool holds. -/
theorem edit_twins (t : CallTree) (twins : pool.Twins pool') (now : Reading) (change : TreeEdit) :
    (t.edit pool now change).1 = (t.edit pool' now change).1 ∧
    (t.edit pool now change).2.1 = (t.edit pool' now change).2.1 ∧
    (t.edit pool now change).2.2.Twins (t.edit pool' now change).2.2 := by
  cases change with
  | openChild parent signature =>
    rcases openChild_twins t twins now parent signature with ⟨result, tree, rest⟩
    exact ⟨congrArg (EditAnswer.ofExcept .issued) result, tree, rest⟩
  | close node signature minimum =>
    rcases close_twins t twins now node signature minimum with ⟨result, tree, rest⟩
    exact ⟨congrArg (EditAnswer.ofExcept .closed) result, tree, rest⟩
  | addIoCall parent description duration =>
    rcases addIoCall_twins t twins now parent description duration with ⟨result, tree, rest⟩
    exact ⟨congrArg (EditAnswer.ofExcept .issued) result, tree, rest⟩
  | setSignature node signature => exact ⟨rfl, rfl, twins⟩
  | trim threshold =>
    rcases trimPending_twins threshold t.slots.size [t.root] t twins with ⟨tree, rest⟩
    exact ⟨rfl, tree, rest⟩

end CallTree

end CallProfiler
