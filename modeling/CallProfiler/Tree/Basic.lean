import CallProfiler.Tree.Pool

/-!
# Tree.Basic: the call tree of one execution

A tree keeps its nodes in numbered slots. A node that is removed leaves its slot vacant, with a new
generation, and the slot that became vacant last is filled first. Every operation goes through
handles; one whose node is gone is refused with `RecordError.staleNode`, and so is anything that
would go through it.

An operation takes the tree and the pool and returns both, also when it is refused: what a refused
operation leaves behind is a statement about the result, not a matter of its type.
-/

namespace CallProfiler

/-- A place for a node. -/
structure Slot where
  generation : UInt32
  node : Option CallNode
  deriving DecidableEq, Repr, Inhabited

/-- What a slot adds to the work of emptying the tree: its node and the node's children. -/
def Slot.weight (slot : Slot) : Nat :=
  match slot.node with
  | some node => node.children.length + 1
  | none => 0

/-- What happened to a node that was closed. -/
inductive CloseOutcome where
  | kept
  | pruned
  deriving DecidableEq, Repr

/-- The nodes of one execution. -/
structure CallTree where
  slots : Array Slot
  /-- The empty slots, the one that became vacant last first. -/
  vacant : List UInt32
  root : NodeRef
  deriving DecidableEq, Repr, Inhabited

namespace CallTree

/-! ## Looking at a tree -/

/-- The node of a handle, unless it is gone. -/
def get? (t : CallTree) (h : NodeRef) : Option CallNode :=
  match t.slots[h.index.toNat]? with
  | some slot => if slot.generation = h.generation then slot.node else none
  | none => none

/-- The root node. -/
def rootNode? (t : CallTree) : Option CallNode := t.get? t.root

/-- The gross time of the root, zero while it is open. -/
def totalTime (t : CallTree) : UInt64 := (t.rootNode?.map (·.gross)).getD 0

/-- The number of nodes. -/
def size (t : CallTree) : Nat := t.slots.size - t.vacant.length

/-- Whether the tree has no node. -/
def isEmpty (t : CallTree) : Bool := t.size == 0

/-- The children of a node, in call order and with their handles. -/
def children (t : CallTree) (h : NodeRef) : List (NodeRef × CallNode) :=
  match t.get? h with
  | some node => node.children.filterMap fun child => (t.get? child).map (child, ·)
  | none => []

/-- The parent of a node. -/
def parent? (t : CallTree) (h : NodeRef) : Option NodeRef := (t.get? h).bind (·.parent)

/-- Whether a node is the last child of its parent; also true of the root. -/
def isLastChild (t : CallTree) (h : NodeRef) : Bool :=
  match (t.parent? h).bind t.get? with
  | some parent => parent.children.getLast? == some h
  | none => true

/-- The chain of parents from a node upwards, at most `fuel` of them. -/
def parentChain (t : CallTree) : (fuel : Nat) → NodeRef → List NodeRef
  | 0, _ => []
  | fuel + 1, h =>
    match t.parent? h with
    | some parent => parent :: t.parentChain fuel parent
    | none => []

/-- The ancestors of a node, the parent first. No chain of parents is longer than the number of
slots. -/
def ancestors (t : CallTree) (h : NodeRef) : List NodeRef := t.parentChain t.slots.size h

/-- The number of ancestors of a node. -/
def depth (t : CallTree) (h : NodeRef) : Nat := (t.ancestors h).length

/-- Visits the pending handles and what is below them, parents before their children and in call
order; at most `fuel` nodes are visited. -/
def visit (t : CallTree) : (fuel : Nat) → (pending : List NodeRef) → List NodeRef
  | 0, _ => []
  | _ + 1, [] => []
  | fuel + 1, h :: pending =>
    match t.get? h with
    | some node => h :: t.visit fuel (node.children ++ pending)
    | none => t.visit fuel pending

/-- The handles of a node and of all below it, parents before their children and in call order. -/
def preorder (t : CallTree) (h : NodeRef) : List NodeRef := t.visit t.slots.size [h]

/-- The description of a tree. -/
def describe (t : CallTree) : String :=
  "CallTree \x7b root: NodeRef \x7b index: " ++ toString t.root.index.toNat ++ ", generation: " ++
    toString t.root.generation.toNat ++ " \x7d, len: " ++ toString t.size ++
    ", total_execution_time_nanos: " ++ toString t.totalTime.toNat ++ " \x7d"

/-! ## Filling and emptying slots -/

/-- Changes the node of a handle, unless it is gone. -/
def update (t : CallTree) (h : NodeRef) (f : CallNode → CallNode) : CallTree :=
  match t.get? h with
  | some node =>
    { t with slots := t.slots.setIfInBounds h.index.toNat ⟨h.generation, some (f node)⟩ }
  | none => t

/-- Puts a node into the slot that became vacant last, or into a new one. -/
def insert (t : CallTree) (node : CallNode) : NodeRef × CallTree :=
  match t.vacant with
  | index :: vacant =>
    let generation := (t.slots[index.toNat]?.map (·.generation)).getD 0
    (⟨index, generation⟩,
      { t with
        slots := t.slots.setIfInBounds index.toNat ⟨generation, some node⟩
        vacant := vacant })
  | [] => (⟨UInt32.ofNat t.slots.size, 0⟩, { t with slots := t.slots.push ⟨0, some node⟩ })

/-- Empties the slot of a handle and moves it to its next generation. -/
def vacate (t : CallTree) (h : NodeRef) : CallTree :=
  { t with
    slots := t.slots.setIfInBounds h.index.toNat ⟨h.generation + 1, none⟩
    vacant := h.index :: t.vacant }

/-- A bound on the work of emptying the tree. -/
def weight (t : CallTree) : Nat :=
  t.slots.toList.foldr (fun slot total => slot.weight + total) 0

theorem foldr_set {α : Type} (f : α → Nat) {l : List α} {i : Nat} {a : α} (h : l[i]? = some a)
    (b : α) : (l.set i b).foldr (fun c total => f c + total) 0 + f a =
      l.foldr (fun c total => f c + total) 0 + f b := by
  induction l generalizing i with
  | nil => simp at h
  | cons c l ih =>
    cases i with
    | zero =>
      simp only [List.getElem?_cons_zero, Option.some.injEq] at h
      subst h
      simp only [List.set_cons_zero, List.foldr_cons]
      omega
    | succ i =>
      simp only [List.getElem?_cons_succ] at h
      have := ih h
      simp only [List.set_cons_succ, List.foldr_cons]
      omega

theorem get?_eq_some_iff {t : CallTree} {h : NodeRef} {node : CallNode} :
    t.get? h = some node ↔ t.slots[h.index.toNat]? = some ⟨h.generation, some node⟩ := by
  unfold get?
  cases t.slots[h.index.toNat]? with
  | none => simp
  | some slot =>
    obtain ⟨generation, content⟩ := slot
    by_cases same : generation = h.generation <;> simp [same]

/-- Emptying the slot of a node takes away the weight of the node. -/
theorem weight_vacate {t : CallTree} {h : NodeRef} {node : CallNode} (live : t.get? h = some node) :
    (t.vacate h).weight + (node.children.length + 1) = t.weight := by
  have inSlot := get?_eq_some_iff.mp live
  rw [← Array.getElem?_toList] at inSlot
  have := foldr_set Slot.weight inSlot ⟨h.generation + 1, none⟩
  simpa [vacate, weight, Slot.weight] using this

/-- Removes the pending handles and all nodes below them, and gives the nodes back to the pool. The
last child of a removed node comes next. -/
def remove (t : CallTree) (pool : NodePool) (pending : List NodeRef) : CallTree × NodePool :=
  match pending with
  | [] => (t, pool)
  | h :: pending =>
    match _live : t.get? h with
    | some node => remove (t.vacate h) (pool.release node) (node.children.reverse ++ pending)
    | none => remove t pool pending
  termination_by t.weight + pending.length
  decreasing_by
  · have := weight_vacate _live
    simp only [List.length_append, List.length_reverse, List.length_cons]
    omega
  · simp

/-- Takes a handle out of the children of its parent. -/
def detach (t : CallTree) (parent h : NodeRef) : CallTree :=
  t.update parent fun p =>
    { p with children :=
        if p.children.getLast? = some h then p.children.dropLast
        else p.children.filter (· ≠ h) }

/-! ## Recording -/

/-- A tree whose root starts now. -/
def begin (pool : NodePool) (now : Reading) (signature : String) : CallTree × NodePool :=
  let (node, pool) := pool.acquire
  let (root, t) := insert ⟨#[], [], ⟨0, 0⟩⟩ (node.begun signature now none)
  ({ t with root := root }, pool)

/-- Starts a call below a node. -/
def openChild (t : CallTree) (pool : NodePool) (now : Reading) (parent : NodeRef)
    (signature : String) : Except RecordError NodeRef × CallTree × NodePool :=
  match t.get? parent with
  | none => (.error (.staleNode parent), t, pool)
  | some _ =>
    let (node, pool) := pool.acquire
    let (child, t) := t.insert (node.begun signature now (some parent))
    -- the parent is looked up again in the tree that holds the child
    match t.get? parent with
    | none => (.error (.staleNode parent), t, pool)
    | some _ =>
      (.ok child, t.update parent fun p => { p with children := p.children ++ [child] }, pool)

/-- Ends a call. A call below the root that was faster than `minimum` is removed with all below it,
and its time stays with its parent; any other is charged to its parent. -/
def close (t : CallTree) (pool : NodePool) (now : Reading) (h : NodeRef) (signature : Option String)
    (minimum : UInt64) : Except RecordError CloseOutcome × CallTree × NodePool :=
  match t.get? h with
  | none => (.error (.staleNode h), t, pool)
  | some node =>
    let closed := node.closedAt now signature
    let t := t.update h fun _ => closed
    match closed.parent with
    -- the root has nobody to charge, and is never removed
    | none => (.ok .kept, t, pool)
    | some parent =>
      if closed.gross < minimum then
        let (t, pool) := (t.detach parent h).remove pool [h]
        (.ok .pruned, t, pool)
      else
        match t.get? parent with
        | none => (.error (.staleNode parent), t, pool)
        | some _ => (.ok .kept, t.update parent (·.charge closed.gross), pool)

/-- Records a call of a known duration as a leaf below a node. -/
def addIoCall (t : CallTree) (pool : NodePool) (now : Reading) (parent : NodeRef)
    (description : String) (duration : UInt64) :
    Except RecordError NodeRef × CallTree × NodePool :=
  match t.get? parent with
  | none => (.error (.staleNode parent), t, pool)
  | some _ =>
    let (node, pool) := pool.acquire
    let (child, t) := t.insert (node.measured description duration now parent)
    match t.get? parent with
    | none => (.error (.staleNode parent), t, pool)
    | some _ =>
      (.ok child,
        t.update parent fun p => { p with children := p.children ++ [child] }.charge duration,
        pool)

/-- Gives a call another signature. -/
def setSignature (t : CallTree) (h : NodeRef) (signature : String) :
    Except RecordError Unit × CallTree :=
  match t.get? h with
  | none => (.error (.staleNode h), t)
  | some _ => (.ok (), t.update h ({ · with signature := signature }))

/-- Gives all nodes back to the pool, slot by slot. -/
def recycle (t : CallTree) (pool : NodePool) : NodePool :=
  t.slots.toList.foldl (fun pool slot => match slot.node with
    | some node => pool.release node
    | none => pool) pool

end CallTree

end CallProfiler
