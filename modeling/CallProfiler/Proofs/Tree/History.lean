import CallProfiler.Proofs.Tree.Paths
import Mathlib.Order.Bounds.Defs

/-!
# Proofs.Tree.History: what holds of a tree at every time

A `SharedTree` is a tree with the pool that it shares with other trees. Its history is a list of
events: edits through any handles at any readings, and what the other users of the pool do to it.

* `SharedTree.Good` — the invariant: the arena is well-formed and the pool is blank
* `Good.step` and `Good.run` — one event keeps it, and so does every history with room for its slots
* `sound_of_history` — what the invariant says about the readings of the tree, and that the number of
  slots is the greatest number of nodes that were ever in the tree at once
-/

namespace CallProfiler

/-! ## The pool -/

/-- What the other users of a pool do to it. -/
inductive PoolEvent where
  | taken
  | given (node : CallNode)

namespace NodePool

/-- The pool after an event. -/
def after (pool : NodePool) : PoolEvent → NodePool
  | .taken => pool.acquire.2
  | .given node => pool.release node

/-- A pool that has been used in any way. -/
def used (pooling : Bool) (events : List PoolEvent) : NodePool :=
  events.foldl after { enabled := pooling }

/-- Whatever other users do to a pool, it stays blank. -/
theorem AllBlank.after {pool : NodePool} (blank : pool.AllBlank) (e : PoolEvent) :
    (pool.after e).AllBlank := by
  cases e with
  | taken => exact blank.acquire_snd
  | given node => exact blank.release node

/-- A pool is blank after any use. -/
theorem allBlank_used (pooling : Bool) (events : List PoolEvent) :
    (used pooling events).AllBlank := by
  have keeps : ∀ pool : NodePool, pool.AllBlank → (events.foldl NodePool.after pool).AllBlank := by
    induction events with
    | nil => exact fun _ blank => blank
    | cons e rest ih => exact fun pool blank => ih (pool.after e) (blank.after e)
  apply keeps
  intro n hn
  exact absurd hn (by simp)

end NodePool

/-! ## Slots are never given back -/

namespace CallTree

variable (t : CallTree) (pool : NodePool)

theorem size_update (h : NodeRef) (f : CallNode → CallNode) :
    (t.update h f).slots.size = t.slots.size :=
  (thinned_update t h f).size

theorem size_remove (pending : List NodeRef) :
    (t.remove pool pending).1.slots.size = t.slots.size :=
  (thinned_remove t pool pending).size

/-- A trim neither adds nor gives back slots. -/
theorem size_trimPending (threshold : UInt64) (fuel : Nat) (pending : List NodeRef) :
    (trimPending threshold fuel pending t pool).1.slots.size = t.slots.size :=
  (thinned_trimPending ..).size

/-- A new node takes a vacant slot if there is one, and else adds a slot. -/
theorem size_insert_le (n : CallNode) : t.slots.size ≤ (t.insert n).2.slots.size := by
  unfold insert
  split
  · exact Nat.le_of_eq Array.size_setIfInBounds.symm
  · show t.slots.size ≤ (t.slots.push _).size
    rw [Array.size_push]
    omega

/-- No change gives slots back, whether or not the tree is well-formed. -/
theorem size_edit_le (now : Reading) (change : TreeEdit) :
    t.slots.size ≤ (t.edit pool now change).2.1.slots.size := by
  cases change with
  | openChild parent signature =>
    simp only [edit, openChild]
    split
    · exact Nat.le_refl _
    · split
      · exact size_insert_le t _
      · show t.slots.size ≤ (CallTree.update _ _ _).slots.size
        rw [size_update]
        exact size_insert_le t _
  | close node signature minimum =>
    simp only [edit, close]
    split
    · exact Nat.le_refl _
    · split
      · exact Nat.le_of_eq (size_update t _ _).symm
      · split
        · refine Nat.le_of_eq ?_
          show t.slots.size = ((CallTree.detach _ _ _).remove _ _).1.slots.size
          rw [size_remove, detach, size_update, size_update]
        · split
          · exact Nat.le_of_eq (size_update t _ _).symm
          · refine Nat.le_of_eq ?_
            show t.slots.size = (CallTree.update _ _ _).slots.size
            rw [size_update, size_update]
  | addIoCall parent description duration =>
    simp only [edit, addIoCall]
    split
    · exact Nat.le_refl _
    · split
      · exact size_insert_le t _
      · show t.slots.size ≤ (CallTree.update _ _ _).slots.size
        rw [size_update]
        exact size_insert_le t _
  | setSignature node signature =>
    simp only [edit, setSignature]
    split
    · exact Nat.le_refl _
    · exact Nat.le_of_eq (size_update t _ _).symm
  | trim threshold =>
    exact Nat.le_of_eq (size_trimPending t pool threshold t.slots.size [t.root]).symm

end CallTree

/-! ## Histories -/

/-- A tree and the pool that it shares. -/
structure SharedTree where
  tree : CallTree
  pool : NodePool

/-- An event in the life of a tree. -/
inductive TreeEvent where
  | edit (now : Reading) (change : TreeEdit)
  | pool (e : PoolEvent)

namespace SharedTree

/-- A tree whose root starts now, with a pool that has been used before. -/
def begin (pooling : Bool) (before : List PoolEvent) (now : Reading) (signature : String) :
    SharedTree :=
  let (tree, pool) := CallTree.begin (.used pooling before) now signature
  { tree, pool }

/-- The tree and the pool after an event. -/
def step (s : SharedTree) : TreeEvent → SharedTree
  | .edit now change =>
    let (_, tree, pool) := s.tree.edit s.pool now change
    { tree, pool }
  | .pool e => { s with pool := s.pool.after e }

/-- The tree and the pool after a history. -/
def run (s : SharedTree) (events : List TreeEvent) : SharedTree := events.foldl step s

/-- All states that a history goes through, the first and the last one included. -/
def visited (s : SharedTree) : List TreeEvent → List SharedTree
  | [] => [s]
  | e :: rest => s :: (s.step e).visited rest

/-- The invariant of a tree and its pool. -/
structure Good (s : SharedTree) : Prop where
  tree : s.tree.WellFormed
  pool : s.pool.AllBlank

variable {s : SharedTree}

/-- A history begins with one slot, which holds the root. -/
theorem begin_tree (pooling : Bool) (before : List PoolEvent) (now : Reading)
    (signature : String) : (begin pooling before now signature).tree =
      ⟨#[⟨0, some (CallNode.blank.begun signature now none)⟩], [], ⟨0, 0⟩⟩ :=
  (CallTree.begin_spec (NodePool.allBlank_used pooling before) now signature).1

/-- The invariant holds of a tree that begins now. -/
theorem good_begin (pooling : Bool) (before : List PoolEvent) (now : Reading)
    (signature : String) : (begin pooling before now signature).Good where
  tree := CallTree.wellFormed_begin (NodePool.allBlank_used pooling before) now signature
  pool := (CallTree.begin_spec (NodePool.allBlank_used pooling before) now signature).2

/-- One event keeps the invariant, if there is a number for one more slot. -/
theorem Good.step (good : s.Good) (room : s.tree.slots.size < 2 ^ 32) (e : TreeEvent) :
    (s.step e).Good ∧ CallTree.Evolved s.tree (s.step e).tree := by
  cases e with
  | edit now change =>
    rcases good.tree.edit room good.pool now change with ⟨tree, evolved, pool⟩
    exact ⟨⟨tree, pool⟩, evolved⟩
  | pool e => exact ⟨⟨good.tree, good.pool.after e⟩, (CallTree.Thinned.refl s.tree).evolved⟩

theorem size_step_le (s : SharedTree) (e : TreeEvent) :
    s.tree.slots.size ≤ (s.step e).tree.slots.size := by
  cases e with
  | edit now change => exact CallTree.size_edit_le s.tree s.pool now change
  | pool e => exact Nat.le_refl _

/-- Slots are never given back, so a bound on their number at the end holds all the time. -/
theorem size_run_le (s : SharedTree) (events : List TreeEvent) :
    s.tree.slots.size ≤ (s.run events).tree.slots.size := by
  induction events generalizing s with
  | nil => exact Nat.le_refl _
  | cons e rest ih => exact Nat.le_trans (s.size_step_le e) (ih (s.step e))

/-- A history keeps the invariant, by induction, as long as its slots can be numbered at the end. -/
theorem Good.run (good : s.Good) {events : List TreeEvent}
    (room : (s.run events).tree.slots.size < 2 ^ 32) : (s.run events).Good := by
  induction events generalizing s with
  | nil => exact good
  | cons e rest ih =>
    have now := Nat.lt_of_le_of_lt (s.size_run_le (e :: rest)) room
    exact ih (good.step now e).1 room

/-! ## The greatest number of nodes -/

/-- A state of a history holds at most as many nodes as there are slots in the end. -/
theorem size_le_of_visited {events : List TreeEvent} {v : SharedTree} (hv : v ∈ s.visited events) :
    v.tree.size ≤ (s.run events).tree.slots.size := by
  induction events generalizing s with
  | nil =>
    have same : v = s := List.mem_singleton.mp hv
    rw [same]
    exact s.tree.size_le
  | cons e rest ih =>
    rcases List.mem_cons.mp hv with same | later
    · rw [same]
      exact Nat.le_trans s.tree.size_le (s.size_run_le (e :: rest))
    · exact ih later

theorem mem_visited_self (s : SharedTree) (events : List TreeEvent) : s ∈ s.visited events := by
  cases events with
  | nil => exact List.mem_singleton_self s
  | cons e rest => exact List.mem_cons_self ..

/-- A slot is added only to a full tree, so a history that adds slots goes through a state in which
the last of them has just been filled, and no other is vacant. -/
theorem Good.grown (good : s.Good) {events : List TreeEvent}
    (room : (s.run events).tree.slots.size < 2 ^ 32) :
    (s.run events).tree.slots.size = s.tree.slots.size ∨
      ∃ v ∈ s.visited events, (s.run events).tree.slots.size = v.tree.size := by
  induction events generalizing s with
  | nil => exact Or.inl rfl
  | cons e rest ih =>
    have now := Nat.lt_of_le_of_lt (s.size_run_le (e :: rest)) room
    rcases good.step now e with ⟨next, evolved⟩
    rcases ih next room with same | ⟨v, hv, size⟩
    · rcases evolved.size with kept | ⟨full, _⟩
      · exact Or.inl (same.trans kept)
      · -- the state after the event is the last one with a new slot
        refine Or.inr ⟨s.step e, List.mem_cons_of_mem _ (mem_visited_self _ rest), ?_⟩
        rw [CallTree.size_eq_of_full full]
        exact same
    · exact Or.inr ⟨v, List.mem_cons_of_mem _ hv, size⟩

end SharedTree

/-! ## What the invariant says -/

namespace CallTree

/-- What holds of a tree at every time. -/
structure Sound (t : CallTree) : Prop where
  vacant_nodup : t.vacant.Nodup
  mem_vacant : ∀ i : UInt32, i ∈ t.vacant ↔ ∃ g, t.slots[i.toNat]? = some ⟨g, none⟩
  /-- The size counts the nodes, which the preorder of the root lists once each. -/
  size_eq : t.size = (t.preorder t.root).length
  preorder_nodup : (t.preorder t.root).Nodup
  mem_preorder : ∀ h, h ∈ t.preorder t.root ↔ t.Live h
  /-- The walk through the tree ends by itself. -/
  preorder_ends : ∀ fuel, t.slots.size ≤ fuel → t.visit fuel [t.root] = t.preorder t.root
  root_live : ∃ n, t.get? t.root = some n ∧ n.parent = none
  parent_live : ∀ h n, t.get? h = some n → h ≠ t.root →
    ∃ p pn, n.parent = some p ∧ t.get? p = some pn ∧ pn.children.count h = 1 ∧
      ∀ q qn, t.get? q = some qn → h ∈ qn.children → q = p
  child_live : ∀ p pn c, t.get? p = some pn → c ∈ pn.children →
    ∃ cn, t.get? c = some cn ∧ cn.parent = some p
  acyclic : WellFounded fun p h => t.parent? h = some p
  /-- The way up from any handle ends by itself, and that of a node ends at the root. -/
  depth_ends : ∀ h fuel, t.slots.size ≤ fuel → (t.parentChain fuel h).length = t.depth h
  ends_at_root : ∀ h, t.Live h → (h :: t.ancestors h).getLast? = some t.root

variable {t : CallTree}

/-- What the invariant gives to readers of the tree. -/
theorem WellFormed.sound (ok : t.WellFormed) : t.Sound where
  vacant_nodup := ok.vacant_nodup
  mem_vacant := ok.mem_vacant
  size_eq := size_eq_length_preorder ok
  preorder_nodup := nodup_preorder ok ok.toLinked.live_root
  mem_preorder := fun h => mem_preorder_root ok
  preorder_ends := fun fuel enough => (ok.tour_preorder ok.toLinked.live_root enough).1
  root_live := ok.root_live
  parent_live := by
    intro h n hn notRoot
    rcases ok.parent_live hn notRoot with ⟨p, pn, parent, hp, mem⟩
    refine ⟨p, pn, parent, hp, List.count_eq_one_of_mem (ok.children_nodup hp) mem, ?_⟩
    intro q qn hq listed
    rcases ok.child_live hq listed with ⟨m, hm, parentq⟩
    have same := Option.mem_unique hn hm
    rw [← same, parent] at parentq
    exact (Option.some.inj parentq).symm
  child_live := fun p pn c hp hc => ok.child_live hp hc
  acyclic := ok.toLinked.wellFounded_parent
  depth_ends := by
    intro h fuel enough
    unfold depth
    cases live : t.get? h with
    | none => rw [parentChain_gone live, ancestors, parentChain_gone live]
    | some n =>
      have path := ok.path_ancestors ⟨n, live⟩
      have lt := path.length_lt ok
      rw [path.chain (by omega)]
  ends_at_root := fun h live => (ok.path_ancestors live).last ok.toLinked

end CallTree

/-- A tree is sound after any changes and any use of its pool, and it has as many slots as the
greatest number of nodes that it ever held at once. Assumed: its slots can be numbered in 32 bits. -/
theorem sound_of_history (pooling : Bool) (before : List PoolEvent) (now : Reading)
    (signature : String) (events : List TreeEvent)
    (room : ((SharedTree.begin pooling before now signature).run events).tree.slots.size < 2 ^ 32) :
    ((SharedTree.begin pooling before now signature).run events).tree.Sound ∧
    IsGreatest
      {k | ∃ s ∈ (SharedTree.begin pooling before now signature).visited events, k = s.tree.size}
      ((SharedTree.begin pooling before now signature).run events).tree.slots.size := by
  have good := SharedTree.good_begin pooling before now signature
  have full : (SharedTree.begin pooling before now signature).tree.slots.size =
      (SharedTree.begin pooling before now signature).tree.size := by
    rw [SharedTree.begin_tree]
    rfl
  constructor
  · exact (good.run room).tree.sound
  constructor
  · -- the first state holds as many nodes as it has slots, one
    rcases good.grown room with same | found
    · exact ⟨_, SharedTree.mem_visited_self _ events, same.trans full⟩
    · exact found
  · intro k hk
    rcases hk with ⟨s, hs, size⟩
    rw [size]
    exact SharedTree.size_le_of_visited hs

/-- A history in which a call is pruned with the leaf below it, its old handle is tried again, its
slot is used again, and the rest is trimmed. -/
def prunedHistory : List TreeEvent :=
  [.edit 10 (.openChild ⟨0, 0⟩ "load"), .edit 12 (.addIoCall ⟨1, 0⟩ "read" 5),
    .edit 15 (.close ⟨1, 0⟩ none 100), .edit 16 (.openChild ⟨1, 0⟩ "late"), .pool .taken,
    .edit 20 (.openChild ⟨0, 0⟩ "again"), .edit 30 (.close ⟨0, 0⟩ none 0), .edit 30 (.trim 50)]

/-- A history that prunes, reuses slots and uses a stale handle is one to which the result applies. -/
theorem sound_after_pruning :
    ((SharedTree.begin true [] 0 "job").run prunedHistory).tree.slots.size < 2 ^ 32 ∧
    ((SharedTree.begin true [] 0 "job").run prunedHistory).tree.Sound := by
  have room : ((SharedTree.begin true [] 0 "job").run prunedHistory).tree.slots.size < 2 ^ 32 := by
    decide +kernel
  exact ⟨room, (sound_of_history true [] 0 "job" prunedHistory room).1⟩

end CallProfiler
