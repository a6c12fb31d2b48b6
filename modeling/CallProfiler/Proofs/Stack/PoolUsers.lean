import CallProfiler.Proofs.Stack.Balance
import CallProfiler.Proofs.Stack.Isolation
import CallProfiler.Proofs.Tree.Ledger
import Mathlib.Order.Bounds.Basic

/-!
# Proofs.Stack.PoolUsers: the counters of a pool follow its use

`PoolUsers` are the stacks and trees of a party on one profiler, with the nodes that were taken out of
the pool by hand and never came back.

* `CallStack.apply_dealt`, `Party.make_dealt`, `PoolUsers.step_dealt` — how many nodes an operation, a
  move and an event take, also when they are refused
* `PoolUsers.Settled` — the ledger of the pool, with the nodes of all stacks and trees in use:
  `Settled.step`, then `Settled.run`
* `counters_follow_use` — the counters after any events
-/

namespace CallProfiler

/-! ## Stacks -/

namespace CallStack

open NodePool

variable {s : CallStack} {p : Profiler}

/-- The tree of the running recording, if there is one, holds each vacant slot once. -/
def Counted (s : CallStack) : Prop := ∀ r, s.recording = some r → r.tree.Counted

/-- How many nodes an operation takes: a recording that begins takes one, and so does a call below the
innermost open one, unless it is faster than the threshold. -/
def takes (s : CallStack) : StackOp → Nat
  | .activate _ => if s.isActive then 0 else 1
  | .start signature =>
    match s.recording with
    | some r => r.tree.takes (.openChild r.current signature)
    | none => 0
  | .io description duration =>
    match s.recording with
    | some r =>
      if duration < s.minimum then 0 else r.tree.takes (.addIoCall r.current description duration)
    | none => 0
  | .stop _ | .rename _ | .deactivate => 0

theorem counted_of_idle (idle : s.recording = none) : s.Counted := by
  intro r recording
  rw [idle] at recording
  exact absurd recording (by simp)

theorem counted_mk {t : CallTree} {x : NodeRef} {minimum : UInt64} :
    Counted ⟨some ⟨t, x⟩, minimum⟩ ↔ t.Counted :=
  ⟨fun ok => ok _ rfl, fun ok _ hr => Option.some.inj hr ▸ ok⟩

/-- A stack that is dropped gives the nodes of its recording back. -/
theorem gave_drop (ok : s.Counted) (p : Profiler) : p.pool.Gave s.nodes (s.drop p).pool 0 := by
  rcases s with ⟨_ | ⟨t, x⟩, minimum⟩
  · exact .refl p.pool 0
  · exact CallTree.gave_recycle (counted_mk.mp ok) p.pool

/-- A stop gives back what it removes, and the tree that it hands over keeps its nodes. -/
theorem stopWith_gave (ok : s.Counted) (p : Profiler) (signature : Option String) :
    (s.stopWith p signature).2.1.Counted ∧
    (∀ t, (s.stopWith p signature).1 = some t → t.Counted) ∧
    p.pool.Gave s.nodes (s.stopWith p signature).2.2.pool ((s.stopWith p signature).2.1.nodes +
      ((s.stopWith p signature).1.map CallTree.size).getD 0) := by
  rcases s with ⟨_ | ⟨t, x⟩, minimum⟩
  · exact ⟨ok, by simp [stopWith], .refl p.pool _⟩
  · rcases CallTree.gave_close (counted_mk.mp ok) p.pool p.now x signature minimum with
      ⟨counted, closed⟩
    unfold stopWith
    dsimp only
    split
    -- what is left of a recording that is given up goes back as well
    · have dropped := gave_drop (s := ⟨some ⟨_, x⟩, minimum⟩) (counted_mk.mpr counted)
        { p with pool := (t.close p.pool p.now x signature minimum).2.2 }
      exact ⟨counted_of_idle rfl, by simp, closed.trans dropped⟩
    · exact ⟨counted_mk.mpr counted, by simp, closed⟩
    · refine ⟨counted_of_idle rfl, fun u hu => Option.some.inj hu ▸ counted, ?_⟩
      rw [nodes_mk]
      simpa [nodes] using closed

/-- An operation takes as many nodes as it should. The nodes of a tree that is finished by it are
still in use. -/
theorem apply_dealt (ok : s.Counted) (p : Profiler) (op : StackOp) :
    (apply p s op).2.1.Counted ∧ (∀ t, (apply p s op).1.tree? = some t → t.Counted) ∧
    p.pool.Dealt s.nodes (s.takes op) (apply p s op).2.2.pool
      ((apply p s op).2.1.nodes + ((apply p s op).1.tree?.map CallTree.size).getD 0) := by
  cases op with
  | activate signature =>
    rcases s with ⟨_ | r, minimum⟩
    · rcases CallTree.begin_dealt p.pool p.now signature with ⟨counted, dealt⟩
      exact ⟨counted_mk.mpr counted, by simp [apply, activate, isActive, StackAnswer.tree?], dealt⟩
    · exact ⟨ok, by simp [apply, activate, isActive, StackAnswer.tree?], .idle p.pool _⟩
  | start signature =>
    rcases s with ⟨_ | ⟨t, x⟩, minimum⟩
    · exact ⟨ok, by simp [apply, StackAnswer.tree?], .idle p.pool _⟩
    · rcases CallTree.openChild_dealt (counted_mk.mp ok) p.pool p.now x signature with
        ⟨counted, dealt⟩
      exact ⟨counted_mk.mpr counted, by simp [apply, StackAnswer.tree?], dealt⟩
  | stop signature =>
    rcases stopWith_gave ok p signature with ⟨counted, finished, gave⟩
    rw [tree?_apply, apply_stop]
    exact ⟨counted, finished, .gave gave⟩
  | io description duration =>
    rcases s with ⟨_ | ⟨t, x⟩, minimum⟩
    · exact ⟨ok, by simp [apply, StackAnswer.tree?], .idle p.pool _⟩
    · by_cases fast : duration < minimum
      · simp only [apply, addIoCall, takes, fast, if_true]
        exact ⟨ok, by simp [StackAnswer.tree?], .idle p.pool _⟩
      · rcases CallTree.addIoCall_dealt (counted_mk.mp ok) p.pool p.now x description duration with
          ⟨counted, dealt⟩
        simp only [apply, addIoCall, takes, fast, if_false]
        exact ⟨counted_mk.mpr counted, by simp [StackAnswer.tree?], dealt⟩
  | rename signature =>
    rcases s with ⟨_ | ⟨t, x⟩, minimum⟩
    · exact ⟨ok, by simp [apply, setCurrentSignature, StackAnswer.tree?], .idle p.pool _⟩
    · rcases CallTree.edit_dealt (counted_mk.mp ok) p.pool p.now (.setSignature x signature) with
        ⟨counted, dealt⟩
      rw [apply_rename]
      exact ⟨counted_mk.mpr counted, by split <;> simp [StackAnswer.tree?], by split <;> exact dealt⟩
  | deactivate =>
    exact ⟨counted_of_idle rfl, by simp [apply, StackAnswer.tree?], .gave (gave_drop ok p)⟩

end CallStack

/-! ## Those who use a pool -/

/-- All that uses one pool: stacks and trees on a profiler, and the nodes that were taken out of the
pool by hand and never came back. -/
structure PoolUsers where
  shared : Profiler
  party : Party := {}
  discarded : Nat := 0

/-- What happens to them. -/
inductive PoolUse where
  | move (move : PartyMove)
  /-- Drops a stack, with the recording that may run on it. -/
  | dropStack (k : Nat)
  | clock (step : ClockStep)
  | threshold (nanos : UInt64)

/-- How many nodes a move takes by hand. -/
def PartyMove.discards : PartyMove → Nat
  | .acquire => 1
  | _ => 0

/-- The number of nodes in a tree, none if it has been given back. -/
def treeNodes (tree : Option CallTree) : Nat := (tree.map CallTree.size).getD 0

namespace Party

/-- The nodes of all stacks and trees of a party. -/
def nodes (party : Party) : Nat :=
  (party.cursors.map CallStack.nodes).sum + (party.trees.map treeNodes).sum

/-- How many nodes a move takes. -/
def takes (party : Party) : PartyMove → Nat
  | .newTree _ | .acquire => 1
  | .onStack k op => ((party.cursors[k]?).map (·.takes op)).getD 0
  | .onTree k change => ((party.trees[k]?.join).map (·.takes change)).getD 0
  | .newStack | .take _ | .recycle _ => 0

end Party

namespace PoolUsers

/-- One event. -/
def step (u : PoolUsers) : PoolUse → PoolUsers
  | .move move =>
    let (_, party, shared) := u.party.make u.shared move
    { shared, party, discarded := u.discarded + move.discards }
  | .dropStack k =>
    match u.party.cursors[k]? with
    | none => u
    | some s =>
      { u with
        shared := s.drop u.shared
        party := { u.party with cursors := u.party.cursors.eraseIdx k } }
  | .clock step => { u with shared := u.shared.tick step }
  | .threshold nanos => { u with shared := { u.shared with threshold := nanos } }

/-- The users after a list of events. -/
def run (u : PoolUsers) (events : List PoolUse) : PoolUsers := events.foldl step u

/-- The users at first and after each event. -/
def history (u : PoolUsers) (events : List PoolUse) : List PoolUsers :=
  states (fun u e => ((), u.step e)) u events

/-- The number of nodes in use. -/
def inUse (u : PoolUsers) : Nat := u.party.nodes + u.discarded

/-- How many nodes an event takes. -/
def takes (u : PoolUsers) : PoolUse → Nat
  | .move move => u.party.takes move
  | .dropStack _ | .clock _ | .threshold _ => 0

/-- How many nodes a list of events takes. -/
def acquisitions (u : PoolUsers) : List PoolUse → Nat
  | [] => 0
  | e :: rest => u.takes e + (u.step e).acquisitions rest

end PoolUsers

/-! ### Sums over a list that has changed at one place -/

section Sums

variable {α : Type} {l : List α} {k : Nat} {a : α}

/-- A sum without one of its terms. -/
theorem sum_map_eraseIdx (f : α → Nat) (there : l[k]? = some a) :
    (l.map f).sum = f a + ((l.eraseIdx k).map f).sum := by
  obtain ⟨bound, rfl⟩ := List.getElem?_eq_some_iff.mp there
  have split := ((List.getElem_cons_eraseIdx_perm bound).map f).sum_nat
  rw [← split, List.map_cons, List.sum_cons]

/-- A sum in which one term is replaced. -/
theorem sum_map_set (f : α → Nat) (there : l[k]? = some a) (b : α) :
    ((l.set k b).map f).sum = f b + ((l.eraseIdx k).map f).sum := by
  obtain ⟨bound, rfl⟩ := List.getElem?_eq_some_iff.mp there
  have split := ((List.set_perm_cons_eraseIdx bound b).map f).sum_nat
  rw [split, List.map_cons, List.sum_cons]

end Sums

/-! ### One event -/

/-- All trees of a party hold each vacant slot once. -/
structure Party.Counted (party : Party) : Prop where
  cursors : ∀ s ∈ party.cursors, s.Counted
  trees : ∀ t, some t ∈ party.trees → t.Counted

namespace Party

open NodePool

variable {party : Party} {k : Nat} {s : CallStack} {t : CallTree}

/-- A party stays counted if one of its stacks is replaced by a counted one. -/
theorem Counted.setCursor (ok : party.Counted) (k : Nat) (counted : s.Counted) :
    Counted { party with cursors := party.cursors.set k s } where
  cursors := by
    intro s' hs'
    rcases List.mem_or_eq_of_mem_set hs' with old | rfl
    · exact ok.cursors s' old
    · exact counted
  trees := ok.trees

/-- A party stays counted with one more stack. -/
theorem Counted.addCursor (ok : party.Counted) (counted : s.Counted) :
    Counted { party with cursors := party.cursors ++ [s] } where
  cursors := by
    intro s' hs'
    rcases List.mem_append.mp hs' with old | new
    · exact ok.cursors s' old
    · exact List.mem_singleton.mp new ▸ counted
  trees := ok.trees

/-- A party stays counted if one of its trees is replaced or dropped. -/
theorem Counted.setTree (ok : party.Counted) (k : Nat) {tree : Option CallTree}
    (counted : ∀ t, tree = some t → t.Counted) :
    Counted { party with trees := party.trees.set k tree } where
  cursors := ok.cursors
  trees := by
    intro t ht
    rcases List.mem_or_eq_of_mem_set ht with old | new
    · exact ok.trees t old
    · exact counted t new.symm

/-- A party stays counted with the tree that it is handed, if there is one. -/
theorem Counted.addTrees (ok : party.Counted) (tree : Option CallTree)
    (counted : ∀ t, tree = some t → t.Counted) :
    Counted { party with trees := party.trees ++ (tree.map some).toList } where
  cursors := ok.cursors
  trees := by
    intro t ht
    rcases List.mem_append.mp ht with old | new
    · exact ok.trees t old
    · exact counted t (by simpa using new)

/-! What a change at one place does to the number of nodes of a party. -/

/-- A new stack brings its nodes along. -/
theorem nodes_addCursor (party : Party) (s : CallStack) :
    nodes { party with cursors := party.cursors ++ [s] } = party.nodes + s.nodes := by
  simp only [nodes, List.map_append, List.sum_append_nat, List.map_cons, List.map_nil, List.sum_cons,
    List.sum_nil]
  omega

/-- A tree that is handed over brings its nodes along. -/
theorem nodes_addTrees (party : Party) (tree : Option CallTree) :
    nodes { party with trees := party.trees ++ (tree.map some).toList } =
      party.nodes + treeNodes tree := by
  have added : ((tree.map some).toList.map treeNodes).sum = treeNodes tree := by
    cases tree <;> simp [treeNodes]
  simp only [nodes, List.map_append, List.sum_append_nat, added]
  omega

/-- A dropped stack takes its nodes away. -/
theorem nodes_dropCursor (there : party.cursors[k]? = some s) :
    nodes { party with cursors := party.cursors.eraseIdx k } + s.nodes = party.nodes := by
  have before := sum_map_eraseIdx CallStack.nodes there
  simp only [nodes]
  omega

/-- A replaced stack takes its nodes away, and the new one brings its own. -/
theorem nodes_setCursor (there : party.cursors[k]? = some s) (s' : CallStack) :
    nodes { party with cursors := party.cursors.set k s' } + s.nodes = party.nodes + s'.nodes := by
  have before := sum_map_eraseIdx CallStack.nodes there
  have after := sum_map_set CallStack.nodes there s'
  simp only [nodes]
  omega

/-- The same for a tree. -/
theorem nodes_setTree {tree : Option CallTree} (there : party.trees[k]? = some tree)
    (tree' : Option CallTree) :
    nodes { party with trees := party.trees.set k tree' } + treeNodes tree =
      party.nodes + treeNodes tree' := by
  have before := sum_map_eraseIdx treeNodes there
  have after := sum_map_set treeNodes there tree'
  simp only [nodes]
  omega

/-- No stack has more nodes than its party. -/
theorem nodes_cursor_le (there : party.cursors[k]? = some s) : s.nodes ≤ party.nodes := by
  have := nodes_dropCursor there
  omega

/-- No tree has more nodes than its party. -/
theorem nodes_tree_le (there : party.trees[k]? = some (some t)) : t.size ≤ party.nodes := by
  have dropped : _ + t.size = party.nodes + 0 := nodes_setTree there none
  omega

theorem tree_there (there : party.trees[k]?.join = some t) : party.trees[k]? = some (some t) :=
  Option.join_eq_some_iff.mp there

/-- A move takes as many nodes as it should. Nodes taken by hand are not among those of the party. -/
theorem make_dealt (ok : party.Counted) (p : Profiler) (move : PartyMove) :
    (party.make p move).2.1.Counted ∧
    p.pool.Dealt party.nodes (party.takes move) (party.make p move).2.2.pool
      ((party.make p move).2.1.nodes + move.discards) := by
  cases move with
  | newStack =>
    have same : (party.make p .newStack).2.1.nodes = party.nodes := nodes_addCursor party p.stack
    rw [same]
    exact ⟨ok.addCursor (CallStack.counted_of_idle rfl), .idle p.pool _⟩
  | onStack k op =>
    cases there : party.cursors[k]? with
    | none =>
      simp only [make, takes, there]
      exact ⟨ok, .idle p.pool _⟩
    | some s =>
      rcases s.apply_dealt (ok.cursors s (List.mem_of_getElem? there)) p op with
        ⟨counted, finished, dealt⟩
      have changed := nodes_setCursor there (CallStack.apply p s op).2.1
      rw [make_onStack there]
      simp only [takes, there]
      refine ⟨(ok.setCursor k counted).addTrees _ finished, dealt.within (nodes_cursor_le there) ?_⟩
      -- a tree that the operation finishes moves from the stack to the trees
      have moved := nodes_addTrees { party with
        cursors := party.cursors.set k (CallStack.apply p s op).2.1 } (CallStack.apply p s op).1.tree?
      dsimp only [treeNodes] at moved
      show nodes _ + 0 + _ = _
      omega
  | take k =>
    cases there : party.cursors[k]? with
    | none =>
      simp only [make, takes, there]
      exact ⟨ok, .idle p.pool _⟩
    | some s =>
      have counted := ok.cursors s (List.mem_of_getElem? there)
      have left : nodes _ + s.nodes = party.nodes + 0 := nodes_setCursor there s.take.2
      have moved : nodes _ = _ + s.nodes :=
        nodes_addCursor { party with cursors := party.cursors.set k s.take.2 } s.take.1
      dsimp only at moved
      simp only [make, takes, there]
      refine ⟨(ok.setCursor k (CallStack.counted_of_idle rfl)).addCursor counted,
        (Dealt.idle p.pool s.nodes).within (nodes_cursor_le there) ?_⟩
      show nodes _ + 0 + _ = _
      omega
  | newTree signature =>
    rcases CallTree.begin_dealt p.pool p.now signature with ⟨counted, dealt⟩
    have added : (party.make p (.newTree signature)).2.1.nodes =
        party.nodes + (CallTree.begin p.pool p.now signature).1.size :=
      nodes_addTrees party (some _)
    refine ⟨ok.addTrees (some _) fun t ht => Option.some.inj ht ▸ counted,
      dealt.within (Nat.zero_le _) ?_⟩
    rw [added]
    show _ + 0 + 0 = _
    omega
  | onTree k change =>
    cases there : party.trees[k]?.join with
    | none =>
      simp only [make, takes, there]
      exact ⟨ok, .idle p.pool _⟩
    | some t =>
      have slot := tree_there there
      rcases CallTree.edit_dealt (ok.trees t (List.mem_of_getElem? slot)) p.pool p.now change with
        ⟨counted, dealt⟩
      have changed := nodes_setTree slot (some (t.edit p.pool p.now change).2.1)
      rw [make_onTree there]
      simp only [takes, there]
      exact ⟨ok.setTree k fun u hu => Option.some.inj hu ▸ counted,
        dealt.within (nodes_tree_le slot) changed⟩
  | recycle k =>
    cases there : party.trees[k]?.join with
    | none =>
      simp only [make, takes, there]
      exact ⟨ok, .idle p.pool _⟩
    | some t =>
      have slot := tree_there there
      have gave := CallTree.gave_recycle (ok.trees t (List.mem_of_getElem? slot)) p.pool
      have dropped := nodes_setTree slot none
      simp only [make, takes, there]
      exact ⟨ok.setTree k (by simp), (Dealt.gave gave).within (nodes_tree_le slot) dropped⟩
  | acquire => exact ⟨ok, .took⟩

end Party

namespace PoolUsers

open NodePool

variable {u : PoolUsers} {pooling : Bool} {taken peak : Nat}

/-- An event takes as many nodes as it should. -/
theorem step_dealt (ok : u.party.Counted) (e : PoolUse) :
    (u.step e).party.Counted ∧
    u.shared.pool.Dealt u.inUse (u.takes e) (u.step e).shared.pool (u.step e).inUse := by
  cases e with
  | move move =>
    rcases Party.make_dealt ok u.shared move with ⟨counted, dealt⟩
    have after : (u.step (.move move)).inUse =
      (u.party.make u.shared move).2.1.nodes + (u.discarded + move.discards) := rfl
    refine ⟨counted, dealt.within (Nat.le_add_right _ _) ?_⟩
    rw [after]
    unfold inUse
    omega
  | dropStack k =>
    cases there : u.party.cursors[k]? with
    | none =>
      simp only [step, takes, there]
      exact ⟨ok, .idle _ _⟩
    | some s =>
      have gave := CallStack.gave_drop (ok.cursors s (List.mem_of_getElem? there)) u.shared
      have dropped := Party.nodes_dropCursor there
      have part := Party.nodes_cursor_le there
      simp only [step, takes, there]
      refine ⟨⟨fun s' hs' => ok.cursors s' (List.mem_of_mem_eraseIdx hs'), ok.trees⟩,
        (Dealt.gave gave).within (part.trans (Nat.le_add_right _ _)) ?_⟩
      unfold inUse
      dsimp only
      omega
  | clock step => exact ⟨ok, .idle _ _⟩
  | threshold nanos => exact ⟨ok, .idle _ _⟩

/-! ### Runs -/

/-- What is true of the users while `taken` nodes have been handed out and at most `peak` were in use
at once. -/
structure Settled (u : PoolUsers) (pooling : Bool) (taken peak : Nat) : Prop where
  counted : u.party.Counted
  ledger : u.shared.pool.Ledger pooling u.inUse taken peak

/-- One use of the pool keeps its ledger, with the peak raised if it has to be. -/
theorem Settled.step (ok : u.Settled pooling taken peak) (e : PoolUse)
    (few : taken + u.takes e < 2 ^ 64) :
    (u.step e).Settled pooling (taken + u.takes e) (max (u.step e).inUse peak) := by
  rcases step_dealt ok.counted e with ⟨counted, dealt⟩
  exact ⟨counted, ok.ledger.dealt dealt few⟩

/-- Along a run the peak is the largest of the numbers so far: those of `earlier`, and those of the
run. -/
theorem Settled.run {earlier : Set Nat} (ok : u.Settled pooling taken peak)
    (most : IsGreatest (insert u.inUse earlier) peak) (events : List PoolUse)
    (few : taken + u.acquisitions events < 2 ^ 64) :
    ∃ peak', (u.run events).Settled pooling (taken + u.acquisitions events) peak' ∧
      IsGreatest (earlier ∪ {k | ∃ v ∈ u.history events, k = v.inUse}) peak' := by
  induction events generalizing u taken peak earlier with
  | nil =>
    have same : earlier ∪ {k | ∃ v ∈ u.history [], k = v.inUse} = insert u.inUse earlier := by
      ext k
      simp [history, states, or_comm]
    rw [same]
    exact ⟨peak, ok, most⟩
  | cons e rest ih =>
    have same : earlier ∪ {k | ∃ v ∈ u.history (e :: rest), k = v.inUse} =
        insert u.inUse earlier ∪ {k | ∃ v ∈ (u.step e).history rest, k = v.inUse} := by
      ext k
      simp [history, states, or_left_comm, or_assoc]
    rw [acquisitions, ← Nat.add_assoc] at few ⊢
    rw [same]
    -- the number after the event joins those that the peak is taken of
    exact ih (ok.step e (by omega)) (most.insert (u.step e).inUse) few

/-- Nobody uses the pool yet. -/
def fresh (pooling : Bool) (now : Reading) (threshold : UInt64) : PoolUsers :=
  { shared := .start now pooling threshold }

theorem settled_fresh (pooling : Bool) (now : Reading) (threshold : UInt64) :
    (fresh pooling now threshold).Settled pooling 0 0 where
  counted := ⟨by simp [fresh], by simp [fresh]⟩
  ledger := ⟨rfl, by simp [fresh, Profiler.start, AllBlank], rfl, fun _ => ⟨rfl, rfl⟩,
    fun _ => ⟨rfl, rfl⟩⟩

end PoolUsers

open PoolUsers

/-- After any events on any number of trees and stacks, operations that are refused and nodes taken by
hand included, all nodes that wait in the pool are blank. If the pool is switched on, the nodes made
are those that wait and those in use, their number is the largest that was ever in use at once, and
with the nodes handed out again they are as many as were taken. If it is switched off, no node waits
and none is handed out again. The counters do not wrap, as fewer than `2 ^ 64` nodes are taken. -/
theorem counters_follow_use (pooling : Bool) (now : Reading) (threshold : UInt64)
    (events : List PoolUse)
    (few : (fresh pooling now threshold).acquisitions events < 2 ^ 64) :
    let start := fresh pooling now threshold
    let pool := (start.run events).shared.pool
    pool.AllBlank ∧
    (pooling = true →
      pool.allocated.toNat = pool.available + (start.run events).inUse ∧
      IsGreatest {k | ∃ v ∈ start.history events, k = v.inUse} pool.allocated.toNat ∧
      pool.allocated.toNat + pool.reused.toNat = start.acquisitions events) ∧
    (pooling = false → pool.available = 0 ∧ pool.reused = 0) := by
  intro start pool
  have first : IsGreatest (insert start.inUse ∅) 0 := by
    rw [insert_empty_eq]
    exact isGreatest_singleton
  rcases (settled_fresh pooling now threshold).run first events (by omega) with
    ⟨peak, settled, greatest⟩
  rw [Set.empty_union] at greatest
  have ledger := settled.ledger
  refine ⟨ledger.blank, fun on => ?_, fun off => ?_⟩
  · rcases ledger.on on with ⟨made, most⟩
    have taken := ledger.taken
    rw [Nat.zero_add] at taken
    exact ⟨made, most.symm ▸ greatest, taken⟩
  · rcases ledger.off off with ⟨none, reused⟩
    exact ⟨by rw [NodePool.available, none, List.length_nil], reused⟩

/-- A stack that is dropped while it records, a node taken by hand, and a tree on which a call below a
handle that was never issued is refused. -/
def busyUse : List PoolUse :=
  [.move .newStack, .move (.onStack 0 (.activate "root")), .move (.onStack 0 (.start "call")),
    .move .acquire, .move (.newTree "own"), .move (.onTree 0 (.openChild ⟨7, 0⟩ "stray")),
    .dropStack 0, .move .newStack, .move (.onStack 0 (.activate "again")), .move (.recycle 0)]

/-- Five nodes are taken and two are in use at the end; four at once is the peak. -/
theorem busy_use_is_counted :
    let start := fresh true 0 0
    let pool := (start.run busyUse).shared.pool
    start.acquisitions busyUse = 5 ∧ pool.AllBlank ∧ pool.available = 2 ∧
    (start.run busyUse).inUse = 2 ∧ pool.reused.toNat = 1 ∧ pool.allocated.toNat = 4 ∧
    IsGreatest {k | ∃ v ∈ start.history busyUse, k = v.inUse} 4 := by
  have taken : (fresh true 0 0).acquisitions busyUse = 5 := by decide
  rcases counters_follow_use true 0 0 busyUse (by rw [taken]; decide) with ⟨blank, on, -⟩
  rcases on rfl with ⟨made, greatest, total⟩
  have waiting : ((fresh true 0 0).run busyUse).shared.pool.available = 2 := by decide
  have used : ((fresh true 0 0).run busyUse).inUse = 2 := by decide
  rw [waiting, used] at made
  rw [made] at greatest total
  exact ⟨taken, blank, waiting, used, by omega, made, greatest⟩

end CallProfiler
