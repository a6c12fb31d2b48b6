import CallProfiler.Proofs.Stack.Frames
import CallProfiler.Proofs.Stack.Terms
import CallProfiler.Proofs.Tree.Twins
import Mathlib.Logic.Function.Basic

/-!
# Proofs.Stack.Isolation: sharing a pool changes nothing

A `World` is a number of parties on one profiler. Each party has call stacks and trees of its own and
works on them; a party can be a single stack or a single tree. All of them take their nodes from one
pool and give them back to it, in any order.

* `CallStack.apply_twins`, `Party.make_twins` — what a stack or a party does looks the same with any
  pool that hands out blank nodes
* `Together` — the relation of a world and of one in which the moves of all other parties are left
  out: `Together.own`, `Together.other`
* `pool_is_invisible` — the run of a world, as one of its parties sees it, is the run of that party
  alone on a fresh pool
-/

namespace CallProfiler

/-! ## Stacks -/

/-- Two profilers that differ at most in the nodes that wait in their pools. -/
structure Profiler.Twins (p p' : Profiler) : Prop where
  now : p.now = p'.now
  threshold : p.threshold = p'.threshold
  pool : p.pool.Twins p'.pool

/-- Twin profilers differ in nothing but their pools. -/
theorem Profiler.Twins.exists_eq {p p' : Profiler} (twins : p.Twins p') :
    ∃ pool', p' = { p with pool := pool' } ∧ p.pool.Twins pool' := by
  obtain ⟨now, pool, threshold⟩ := p
  obtain ⟨now', pool', threshold'⟩ := p'
  obtain ⟨rfl, rfl, pools⟩ := twins
  exact ⟨pool', rfl, pools⟩

namespace CallStack

variable {p p' : Profiler}

theorem recycle?_twins (twins : p.Twins p') (tree : Option CallTree) :
    (p.recycle? tree).Twins (p'.recycle? tree) := by
  cases tree with
  | none => exact twins
  | some t => exact ⟨twins.now, twins.threshold, t.recycle_twins twins.pool⟩

/-- A recording begins alike with both pools. -/
theorem activate_twins (s : CallStack) (twins : p.Twins p') (signature : String) :
    (s.activate p signature).1 = (s.activate p' signature).1 ∧
    (s.activate p signature).2.1 = (s.activate p' signature).2.1 ∧
    (s.activate p signature).2.2.Twins (s.activate p' signature).2.2 := by
  obtain ⟨pool', rfl, pools⟩ := twins.exists_eq
  unfold activate
  split
  · exact ⟨rfl, rfl, twins⟩
  · rcases CallTree.begin_twins pools p.now signature with ⟨tree, rest⟩
    dsimp only
    rw [tree]
    exact ⟨rfl, rfl, rfl, rfl, rest⟩

/-- A call is started alike with both pools. -/
theorem start_twins (s : CallStack) (twins : p.Twins p') (signature : String) :
    (s.start p signature).1 = (s.start p' signature).1 ∧
    (s.start p signature).2.Twins (s.start p' signature).2 := by
  obtain ⟨pool', rfl, pools⟩ := twins.exists_eq
  unfold start
  split
  · exact ⟨rfl, twins⟩
  · next r recording =>
    rcases r.tree.openChild_twins pools p.now r.current signature with ⟨result, tree, rest⟩
    dsimp only
    rw [result, tree]
    exact ⟨rfl, rfl, rfl, rest⟩

theorem deactivate_twins (s : CallStack) (twins : p.Twins p') :
    (s.deactivate p).1 = (s.deactivate p').1 ∧ (s.deactivate p).2.Twins (s.deactivate p').2 :=
  ⟨rfl, recycle?_twins twins s.tree?⟩

/-- A call is ended alike with both pools, and the same tree is handed over. -/
theorem stopWith_twins (s : CallStack) (twins : p.Twins p') (signature : Option String) :
    (s.stopWith p signature).1 = (s.stopWith p' signature).1 ∧
    (s.stopWith p signature).2.1 = (s.stopWith p' signature).2.1 ∧
    (s.stopWith p signature).2.2.Twins (s.stopWith p' signature).2.2 := by
  obtain ⟨pool', rfl, pools⟩ := twins.exists_eq
  unfold stopWith
  split
  · exact ⟨rfl, rfl, twins⟩
  · next r recording =>
    rcases r.tree.close_twins pools p.now r.current signature s.minimum with ⟨result, tree, rest⟩
    dsimp only
    rw [result, tree]
    split
    · exact ⟨rfl, deactivate_twins _ ⟨rfl, rfl, rest⟩⟩
    · exact ⟨rfl, rfl, rfl, rfl, rest⟩
    · exact ⟨rfl, rfl, rfl, rfl, rest⟩

/-- A measured call is added alike with both pools. -/
theorem addIoCall_twins (s : CallStack) (twins : p.Twins p') (description : String)
    (duration : UInt64) :
    (s.addIoCall p description duration).1 = (s.addIoCall p' description duration).1 ∧
    (s.addIoCall p description duration).2.Twins (s.addIoCall p' description duration).2 := by
  obtain ⟨pool', rfl, pools⟩ := twins.exists_eq
  unfold addIoCall
  split
  · exact ⟨rfl, twins⟩
  · next r recording =>
    split
    · exact ⟨rfl, twins⟩
    · rcases r.tree.addIoCall_twins pools p.now r.current description duration with ⟨-, tree, rest⟩
      dsimp only
      rw [tree]
      exact ⟨rfl, rfl, rfl, rest⟩

/-- No operation on a stack depends on what the pool holds. -/
theorem apply_twins (s : CallStack) (twins : p.Twins p') (op : StackOp) :
    (apply p s op).1 = (apply p' s op).1 ∧
    (apply p s op).2.1 = (apply p' s op).2.1 ∧
    (apply p s op).2.2.Twins (apply p' s op).2.2 := by
  cases op with
  | activate signature =>
    rcases s.activate_twins twins signature with ⟨result, stack, shared⟩
    rw [apply_activate, apply_activate, result]
    exact ⟨rfl, stack, shared⟩
  | start signature =>
    rcases s.start_twins twins signature with ⟨stack, shared⟩
    exact ⟨rfl, stack, shared⟩
  | stop signature =>
    rcases s.stopWith_twins twins signature with ⟨result, stack, shared⟩
    rw [apply_stop, apply_stop, result]
    exact ⟨rfl, stack, shared⟩
  | io description duration =>
    rcases s.addIoCall_twins twins description duration with ⟨stack, shared⟩
    exact ⟨rfl, stack, shared⟩
  | rename signature =>
    rw [apply_rename, apply_rename]
    exact ⟨rfl, rfl, twins⟩
  | deactivate =>
    rcases s.deactivate_twins twins with ⟨stack, shared⟩
    exact ⟨rfl, stack, shared⟩

/-- Of what all stacks share, an operation changes at most the pool. -/
theorem apply_moved (s : CallStack) (p : Profiler) (op : StackOp) :
    Moved s p (apply p s op).2.1 (apply p s op).2.2 := by
  cases op with
  | activate signature =>
    rw [apply_activate]
    exact s.activate_moved p signature
  | start signature => exact (s.start_goesOn p signature).moved
  | stop signature =>
    rw [apply_stop]
    exact (s.stopWith_goesOn p signature).moved
  | io description duration => exact (s.addIoCall_goesOn p description duration).moved
  | rename signature =>
    rw [apply_rename]
    exact (s.setCurrentSignature_goesOn p signature).moved
  | deactivate => exact (s.deactivate_goesOn p).moved

end CallStack

/-! ## Parties -/

/-- The stacks and the trees of one party. -/
structure Party where
  cursors : List CallStack := []
  /-- The trees in the order in which the party got them; `none` for those that it has given back. -/
  trees : List (Option CallTree) := []

/-- A move of a party; `k` numbers its stacks or its trees. -/
inductive PartyMove where
  | newStack
  | onStack (k : Nat) (op : StackOp)
  /-- Moves the recording of a stack to a new one. -/
  | take (k : Nat)
  | newTree (signature : String)
  | onTree (k : Nat) (change : TreeEdit)
  /-- Gives a tree back to the pool. -/
  | recycle (k : Nat)
  /-- Takes a node out of the pool. -/
  | acquire

/-- What a party sees of a move. The stack or the tree that was worked on is shown as it is
afterwards, so with all handles in it and all that can be asked about it. -/
inductive Sight where
  | nothing
  | stack (answer : StackAnswer CallTree) (after : CallStack)
  | tree (answer : EditAnswer) (after : CallTree)
  | node (n : CallNode)

namespace Party

/-- Makes a move. A tree that is finished by it is a tree of the party from then on; a move with a stack
or a tree that is not there is ignored. -/
def make (party : Party) (p : Profiler) : PartyMove → Sight × Party × Profiler
  | .newStack => (.stack .silent p.stack, { party with cursors := party.cursors ++ [p.stack] }, p)
  | .onStack k op =>
    match party.cursors[k]? with
    | none => (.nothing, party, p)
    | some s =>
      let (answer, s, p) := CallStack.apply p s op
      (.stack answer s,
        { cursors := party.cursors.set k s
          trees := party.trees ++ (answer.tree?.map some).toList }, p)
  | .take k =>
    match party.cursors[k]? with
    | none => (.nothing, party, p)
    | some s =>
      let (moved, left) := s.take
      (.stack .silent moved, { party with cursors := party.cursors.set k left ++ [moved] }, p)
  | .newTree signature =>
    let (tree, pool) := CallTree.begin p.pool p.now signature
    (.tree .done tree, { party with trees := party.trees ++ [some tree] }, { p with pool := pool })
  | .onTree k change =>
    match party.trees[k]?.join with
    | none => (.nothing, party, p)
    | some t =>
      let (answer, t, pool) := t.edit p.pool p.now change
      (.tree answer t, { party with trees := party.trees.set k (some t) }, { p with pool := pool })
  | .recycle k =>
    match party.trees[k]?.join with
    | none => (.nothing, party, p)
    | some t => (.nothing, { party with trees := party.trees.set k none }, p.recycle t)
  | .acquire =>
    let (node, pool) := p.pool.acquire
    (.node node, party, { p with pool := pool })

variable {p p' : Profiler} {party : Party} {k : Nat} {s : CallStack} {t : CallTree}

/-- No move of a party depends on what the pool holds. -/
theorem make_twins (party : Party) (twins : p.Twins p') (move : PartyMove) :
    (party.make p move).1 = (party.make p' move).1 ∧
    (party.make p move).2.1 = (party.make p' move).2.1 ∧
    (party.make p move).2.2.Twins (party.make p' move).2.2 := by
  obtain ⟨pool', rfl, pools⟩ := twins.exists_eq
  cases move with
  | newStack => exact ⟨rfl, rfl, twins⟩
  | onStack k op =>
    unfold make
    dsimp only
    split
    · exact ⟨rfl, rfl, twins⟩
    · next s there =>
      rcases s.apply_twins twins op with ⟨answer, stack, shared⟩
      rw [answer, stack]
      exact ⟨rfl, rfl, shared⟩
  | take k =>
    unfold make
    dsimp only
    split <;> exact ⟨rfl, rfl, twins⟩
  | newTree signature =>
    rcases CallTree.begin_twins pools p.now signature with ⟨tree, rest⟩
    unfold make
    dsimp only
    rw [tree]
    exact ⟨rfl, rfl, rfl, rfl, rest⟩
  | onTree k change =>
    unfold make
    dsimp only
    split
    · exact ⟨rfl, rfl, twins⟩
    · next t there =>
      rcases t.edit_twins pools p.now change with ⟨answer, tree, rest⟩
      rw [answer, tree]
      exact ⟨rfl, rfl, rfl, rfl, rest⟩
  | recycle k =>
    unfold make
    dsimp only
    split
    · exact ⟨rfl, rfl, twins⟩
    · next t there => exact ⟨rfl, rfl, CallStack.recycle?_twins twins (some t)⟩
  | acquire =>
    rcases pools.acquire with ⟨node, rest⟩
    exact ⟨congrArg Sight.node node, rfl, rfl, rfl, rest⟩

/-- What a party does to one of its stacks changes that stack, and adds the tree if one is finished. -/
theorem make_onStack {op : StackOp} (there : party.cursors[k]? = some s) :
    (party.make p (.onStack k op)).2 =
      ({ cursors := party.cursors.set k (CallStack.apply p s op).2.1
         trees := party.trees ++ ((CallStack.apply p s op).1.tree?.map some).toList },
        (CallStack.apply p s op).2.2) := by
  simp only [make, there]

/-- What a party does to one of its trees changes that tree and the pool. -/
theorem make_onTree {change : TreeEdit} (there : party.trees[k]?.join = some t) :
    (party.make p (.onTree k change)).2 =
      ({ party with trees := party.trees.set k (some (t.edit p.pool p.now change).2.1) },
        { p with pool := (t.edit p.pool p.now change).2.2 }) := by
  simp only [make, there]

/-- A move of a party changes at most the pool. -/
theorem make_terms (party : Party) (p : Profiler) (move : PartyMove) :
    p.SameTerms (party.make p move).2.2 := by
  cases move with
  | onStack k op =>
    cases there : party.cursors[k]? with
    | none =>
      simp only [make, there]
      exact .refl p
    | some s =>
      rw [make_onStack there]
      exact (s.apply_moved p op).terms
  | newStack => exact .refl p
  | newTree | acquire => exact p.withPool_terms _
  | take k | onTree k _ | recycle k =>
    unfold make
    dsimp only
    split <;> exact ⟨rfl, rfl⟩

end Party

/-! ## Worlds -/

/-- Parties on one profiler. Every number is that of a party; at first they have nothing. -/
structure World where
  shared : Profiler
  parties : Nat → Party := fun _ => {}

/-- An event of a world. -/
inductive WorldEvent where
  | move (i : Nat) (move : PartyMove)
  | clock (step : ClockStep)
  | threshold (nanos : UInt64)

/-- Whether a party takes part in an event: it makes its own moves, and everybody sees the clock and
the threshold. -/
def WorldEvent.concerns (i : Nat) : WorldEvent → Bool
  | .move j _ => j == i
  | .clock _ => true
  | .threshold _ => true

namespace World

/-- One event, and who sees what of it. -/
def step (w : World) : WorldEvent → Option (Nat × Sight) × World
  | .move i move =>
    let (sight, party, shared) := (w.parties i).make w.shared move
    (some (i, sight), { shared, parties := Function.update w.parties i party })
  | .clock step => (none, { w with shared := w.shared.tick step })
  | .threshold nanos => (none, { w with shared := { w.shared with threshold := nanos } })

/-- The world after a list of events. -/
def run (w : World) (events : List WorldEvent) : World :=
  events.foldl (fun w e => (w.step e).2) w

/-- What a party sees in a run. -/
def seen (i : Nat) (w : World) (events : List WorldEvent) : List Sight :=
  (answers step w events).filterMap fun answer =>
    (answer.filter fun own => own.1 == i).map (·.2)

/-- Two worlds in which a party has the same, and whose profilers differ at most in the pool. -/
structure Together (i : Nat) (w w' : World) : Prop where
  shared : w.shared.Twins w'.shared
  party : w.parties i = w'.parties i

variable {i : Nat} {w w' : World}

/-- In an event that concerns a party it sees the same in both worlds, and has the same afterwards. -/
theorem Together.own (together : Together i w w') (e : WorldEvent) (own : e.concerns i = true) :
    (w.step e).1 = (w'.step e).1 ∧ Together i (w.step e).2 (w'.step e).2 := by
  rcases together with ⟨shared, party⟩
  cases e with
  | move j move =>
    obtain rfl : j = i := by simpa [WorldEvent.concerns] using own
    rcases (w'.parties j).make_twins shared move with ⟨sight, left, rest⟩
    unfold step
    dsimp only
    rw [party, sight, left]
    refine ⟨rfl, rest, ?_⟩
    simp only [Function.update_self]
  | clock step =>
    exact ⟨rfl, ⟨congrArg step.apply shared.now, shared.threshold, shared.pool⟩, party⟩
  | threshold nanos => exact ⟨rfl, ⟨shared.now, rfl, shared.pool⟩, party⟩

/-- A move of another party is not seen, and changes nothing but the pool. -/
theorem Together.other (together : Together i w w') (e : WorldEvent) (other : e.concerns i = false) :
    ((w.step e).1.filter fun own => own.1 == i) = none ∧ Together i (w.step e).2 w' := by
  rcases together with ⟨shared, party⟩
  cases e with
  | move j move =>
    have apart : j ≠ i := by simpa [WorldEvent.concerns] using other
    have terms := (w.parties j).make_terms w.shared move
    have blank := ((w.parties j).make_twins ⟨rfl, rfl, shared.pool.left, shared.pool.left⟩ move).2.2.pool
    refine ⟨by simp [step, apart], ⟨?_, ?_, blank.left, shared.pool.right⟩, ?_⟩
    · exact terms.now.trans shared.now
    · exact terms.threshold.trans shared.threshold
    · exact (Function.update_of_ne (Ne.symm apart) ..).trans party
  | clock step => exact absurd other (by simp [WorldEvent.concerns])
  | threshold nanos => exact absurd other (by simp [WorldEvent.concerns])

/-- The run of one world as a party sees it is the run of the other one without the moves of all other
parties. -/
theorem Together.run (together : Together i w w') (events : List WorldEvent) :
    w.seen i events = w'.seen i (events.filter (·.concerns i)) ∧
    Together i (w.run events) (w'.run (events.filter (·.concerns i))) := by
  induction events generalizing w w' with
  | nil => exact ⟨rfl, together⟩
  | cons e rest ih =>
    cases concerned : e.concerns i with
    | true =>
      rcases together.own e concerned with ⟨sight, next⟩
      rcases ih next with ⟨later, final⟩
      rw [List.filter_cons_of_pos concerned]
      refine ⟨?_, final⟩
      unfold seen at later ⊢
      rw [answers, answers, List.filterMap_cons, List.filterMap_cons, sight, later]
    | false =>
      rcases together.other e concerned with ⟨unseen, next⟩
      rcases ih next with ⟨later, final⟩
      rw [List.filter_cons_of_neg (by simp [concerned])]
      refine ⟨?_, final⟩
      unfold seen at later ⊢
      rw [answers, List.filterMap_cons, unseen]
      exact later

end World

/-- A world before its first event. Its pool is switched on or off, and may have been used before. -/
def World.fresh (pooling : Bool) (before : List PoolEvent) (now : Reading) (threshold : UInt64) :
    World :=
  { shared := ⟨now, .used pooling before, threshold⟩ }

/-- In the beginning a party in company is as it is alone, also with another pool. -/
theorem World.Together.fresh (i : Nat) (pooling pooling' : Bool) (before before' : List PoolEvent)
    (now : Reading) (threshold : UInt64) :
    Together i (fresh pooling before now threshold) (fresh pooling' before' now threshold) :=
  ⟨⟨rfl, rfl, NodePool.allBlank_used pooling before, NodePool.allBlank_used pooling' before'⟩, rfl⟩

/-- In a world where any number of parties record, trim and give back trees, and take nodes for
themselves, each party sees what it sees alone on a fresh pool with the same readings of the clock and
the same thresholds, and has the same stacks and trees. It does not matter what has happened to the
pool before, and every party sees the same whether the pool is switched on or off. -/
theorem pool_is_invisible (pooling pooling' : Bool) (before : List PoolEvent) (now : Reading)
    (threshold : UInt64) (events : List WorldEvent) (i : Nat) :
    let together := World.fresh pooling before now threshold
    let alone := World.fresh pooling' [] now threshold
    let switched := World.fresh pooling' before now threshold
    (together.seen i events = alone.seen i (events.filter (·.concerns i)) ∧
      (together.run events).parties i = (alone.run (events.filter (·.concerns i))).parties i) ∧
    together.seen i events = switched.seen i events ∧
      (together.run events).parties i = (switched.run events).parties i := by
  intro together alone switched
  have left : World.Together i together alone := .fresh ..
  have right : World.Together i switched alone := .fresh ..
  rcases left.run events with ⟨seen, final⟩
  rcases right.run events with ⟨seen', final'⟩
  exact ⟨⟨seen, final.party⟩, seen.trans seen'.symm, final.party.trans final'.party.symm⟩

end CallProfiler
