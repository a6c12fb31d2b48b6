import CallProfiler.Proofs.Task.Programs
import Mathlib.Data.List.ReduceOption

/-!
# Proofs.Task.Direct: stacks that never move

The reference for a task program keeps every stack under a number of its own. `Direct.step` applies the
methods of `CallStack` to the stack with the number in question; slots, held stacks and scopes are lists
of numbers. Nothing that a program does moves a stack.

`Direct.Owned` is the invariant of the reference: no number is in two places, and a stack whose number
is in no place records nothing. There is one lemma for each way in which an event can move numbers, and
`step_owned` puts them together. All of them count numbers: an event leaves none in more places than it
was, apart from the number of a new stack.
-/

namespace CallProfiler

/-- Stacks by their numbers, and the numbers in the places where a task program has stacks. -/
structure Direct where
  shared : Profiler
  store : Nat → CallStack := fun _ => {}
  /-- The number of the next stack. -/
  next : Nat := 0
  slots : List (Option Nat) := []
  held : List Nat := []
  trees : List (Option CallTree) := []
  fallbacks : List Nat := []
  guards : List Bool := []

namespace Direct

/-! ## The reference -/

/-- The number in the innermost slot. -/
def current (d : Direct) : Option Nat := d.slots.head?.join

/-- Does something with the stack with a number. -/
def on {α : Type} (d : Direct) (k : Nat) (f : CallStack → Profiler → α × CallStack × Profiler) :
    α × Direct :=
  let (value, s, p) := f (d.store k) d.shared
  (value, { d with store := Function.update d.store k s, shared := p })

/-- Does something with the stack whose number is in the innermost slot, if there is one. -/
def onCurrent {α : Type} (d : Direct) (f : CallStack → Profiler → α × CallStack × Profiler) :
    Option α × Direct :=
  match d.current with
  | none => (none, d)
  | some k =>
    let (value, d) := d.on k f
    (some value, d)

/-- Ends the recording of the stack with a number without a result. -/
def drop (d : Direct) (k : Nat) : Direct := (d.on k fun s p => ((), s.deactivate p)).2

/-- Gives a number to a new stack. -/
def add (d : Direct) (s : CallStack) : Direct :=
  { d with store := Function.update d.store d.next s, next := d.next + 1 }

/-- Trees that are held from now on. -/
def keep (d : Direct) (trees : List CallTree) : Direct :=
  { d with trees := d.trees ++ trees.map some }

/-- Makes a move with what is held. -/
def hold (d : Direct) : HeldMove → Sight × Direct
  | .newStack =>
    (.stack .silent d.shared.stack, { d.add d.shared.stack with held := d.held ++ [d.next] })
  | .onStack j op =>
    match d.held[j]? with
    | none => (.nothing, d)
    | some k =>
      let (answer, d) := d.on k fun s p => s.apply p op
      (.stack answer (d.store k), d.keep answer.tree?.toList)
  | .take j =>
    match d.held[j]? with
    | none => (.nothing, d)
    | some k =>
      let (moved, d) := d.on k fun s p => (s.take.1, s.take.2, p)
      (.stack .silent moved, { d.add moved with held := d.held ++ [d.next] })
  | .drop j =>
    match d.held[j]? with
    | none => (.nothing, d)
    | some k => (.nothing, { d.drop k with held := d.held.eraseIdx j })
  | .onTree j change =>
    let (sight, party, p) := ({ trees := d.trees } : Party).make d.shared (.onTree j change)
    (sight, { d with trees := party.trees, shared := p })
  | .recycle j =>
    let (sight, party, p) := ({ trees := d.trees } : Party).make d.shared (.recycle j)
    (sight, { d with trees := party.trees, shared := p })

/-- One event. -/
def step (d : Direct) : TaskEvent → TaskAnswer × Direct
  | .held move =>
    let (sight, d) := d.hold move
    (.sight sight, d)
  | .clock step => (.nothing, { d with shared := d.shared.tick step })
  | .threshold nanos => (.nothing, { d with shared := { d.shared with threshold := nanos } })
  | .start signature => (.nothing, (d.onCurrent fun s p => ((), s.start p signature)).2)
  | .stop =>
    let (tree, d) := d.onCurrent CallStack.stop
    (.tree tree.join, d.keep tree.join.toList)
  | .io description duration =>
    (.nothing, (d.onCurrent fun s p => ((), s.addIoCall p description duration)).2)
  | .askActive => (.active ((d.current.map fun k => (d.store k).isActive).getD false), d)
  | .withStack ops =>
    let (answers, d) := d.onCurrent fun s p => s.applyAll p ops
    (.answers answers, d.keep (StackAnswer.trees (answers.getD [])))
  | .detach =>
    match d.onCurrent fun s p => (s.take.1, s.take.2, p) with
    | (none, d) => (.stack none, d)
    | (some moved, d) => (.stack (some moved), { d.add moved with held := d.held ++ [d.next] })
  | .enter signature =>
    let (armed, d) := d.onCurrent fun s p => s.enter p signature
    (.nothing, { d with guards := d.guards ++ [armed.getD false] })
  | .leave guard =>
    match d.guards[guard]? with
    | none => (.nothing, d)
    | some armed =>
      let (_, d) := d.onCurrent fun s p => ((), s.leave p armed)
      (.nothing, { d with guards := d.guards.eraseIdx guard })
  | .take =>
    match d.current with
    | none => (.stack none, d)
    | some k =>
      (.stack (some (d.store k)), { d with slots := none :: d.slots.tail, held := d.held ++ [k] })
  | .restore j =>
    match d.held[j]? with
    | none => (.nothing, d)
    | some k =>
      let held := d.held.eraseIdx j
      match d.slots with
      | [] => (.nothing, { d.drop k with held := held })
      | none :: outer => (.nothing, { d with slots := some k :: outer, held := held })
      | some old :: outer => (.nothing, { d.drop old with slots := some k :: outer, held := held })
  | .enterScope j =>
    match d.held[j]? with
    | none => (.nothing, d)
    | some k =>
      (.nothing,
        { d.add d.shared.stack with
          slots := some k :: d.slots
          fallbacks := d.next :: d.fallbacks
          held := d.held.eraseIdx j })
  | .leaveScope =>
    match d.fallbacks with
    | [] => (.nothing, d)
    | fallback :: outer =>
      let k := d.current.getD fallback
      (.stack (some (d.store k)),
        { d with slots := d.slots.tail, fallbacks := outer, held := d.held ++ [k] })
  | .abandonScope =>
    let left := match d.current with
      | none => d
      | some k => d.drop k
    (.nothing, { left with slots := d.slots.tail, fallbacks := d.fallbacks.tail })

/-- No stack has a number yet. -/
def fresh (pooling : Bool) (now : Reading) (threshold : UInt64) : Direct where
  shared := .start now pooling threshold

/-! ## Numbers -/

/-- The numbers of the stacks that can be reached. -/
def carried (d : Direct) : List Nat := d.slots.reduceOption ++ d.held

/-- The numbers in all places, with those of the stacks that wait for scopes to end. -/
def places (d : Direct) : List Nat := d.carried ++ d.fallbacks

/-- No number is in two places, and stacks that cannot be reached record nothing. -/
structure Owned (d : Direct) : Prop where
  apart : d.places.Nodup
  issued : ∀ k ∈ d.places, k < d.next
  idle : ∀ k, k ∉ d.carried → (d.store k).recording = none

variable {d : Direct} {k j : Nat} {α : Type}

/-- Before the first event no number is given out, so none can be in two places. -/
theorem owned_fresh (pooling : Bool) (now : Reading) (threshold : UInt64) :
    (fresh pooling now threshold).Owned where
  apart := List.nodup_nil
  issued := fun k hk => absurd hk (by simp [fresh, places, carried])
  idle := fun k _ => rfl

/-- A number in the innermost slot is the first of the slots. -/
theorem slots_of_current (here : d.current = some k) : d.slots = some k :: d.slots.tail := by
  unfold current at here
  rcases hs : d.slots with _ | ⟨slot, outer⟩
  · rw [hs] at here
    exact nomatch here
  · rw [hs] at here
    obtain rfl : slot = some k := here
    rfl

/-- The number in the innermost slot is the first of those that can be reached. -/
theorem carried_of_current (here : d.current = some k) :
    d.carried = k :: (d.slots.tail.reduceOption ++ d.held) := by
  unfold carried
  rw [slots_of_current here, List.reduceOption_cons_of_some]
  rfl

/-- An empty slot carries no number. -/
theorem reduceOption_tail (here : d.current = none) :
    d.slots.tail.reduceOption = d.slots.reduceOption := by
  unfold current at here
  rcases hs : d.slots with _ | ⟨_ | k, outer⟩
  · rfl
  · rfl
  · rw [hs] at here
    exact nomatch here

/-- A stack that is held can be reached. -/
theorem mem_carried_of_held (here : d.held[j]? = some k) : k ∈ d.carried :=
  List.mem_append_right _ (List.mem_of_getElem? here)

/-- A stack that can be reached may be worked on. -/
theorem Owned.on (ok : d.Owned) (here : k ∈ d.carried)
    (f : CallStack → Profiler → α × CallStack × Profiler) : (d.on k f).2.Owned where
  apart := ok.apart
  issued := ok.issued
  idle := by
    intro i outside
    have other : i ≠ k := by
      rintro rfl
      exact outside here
    exact (congrArg CallStack.recording (Function.update_of_ne other _ _)).trans (ok.idle i outside)

/-- The stack in the slot may be worked on, if there is one. -/
theorem Owned.onCurrent (ok : d.Owned) (f : CallStack → Profiler → α × CallStack × Profiler) :
    (d.onCurrent f).2.Owned := by
  unfold Direct.onCurrent
  split
  · exact ok
  · next k here =>
    refine ok.on ?_ f
    rw [carried_of_current here]
    exact List.mem_cons_self ..

/-- Trees have no numbers. -/
theorem Owned.keep (ok : d.Owned) (trees : List CallTree) : (d.keep trees).Owned :=
  ⟨ok.apart, ok.issued, ok.idle⟩

/-- Numbers have moved to other places, or have gone with their stacks idle. -/
theorem Owned.moved {d' : Direct} (ok : d.Owned) (next : d'.next = d.next)
    (few : ∀ k, d'.places.count k ≤ d.places.count k)
    (idle : ∀ k, k ∉ d'.carried → (d'.store k).recording = none) : d'.Owned where
  apart := List.nodup_iff_count_le_one.mpr fun k =>
    (few k).trans (List.nodup_iff_count_le_one.mp ok.apart k)
  issued := by
    intro k hk
    rw [next]
    exact ok.issued k (List.count_pos_iff.mp ((List.count_pos_iff.mpr hk).trans_le (few k)))
  idle := idle

/-- A new stack has come to one of the places. -/
theorem Owned.added {d' : Direct} (ok : d.Owned) (next : d'.next = d.next + 1)
    (few : ∀ k, d'.places.count k ≤ (d.next :: d.places).count k)
    (idle : ∀ k, k ∉ d'.carried → (d'.store k).recording = none) : d'.Owned := by
  have fresh : d.next ∉ d.places := fun there => Nat.lt_irrefl _ (ok.issued _ there)
  have apart : (d.next :: d.places).Nodup := List.nodup_cons.mpr ⟨fresh, ok.apart⟩
  refine ⟨?_, ?_, idle⟩
  · exact List.nodup_iff_count_le_one.mpr fun k =>
      (few k).trans (List.nodup_iff_count_le_one.mp apart k)
  · intro k hk
    rw [next]
    have old := List.count_pos_iff.mp ((List.count_pos_iff.mpr hk).trans_le (few k))
    rcases List.mem_cons.mp old with rfl | old
    · exact Nat.lt_succ_self _
    · exact Nat.lt_succ_of_lt (ok.issued k old)

theorem drop_slots (d : Direct) (k : Nat) : (d.drop k).slots = d.slots := rfl

theorem drop_held (d : Direct) (k : Nat) : (d.drop k).held = d.held := rfl

theorem drop_fallbacks (d : Direct) (k : Nat) : (d.drop k).fallbacks = d.fallbacks := rfl

theorem store_add_self (d : Direct) (s : CallStack) : (d.add s).store d.next = s :=
  Function.update_self _ _ _

theorem store_add_of_ne (s : CallStack) {i : Nat} (other : i ≠ d.next) :
    (d.add s).store i = d.store i :=
  Function.update_of_ne other _ _

/-- What is dropped records nothing afterwards, and nor does what was out of reach before. -/
theorem drop_idle (ok : d.Owned) {i : Nat} (gone : i ∉ d.carried ∨ i = k) :
    ((d.drop k).store i).recording = none := by
  by_cases same : i = k
  · have deactivated : (d.drop k).store k = ((d.store k).deactivate d.shared).1 :=
      Function.update_self _ _ _
    rw [same, deactivated]
    rfl
  · have outside := gone.resolve_right same
    exact (congrArg CallStack.recording (Function.update_of_ne same _ _)).trans (ok.idle i outside)

/-- A stack that is not held any more takes one occurrence of its number along. -/
theorem count_held (here : d.held[j]? = some k) (i : Nat) :
    d.held.count i = (d.held.eraseIdx j).count i + if k = i then 1 else 0 := by
  obtain ⟨bound, rfl⟩ := List.getElem?_eq_some_iff.mp here
  rw [← (List.getElem_cons_eraseIdx_perm bound).count_eq, List.count_cons]
  simp

/-- The numbers that are held are the one in question and the rest. -/
theorem mem_held (here : d.held[j]? = some k) {i : Nat} :
    i ∈ d.held ↔ i = k ∨ i ∈ d.held.eraseIdx j := by
  obtain ⟨bound, rfl⟩ := List.getElem?_eq_some_iff.mp here
  rw [← (List.getElem_cons_eraseIdx_perm bound).mem_iff, List.mem_cons]

/-! ### One lemma for each way in which numbers move -/

/-- A new stack comes with the next number, which is in no place yet. -/
theorem Owned.receive (ok : d.Owned) (s : CallStack) :
    Owned { d.add s with held := d.held ++ [d.next] } := by
  refine ok.added rfl ?_ ?_
  · intro k
    simp only [places, carried, add, List.count_append, List.count_cons, List.count_nil]
    omega
  · intro k outside
    simp only [carried, add, List.mem_append, List.mem_singleton, not_or] at outside
    have old : k ∉ d.carried := by
      simp only [carried, List.mem_append, not_or]
      exact ⟨outside.1, outside.2.1⟩
    exact (congrArg CallStack.recording (store_add_of_ne s outside.2.2)).trans (ok.idle k old)

/-- The number in the slot moves to those that are held. -/
theorem Owned.take (ok : d.Owned) (here : d.current = some k) :
    Owned { d with slots := none :: d.slots.tail, held := d.held ++ [k] } := by
  refine ok.moved rfl ?_ ?_
  · intro i
    unfold places
    rw [carried_of_current here]
    simp only [carried, List.reduceOption_cons_of_none, List.count_append, List.count_cons,
      List.count_nil, List.cons_append]
    omega
  · intro i outside
    apply ok.idle
    rw [carried_of_current here]
    simpa [carried, not_or, and_comm, and_assoc, and_left_comm] using outside

/-- A number that was held is in no place any more, and its stack is idle. -/
theorem Owned.release (ok : d.Owned) (here : d.held[j]? = some k) :
    Owned { d.drop k with held := d.held.eraseIdx j } := by
  refine ok.moved rfl ?_ ?_
  · intro i
    have count := count_held here i
    simp only [places, carried, drop_slots, drop_fallbacks, List.count_append]
    omega
  · intro i outside
    refine drop_idle ok ?_
    simp only [carried, List.mem_append, mem_held here, not_or]
    simp only [carried, drop_slots, List.mem_append, not_or] at outside
    tauto

/-- A held number moves to the empty slot. -/
theorem Owned.fill {outer : List (Option Nat)} (ok : d.Owned) (here : d.held[j]? = some k)
    (empty : d.slots = none :: outer) :
    Owned { d with slots := some k :: outer, held := d.held.eraseIdx j } := by
  refine ok.moved rfl ?_ ?_
  · intro i
    have count := count_held here i
    simp only [places, carried, empty, List.reduceOption_cons_of_none,
      List.reduceOption_cons_of_some, List.count_append, List.count_cons, beq_iff_eq]
    omega
  · intro i outside
    apply ok.idle
    simp only [carried, empty, List.reduceOption_cons_of_none, List.mem_append, mem_held here]
    simp only [carried, List.reduceOption_cons_of_some, List.mem_append, List.mem_cons] at outside
    tauto

/-- A held number moves to the slot, and the one there goes with its stack idle. -/
theorem Owned.displace {outer : List (Option Nat)} {old : Nat} (ok : d.Owned)
    (here : d.held[j]? = some k) (full : d.slots = some old :: outer) :
    Owned { d.drop old with slots := some k :: outer, held := d.held.eraseIdx j } := by
  refine ok.moved rfl ?_ ?_
  · intro i
    have count := count_held here i
    simp only [places, carried, drop_fallbacks, full, List.reduceOption_cons_of_some, List.count_append,
      List.count_cons, beq_iff_eq]
    omega
  · intro i outside
    refine drop_idle ok ?_
    simp only [carried, full, List.reduceOption_cons_of_some, List.mem_append, List.mem_cons,
      mem_held here]
    simp only [carried, List.reduceOption_cons_of_some, List.mem_append, List.mem_cons] at outside
    tauto

/-- A held number moves to the slot of a new scope, and the next number waits with the fallbacks. -/
theorem Owned.enterScope (ok : d.Owned) (here : d.held[j]? = some k) :
    Owned { d.add d.shared.stack with
      slots := some k :: d.slots
      fallbacks := d.next :: d.fallbacks
      held := d.held.eraseIdx j } := by
  refine ok.added rfl ?_ ?_
  · intro i
    have count := count_held here i
    simp only [places, carried, List.reduceOption_cons_of_some, List.count_append, List.count_cons,
      beq_iff_eq]
    omega
  · intro i outside
    by_cases isNew : i = d.next
    · rw [isNew]
      exact congrArg CallStack.recording (store_add_self d d.shared.stack)
    · refine (congrArg CallStack.recording (store_add_of_ne _ isNew)).trans (ok.idle i ?_)
      simp only [carried, List.mem_append, mem_held here]
      simp only [carried, List.reduceOption_cons_of_some, List.mem_append, List.mem_cons] at outside
      tauto

/-- The number in the slot is held from then on, or, where the slot is empty, the one that waits. -/
theorem Owned.leaveScope {fallback : Nat} {outer : List Nat} (ok : d.Owned)
    (running : d.fallbacks = fallback :: outer) :
    Owned { d with
      slots := d.slots.tail
      fallbacks := outer
      held := d.held ++ [d.current.getD fallback] } := by
  cases here : d.current with
  | none =>
    have same := reduceOption_tail here
    refine ok.moved rfl ?_ ?_
    · intro i
      simp only [places, carried, same, running, Option.getD_none, List.count_append,
        List.count_cons, List.count_nil]
      omega
    · intro i outside
      apply ok.idle
      simp only [carried, same, List.mem_append] at outside ⊢
      tauto
  | some k =>
    refine ok.moved rfl ?_ ?_
    · intro i
      unfold places
      rw [carried_of_current here]
      simp only [carried, running, Option.getD_some, List.count_append, List.count_cons,
        List.count_nil, List.cons_append]
      omega
    · intro i outside
      apply ok.idle
      rw [carried_of_current here]
      simp only [carried, Option.getD_some, List.mem_append, List.mem_cons] at outside ⊢
      tauto

/-- The number in the slot goes with its stack idle, and the one that waits was idle already. -/
theorem Owned.abandonScope (ok : d.Owned) : (d.step .abandonScope).2.Owned := by
  unfold step
  dsimp only
  cases here : d.current with
  | none =>
    have same := reduceOption_tail here
    refine ok.moved rfl ?_ ?_
    · intro i
      have fewer := (List.tail_sublist d.fallbacks).count_le i
      simp only [places, carried, same, List.count_append]
      omega
    · intro i outside
      apply ok.idle
      simp only [carried, same] at outside ⊢
      exact outside
  | some k =>
    refine ok.moved rfl ?_ ?_
    · intro i
      have fewer := (List.tail_sublist d.fallbacks).count_le i
      unfold places
      rw [carried_of_current here]
      simp only [carried, drop_held, List.count_append, List.count_cons, List.cons_append]
      omega
    · intro i outside
      refine drop_idle ok ?_
      rw [carried_of_current here]
      simp only [carried, drop_held, List.mem_append, List.mem_cons] at outside ⊢
      tauto

/-- What is done with held stacks and trees keeps the numbers apart. -/
theorem hold_owned (ok : d.Owned) (move : HeldMove) : (d.hold move).2.Owned := by
  cases move with
  | newStack => exact ok.receive d.shared.stack
  | onStack j op =>
    unfold hold
    dsimp only
    split
    · exact ok
    · next k here => exact (ok.on (mem_carried_of_held here) _).keep _
  | take j =>
    unfold hold
    dsimp only
    split
    · exact ok
    · next k here => exact (ok.on (mem_carried_of_held here) _).receive _
  | drop j =>
    unfold hold
    dsimp only
    split
    · exact ok
    · next k here => exact ok.release here
  | onTree j change => exact ⟨ok.apart, ok.issued, ok.idle⟩
  | recycle j => exact ⟨ok.apart, ok.issued, ok.idle⟩

/-- Every event keeps the numbers apart and the stacks out of reach idle. -/
theorem step_owned (ok : d.Owned) (e : TaskEvent) : (d.step e).2.Owned := by
  cases e with
  | held move => exact hold_owned ok move
  | clock step => exact ⟨ok.apart, ok.issued, ok.idle⟩
  | threshold nanos => exact ⟨ok.apart, ok.issued, ok.idle⟩
  | start signature => exact ok.onCurrent _
  | stop =>
    have worked := ok.onCurrent CallStack.stop
    exact ⟨worked.apart, worked.issued, worked.idle⟩
  | io description duration => exact ok.onCurrent _
  | askActive => exact ok
  | withStack ops =>
    have worked := ok.onCurrent fun s p => s.applyAll p ops
    exact ⟨worked.apart, worked.issued, worked.idle⟩
  | detach =>
    have worked := ok.onCurrent fun s p => (s.take.1, s.take.2, p)
    unfold step
    dsimp only
    split
    · next h =>
      rw [h] at worked
      exact worked
    · next h =>
      rw [h] at worked
      exact worked.receive _
  | enter signature =>
    have worked := ok.onCurrent fun s p => s.enter p signature
    exact ⟨worked.apart, worked.issued, worked.idle⟩
  | leave guard =>
    unfold step
    dsimp only
    split
    · exact ok
    · next armed _ =>
      have worked := ok.onCurrent fun s p => ((), s.leave p armed)
      exact ⟨worked.apart, worked.issued, worked.idle⟩
  | take =>
    unfold step
    dsimp only
    split
    · exact ok
    · next k here => exact ok.take here
  | restore j =>
    unfold step
    dsimp only
    split
    · exact ok
    · next k here =>
      split
      · exact ok.release here
      · next outer empty => exact ok.fill here empty
      · next old outer full => exact ok.displace here full
  | enterScope j =>
    unfold step
    dsimp only
    split
    · exact ok
    · next k here => exact ok.enterScope here
  | leaveScope =>
    unfold step
    dsimp only
    split
    · exact ok
    · next fallback outer running => exact ok.leaveScope running
  | abandonScope => exact ok.abandonScope

end Direct

end CallProfiler
