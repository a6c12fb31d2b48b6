import CallProfiler.Proofs.Task.Direct
import Mathlib.Data.List.InsertIdx

/-!
# Proofs.Task.Refinement: a task program does what its reference does

A state of the reference stands for a task program: in each place the stack with the number there
(`Direct.view`). `step_view` says that the task program does in each event what the reference does, and
answers alike. It needs that numbers are in one place only, since what happens to a stack must not be
seen in another place.

There is one lemma for each way in which an event can move numbers or work on a stack; `hold_view` and
`step_view` split the events.
-/

namespace CallProfiler

namespace Direct

variable {d : Direct} {k j : Nat} {α : Type}

/-- The task program that a state stands for: in each place the stack with the number there. -/
def view (d : Direct) : TaskProgram where
  shared := d.shared
  task := { slots := d.slots.map (Option.map d.store) }
  held := { cursors := d.held.map d.store, trees := d.trees }
  fallbacks := d.fallbacks.map d.store
  guards := d.guards

/-- The stack of the task is the one with the number in the innermost slot. -/
theorem view_stack? (d : Direct) : d.view.task.stack? = d.current.map d.store := by
  unfold Task.stack? current view
  rcases d.slots with _ | ⟨_ | k, outer⟩
  · rfl
  · rfl
  · rfl

/-- A change to one stack is not seen in a place where its number is not. -/
theorem map_update {f : Nat → CallStack} {s : CallStack} {l : List Nat} (outside : k ∉ l) :
    l.map (Function.update f k s) = l.map f := by
  apply List.map_congr_left
  intro i hi
  refine Function.update_of_ne ?_ _ _
  rintro rfl
  exact outside hi

theorem map_update_slots {f : Nat → CallStack} {s : CallStack} {l : List (Option Nat)}
    (outside : k ∉ l.reduceOption) :
    l.map (Option.map (Function.update f k s)) = l.map (Option.map f) := by
  apply List.map_congr_left
  intro slot hslot
  cases slot with
  | none => rfl
  | some i =>
    refine congrArg some (Function.update_of_ne ?_ _ _)
    rintro rfl
    exact outside (List.reduceOption_mem_iff.mpr hslot)

/-- If a number is held once, a change to its stack is seen there and nowhere else. -/
theorem map_update_held {f : Nat → CallStack} {s : CallStack} {l : List Nat}
    (here : l[j]? = some k) (others : k ∉ l.eraseIdx j) :
    l.map (Function.update f k s) = (l.map f).set j s := by
  apply List.ext_getElem?
  intro i
  rw [List.getElem?_map, List.getElem?_set, List.length_map]
  by_cases same : j = i
  · have bound := (List.getElem?_eq_some_iff.mp here).1
    rw [if_pos same, if_pos (same ▸ bound), ← same, here, Option.map_some, Function.update_self]
  · rw [if_neg same, List.getElem?_map]
    cases hi : l[i]? with
    | none => rfl
    | some n =>
      refine congrArg some (Function.update_of_ne ?_ _ _)
      rintro rfl
      exact others (List.mem_eraseIdx_iff_getElem?.mpr ⟨i, Ne.symm same, hi⟩)

/-- The number in the innermost slot is in no other place. -/
theorem Owned.apart_current (ok : d.Owned) (here : d.current = some k) :
    k ∉ d.slots.tail.reduceOption ∧ k ∉ d.held ∧ k ∉ d.fallbacks := by
  have apart := ok.apart
  unfold places at apart
  rw [carried_of_current here, List.cons_append, List.nodup_cons] at apart
  simpa [not_or, and_assoc] using apart.1

/-- Work on the stack in the slot is work on the stack with the number there, and is seen nowhere
else. -/
theorem view_onCurrent (ok : d.Owned) (f : CallStack → Profiler → α × CallStack × Profiler) :
    (d.onCurrent f).1 = (d.view.task.withStack d.shared f).1 ∧
    (d.onCurrent f).2.view =
      { d.view with
        task := (d.view.task.withStack d.shared f).2.1
        shared := (d.view.task.withStack d.shared f).2.2 } := by
  unfold onCurrent Task.withStack
  rw [view_stack?]
  cases here : d.current with
  | none => exact ⟨rfl, rfl⟩
  | some k =>
    rcases ok.apart_current here with ⟨outer, held, fallbacks⟩
    refine ⟨rfl, ?_⟩
    have slots := slots_of_current here
    unfold view on Task.setSlot
    dsimp only [Option.map_some]
    rw [map_update held, map_update fallbacks, slots]
    simp only [List.map_cons, Option.map_some, Function.update_self, map_update_slots outer]

theorem view_held (d : Direct) (j : Nat) :
    d.view.held.cursors[j]? = d.held[j]?.map d.store := List.getElem?_map

/-- The number of a held stack is in no other place. -/
theorem Owned.apart_held (ok : d.Owned) (here : d.held[j]? = some k) :
    k ∉ d.slots.reduceOption ∧ k ∉ d.held.eraseIdx j ∧ k ∉ d.fallbacks := by
  obtain ⟨bound, rfl⟩ := List.getElem?_eq_some_iff.mp here
  have perm := List.getElem_cons_eraseIdx_perm bound
  have nodup := (((perm.append_left d.slots.reduceOption).append_right d.fallbacks).nodup_iff).mpr
    ok.apart
  have first := (List.perm_middle.append_right d.fallbacks).nodup_iff.mp nodup
  rw [List.cons_append, List.nodup_cons] at first
  simpa [not_or, and_assoc] using first.1

/-- Work on a held stack is seen nowhere else. -/
theorem view_onHeld (ok : d.Owned) (here : d.held[j]? = some k)
    (f : CallStack → Profiler → α × CallStack × Profiler) :
    (d.on k f).2.view =
      { d.view with
        shared := (f (d.store k) d.shared).2.2
        held := { d.view.held with
          cursors := d.view.held.cursors.set j (f (d.store k) d.shared).2.1 } } := by
  rcases ok.apart_held here with ⟨slots, others, fallbacks⟩
  unfold view on
  dsimp only
  rw [map_update_slots slots, map_update fallbacks]
  rw [map_update_held here others]

/-- A stack that is received is held from then on, and nothing else changes. -/
theorem view_receive (ok : d.Owned) (s : CallStack) :
    view { d.add s with held := d.held ++ [d.next] } =
      { d.view with held := d.view.held.keep [s] [] } := by
  have fresh : d.next ∉ d.places := fun there => Nat.lt_irrefl _ (ok.issued _ there)
  simp only [places, carried, List.mem_append, not_or] at fresh
  rcases fresh with ⟨⟨slots, held⟩, fallbacks⟩
  unfold view add Party.keep
  dsimp only
  rw [map_update_slots slots, map_update fallbacks, List.map_append, map_update held]
  simp

/-- Trees that are held stand for themselves. -/
theorem view_keep (d : Direct) (trees : List CallTree) :
    (d.keep trees).view = { d.view with held := d.view.held.keep [] trees } := by
  unfold view keep Party.keep
  dsimp only
  rw [List.append_nil]

/-- A held stack that is dropped takes its number along, and its recording goes back to the pool. -/
theorem view_release (ok : d.Owned) (here : d.held[j]? = some k) :
    view { d.drop k with held := d.held.eraseIdx j } =
      { d.view with shared := (d.store k).drop d.shared, held := d.view.held.release j } := by
  rcases ok.apart_held here with ⟨slots, others, fallbacks⟩
  unfold view drop on Party.release
  dsimp only
  rw [map_update_slots slots, map_update fallbacks, map_update others, List.eraseIdx_map]
  rfl

/-- A held stack that comes into an empty slot is the same stack there. -/
theorem view_fill {outer : List (Option Nat)} (empty : d.slots = none :: outer) :
    view { d with slots := some k :: outer, held := d.held.eraseIdx j } =
      { d.view with
        task := d.view.task.setSlot (some (d.store k))
        held := d.view.held.release j } := by
  unfold view Task.setSlot Party.release
  dsimp only
  rw [empty, List.eraseIdx_map]
  rfl

/-- A held stack that comes into a full slot displaces the one there, which is dropped. -/
theorem view_displace {outer : List (Option Nat)} {old : Nat} (ok : d.Owned)
    (here : d.held[j]? = some k) (full : d.slots = some old :: outer) :
    view { d.drop old with slots := some k :: outer, held := d.held.eraseIdx j } =
      { d.view with
        task := d.view.task.setSlot (some (d.store k))
        shared := (d.store old).drop d.shared
        held := d.view.held.release j } := by
  have apart := ok.apart
  have current : d.current = some old := by
    unfold current
    rw [full]
    rfl
  rcases ok.apart_current current with ⟨others, held, fallbacks⟩
  rw [full, List.tail_cons] at others
  have left : old ∉ d.held.eraseIdx j := fun there => held ((mem_held here).mpr (.inr there))
  have other : k ≠ old := by
    rintro rfl
    exact held (List.mem_of_getElem? here)
  unfold view drop on Task.setSlot Party.release
  dsimp only
  rw [full, List.eraseIdx_map, map_update left, map_update fallbacks]
  simp only [List.map_cons, Option.map_some, Function.update_of_ne other, map_update_slots others]
  rfl

/-- The innermost of the scopes gets the held stack, and a new number waits until it ends. -/
theorem view_enterScope (ok : d.Owned) (here : d.held[j]? = some k) :
    view { d.add d.shared.stack with
      slots := some k :: d.slots
      fallbacks := d.next :: d.fallbacks
      held := d.held.eraseIdx j } =
      { d.view with
        task := d.view.task.enterScope (d.store k)
        fallbacks := d.shared.stack :: d.view.fallbacks
        held := d.view.held.release j } := by
  have fresh : d.next ∉ d.places := fun there => Nat.lt_irrefl _ (ok.issued _ there)
  have other : k ≠ d.next := by
    rintro rfl
    exact fresh (List.mem_append_left _ (mem_carried_of_held here))
  simp only [places, carried, List.mem_append, not_or] at fresh
  rcases fresh with ⟨⟨slots, held⟩, fallbacks⟩
  have left : d.next ∉ d.held.eraseIdx j := fun there => held ((mem_held here).mpr (.inr there))
  unfold view add Task.enterScope Party.release
  dsimp only
  rw [map_update left, List.eraseIdx_map]
  simp only [List.map_cons, Option.map_some, Function.update_of_ne other, Function.update_self,
    map_update_slots slots, map_update fallbacks]

/-- A scope that is abandoned drops the stack in its slot, and the one that waits goes unused. -/
theorem view_abandon (ok : d.Owned) (here : d.current = some k) :
    view { d.drop k with slots := d.slots.tail, fallbacks := d.fallbacks.tail } =
      { d.view with
        task := { d.view.task with slots := d.view.task.slots.tail }
        shared := (d.store k).drop d.shared
        fallbacks := d.view.fallbacks.tail } := by
  rcases ok.apart_current here with ⟨outer, held, fallbacks⟩
  have waiting : k ∉ d.fallbacks.tail := fun there => fallbacks (List.mem_of_mem_tail there)
  unfold view drop on
  dsimp only
  rw [map_update_slots outer, map_update held, map_update waiting, List.map_tail, List.map_tail]
  rfl

theorem view_guards (d : Direct) (guards : List Bool) :
    view { d with guards := guards } = { d.view with guards := guards } := rfl

/-- What is done with held stacks and trees is done with the stacks with their numbers. -/
theorem hold_view (ok : d.Owned) (move : HeldMove) :
    (d.view.held.hold d.shared move).1 = (d.hold move).1 ∧
    (d.hold move).2.view =
      { d.view with
        held := (d.view.held.hold d.shared move).2.1
        shared := (d.view.held.hold d.shared move).2.2 } := by
  have held := view_held d
  cases move with
  | newStack =>
    refine ⟨rfl, (view_receive ok d.shared.stack).trans ?_⟩
    unfold Party.keep
    rw [List.map_nil, List.append_nil]
    rfl
  | onStack j op =>
    unfold hold Party.hold Party.make
    dsimp only
    rw [held]
    cases here : d.held[j]? with
    | none => exact ⟨rfl, rfl⟩
    | some k =>
      dsimp only [Option.map_some]
      rw [view_keep, view_onHeld ok here]
      have shown : (d.on k fun s p => s.apply p op).2.store k = (CallStack.apply d.shared (d.store k) op).2.1 :=
        Function.update_self _ _ _
      rw [shown]
      refine ⟨rfl, ?_⟩
      unfold Party.keep
      dsimp only
      rw [List.append_nil, ← Option.toList_map]
      rfl
  | take j =>
    unfold hold Party.hold Party.make
    dsimp only
    rw [held]
    cases here : d.held[j]? with
    | none => exact ⟨rfl, rfl⟩
    | some k =>
      dsimp only [Option.map_some]
      have worked := ok.on (mem_carried_of_held here) fun s p => (s.take.1, s.take.2, p)
      refine ⟨rfl, ?_⟩
      have received := view_receive worked (d.store k).take.1
      rw [view_onHeld ok here] at received
      refine received.trans ?_
      unfold Party.keep
      dsimp only
      rw [List.map_nil, List.append_nil]
  | drop j =>
    unfold hold Party.hold
    dsimp only
    rw [held]
    cases here : d.held[j]? with
    | none => exact ⟨rfl, rfl⟩
    | some k => exact ⟨rfl, view_release ok here⟩
  | onTree j change =>
    unfold hold Party.hold Party.make
    have trees : d.view.held.trees = d.trees := rfl
    dsimp only
    rw [trees]
    cases d.trees[j]?.join with
    | none => exact ⟨rfl, rfl⟩
    | some t => exact ⟨rfl, rfl⟩
  | recycle j =>
    unfold hold Party.hold Party.make
    have trees : d.view.held.trees = d.trees := rfl
    dsimp only
    rw [trees]
    cases d.trees[j]?.join with
    | none => exact ⟨rfl, rfl⟩
    | some t => exact ⟨rfl, rfl⟩

/-! ## Events

What an event does to the stack in the slot is `view_onCurrent`; the others move numbers. -/

/-- To move the recording out of the slot is to work on the stack there and to hold a new one. -/
theorem detach_view (ok : d.Owned) :
    d.view.step .detach = ((d.step .detach).1, (d.step .detach).2.view) := by
  rcases view_onCurrent ok fun s p => (s.take.1, s.take.2, p) with ⟨moved, same⟩
  have worked := ok.onCurrent fun s p => (s.take.1, s.take.2, p)
  have shared : d.view.shared = d.shared := rfl
  unfold step TaskProgram.step
  dsimp only
  rw [shared, ← moved]
  generalize d.onCurrent _ = result at same worked ⊢
  rcases result with ⟨_ | s, d'⟩
  · dsimp only at same ⊢
    rw [same]
    unfold Party.keep
    simp
  · dsimp only at same worked ⊢
    rw [view_receive worked s, same]
    rfl

/-- A guard ends a call if and only if the reference says so. -/
theorem enter_view (ok : d.Owned) (signature : String) :
    d.view.step (.enter signature) =
      ((d.step (.enter signature)).1, (d.step (.enter signature)).2.view) := by
  rcases view_onCurrent ok fun s p => s.enter p signature with ⟨armed, same⟩
  unfold step TaskProgram.step
  dsimp only
  rw [Task.enter_eq]
  generalize d.onCurrent _ = result at armed same ⊢
  rcases result with ⟨flag, d'⟩
  dsimp only at armed same ⊢
  have guards : d'.guards = d.guards := congrArg TaskProgram.guards same
  rw [view_guards d', same, armed, guards]
  rfl

/-- Dropping a guard is work on the stack that is in the slot by then. -/
theorem leave_view (ok : d.Owned) (guard : Nat) :
    d.view.step (.leave guard) = ((d.step (.leave guard)).1, (d.step (.leave guard)).2.view) := by
  unfold step TaskProgram.step
  dsimp only
  have guards : d.view.guards = d.guards := rfl
  rw [guards]
  cases d.guards[guard]? with
  | none => rfl
  | some armed =>
    have same := (view_onCurrent ok fun s p => ((), s.leave p armed)).2
    dsimp only
    rw [Task.leave_eq]
    generalize d.onCurrent _ = result at same ⊢
    rcases result with ⟨done, d'⟩
    dsimp only at same ⊢
    have guards : d'.guards = d.guards := congrArg TaskProgram.guards same
    rw [view_guards d', same, guards]
    rfl

/-- A stack that is taken out of the slot is held under the same number. -/
theorem take_view (d : Direct) : d.view.step .take = ((d.step .take).1, (d.step .take).2.view) := by
  unfold step TaskProgram.step Task.takeStack
  dsimp only
  rw [view_stack?]
  cases here : d.current with
  | none =>
    dsimp only [Option.map_none]
    unfold Party.keep
    simp
  | some k =>
    dsimp only [Option.map_some]
    unfold view Task.setSlot Party.keep
    dsimp only
    rw [slots_of_current here]
    simp

/-- A stack that is put back is dropped, fills the slot or displaces another, as in the reference. -/
theorem restore_view (ok : d.Owned) (j : Nat) :
    d.view.step (.restore j) = ((d.step (.restore j)).1, (d.step (.restore j)).2.view) := by
  unfold step TaskProgram.step Task.restoreStack
  dsimp only
  rw [view_held]
  cases here : d.held[j]? with
  | none => rfl
  | some k =>
    dsimp only [Option.map_some]
    have slots : d.view.task.slots = d.slots.map (Option.map d.store) := rfl
    rw [slots]
    -- outside of any scope the stack is dropped, and in a full slot it displaces another one
    rcases hs : d.slots with _ | ⟨_ | old, outer⟩
    · dsimp only [List.map_nil]
      rw [view_release ok here]
      rfl
    · dsimp only [List.map_cons, Option.map_none]
      rw [view_fill hs]
      rfl
    · dsimp only [List.map_cons, Option.map_some]
      rw [view_displace ok here hs]
      rfl

/-- A scope gives back the stack in its slot, or the one that waits, as in the reference. -/
theorem leaveScope_view (d : Direct) :
    d.view.step .leaveScope = ((d.step .leaveScope).1, (d.step .leaveScope).2.view) := by
  unfold step TaskProgram.step Task.leaveScope
  dsimp only
  rw [view_stack?]
  have fallbacks : d.view.fallbacks = d.fallbacks.map d.store := rfl
  rw [fallbacks]
  cases d.fallbacks with
  | nil => rfl
  | cons fallback outer =>
    rw [List.map_cons]
    dsimp only
    have yielded : (d.current.map d.store).getD (d.store fallback) =
        d.store (d.current.getD fallback) := by
      cases d.current <;> rfl
    rw [yielded]
    unfold view Party.keep
    simp

/-- A scope that is abandoned drops the stack that the reference drops. -/
theorem abandonScope_view (ok : d.Owned) :
    d.view.step .abandonScope = ((d.step .abandonScope).1, (d.step .abandonScope).2.view) := by
  unfold step TaskProgram.step
  dsimp only
  rw [view_stack?]
  cases here : d.current with
  | none =>
    unfold view
    dsimp only
    rw [List.map_tail, List.map_tail]
    rfl
  | some k =>
    rw [view_abandon ok here]
    rfl

/-- A task program does in each event what the reference does, and answers alike. -/
theorem step_view (ok : d.Owned) (e : TaskEvent) :
    d.view.step e = ((d.step e).1, (d.step e).2.view) := by
  cases e with
  | held move =>
    rcases hold_view ok move with ⟨sight, same⟩
    unfold step
    dsimp only
    rw [same, ← sight]
    rfl
  | clock step => rfl
  | threshold nanos => rfl
  | start signature =>
    have same := (view_onCurrent ok fun s p => ((), s.start p signature)).2
    exact congrArg (Prod.mk TaskAnswer.nothing) same.symm
  | stop =>
    rcases view_onCurrent ok CallStack.stop with ⟨tree, same⟩
    unfold step
    dsimp only
    rw [view_keep, same, tree]
    rfl
  | io description duration =>
    have same := (view_onCurrent ok fun s p => ((), s.addIoCall p description duration)).2
    exact congrArg (Prod.mk TaskAnswer.nothing) same.symm
  | askActive =>
    unfold step TaskProgram.step Task.isActive
    dsimp only
    rw [view_stack?, Option.map_map]
    rfl
  | withStack ops =>
    rcases view_onCurrent ok fun s p => s.applyAll p ops with ⟨answers, same⟩
    unfold step
    dsimp only
    rw [view_keep, same, answers]
    rfl
  | detach => exact detach_view ok
  | enter signature => exact enter_view ok signature
  | leave guard => exact leave_view ok guard
  | take => exact take_view d
  | restore j => exact restore_view ok j
  | enterScope j =>
    unfold step TaskProgram.step Task.enterScope
    dsimp only
    rw [view_held]
    cases here : d.held[j]? with
    | none => rfl
    | some k =>
      dsimp only [Option.map_some]
      rw [view_enterScope ok here]
      rfl
  | leaveScope => exact leaveScope_view d
  | abandonScope => exact abandonScope_view ok

end Direct

end CallProfiler
