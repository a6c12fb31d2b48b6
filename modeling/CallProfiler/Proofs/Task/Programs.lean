import CallProfiler.Proofs.Stack.Isolation
import CallProfiler.Task

/-!
# Proofs.Task.Programs: what a task program does with stacks

A program reaches the stack of its task through the slots of its scopes, and it may take stacks out,
hold any number of them and put them back in any order. `TaskProgram` is the task together with all
that its program holds: stacks, finished trees, guards, and for each scope that runs the stack that was
made for the case that its slot is empty at the end. `TaskProgram.step` makes each event with the
functions of `Task`.

`step_shifts` lists what an event can do to the slots: change the innermost one, cover it, or uncover
the one below. So a scope that is left finds the slots that it covered as they were
(`leaves_as_entered`), whatever the program has done inside.
-/

namespace CallProfiler

/-! ## Programs -/

/-- What a program does with the stacks and the trees that it holds itself; `k` numbers them. -/
inductive HeldMove where
  | newStack
  | onStack (k : Nat) (op : StackOp)
  /-- Moves the recording of a stack to a new one. -/
  | take (k : Nat)
  | drop (k : Nat)
  | onTree (k : Nat) (change : TreeEdit)
  /-- Gives a tree back to the pool. -/
  | recycle (k : Nat)

/-- An event of a task program; `k` numbers the stacks that it holds, `guard` its guards. -/
inductive TaskEvent where
  | held (move : HeldMove)
  | clock (step : ClockStep)
  | threshold (nanos : UInt64)
  | start (signature : String)
  | stop
  | io (description : String) (duration : UInt64)
  | askActive
  /-- Runs operations on the stack in the slot, in one closure. -/
  | withStack (ops : List StackOp)
  /-- Moves the recording of the stack in the slot to a new stack. -/
  | detach
  | enter (signature : String)
  /-- Drops a guard; guards may be dropped in any order. -/
  | leave (guard : Nat)
  | take
  | restore (k : Nat)
  | enterScope (k : Nat)
  | leaveScope
  /-- Drops a scope that has not come to its end. -/
  | abandonScope

/-- The answer to an event. -/
inductive TaskAnswer where
  | nothing
  | active (flag : Bool)
  | tree (tree : Option CallTree)
  | stack (stack : Option CallStack)
  | answers (answers : Option (List (StackAnswer CallTree)))
  | sight (sight : Sight)

/-- Operations on a stack, one after the other. -/
def CallStack.applyAll (p : Profiler) (s : CallStack) :
    List StackOp → List (StackAnswer CallTree) × CallStack × Profiler
  | [] => ([], s, p)
  | op :: rest =>
    let (answer, s, p) := apply p s op
    let (answers, s, p) := applyAll p s rest
    (answer :: answers, s, p)

/-- The trees that were handed over with answers. -/
def StackAnswer.trees (answers : List (StackAnswer CallTree)) : List CallTree :=
  answers.filterMap StackAnswer.tree?

namespace Party

/-- Trees and stacks that are held from now on. -/
def keep (party : Party) (cursors : List CallStack) (trees : List CallTree) : Party where
  cursors := party.cursors ++ cursors
  trees := party.trees ++ trees.map some

/-- A stack that is no longer held. -/
def release (party : Party) (k : Nat) : Party :=
  { party with cursors := party.cursors.eraseIdx k }

/-- Makes a move with what is held. -/
def hold (party : Party) (p : Profiler) : HeldMove → Sight × Party × Profiler
  | .newStack => party.make p .newStack
  | .onStack k op => party.make p (.onStack k op)
  | .take k => party.make p (.take k)
  | .drop k =>
    match party.cursors[k]? with
    | none => (.nothing, party, p)
    | some s => (.nothing, party.release k, s.drop p)
  | .onTree k change => party.make p (.onTree k change)
  | .recycle k => party.make p (.recycle k)

end Party

/-- A task, and what its program holds. -/
structure TaskProgram where
  shared : Profiler
  task : Task := {}
  held : Party := {}
  /-- The stacks that are given back by scopes whose slots are empty at the end, that of the innermost
  scope first. -/
  fallbacks : List CallStack := []
  /-- The guards that have not been dropped: whether they will end a call. -/
  guards : List Bool := []

namespace TaskProgram

/-- One event. What names something that is not there is ignored. -/
def step (u : TaskProgram) : TaskEvent → TaskAnswer × TaskProgram
  | .held move =>
    let (sight, held, p) := u.held.hold u.shared move
    (.sight sight, { u with held := held, shared := p })
  | .clock step => (.nothing, { u with shared := u.shared.tick step })
  | .threshold nanos => (.nothing, { u with shared := { u.shared with threshold := nanos } })
  | .start signature =>
    let (task, p) := u.task.start u.shared signature
    (.nothing, { u with task := task, shared := p })
  | .stop =>
    let (tree, task, p) := u.task.stop u.shared
    (.tree tree, { u with task := task, shared := p, held := u.held.keep [] tree.toList })
  | .io description duration =>
    let (task, p) := u.task.addIoCall u.shared description duration
    (.nothing, { u with task := task, shared := p })
  | .askActive => (.active u.task.isActive, u)
  | .withStack ops =>
    let (answers, task, p) := u.task.withStack u.shared fun s p => s.applyAll p ops
    (.answers answers,
      { u with
        task := task
        shared := p
        held := u.held.keep [] (StackAnswer.trees (answers.getD [])) })
  | .detach =>
    let (moved, task, p) := u.task.withStack u.shared fun s p => (s.take.1, s.take.2, p)
    (.stack moved, { u with task := task, shared := p, held := u.held.keep moved.toList [] })
  | .enter signature =>
    let (armed, task, p) := u.task.enter u.shared signature
    (.nothing, { u with task := task, shared := p, guards := u.guards ++ [armed] })
  | .leave guard =>
    match u.guards[guard]? with
    | none => (.nothing, u)
    | some armed =>
      let (task, p) := u.task.leave u.shared armed
      (.nothing, { u with task := task, shared := p, guards := u.guards.eraseIdx guard })
  | .take =>
    let (stack, task) := u.task.takeStack
    (.stack stack, { u with task := task, held := u.held.keep stack.toList [] })
  | .restore k =>
    match u.held.cursors[k]? with
    | none => (.nothing, u)
    | some s =>
      let (task, p) := u.task.restoreStack u.shared s
      (.nothing, { u with task := task, shared := p, held := u.held.release k })
  | .enterScope k =>
    match u.held.cursors[k]? with
    | none => (.nothing, u)
    | some s =>
      (.nothing,
        { u with
          task := u.task.enterScope s
          fallbacks := u.shared.stack :: u.fallbacks
          held := u.held.release k })
  | .leaveScope =>
    match u.fallbacks with
    | [] => (.nothing, u)
    | fallback :: outer =>
      let (stack, task) := u.task.leaveScope fallback
      (.stack (some stack),
        { u with task := task, fallbacks := outer, held := u.held.keep [stack] [] })
  | .abandonScope =>
    (.nothing,
      { u with
        task := { u.task with slots := u.task.slots.tail }
        shared := u.shared.recycle? (u.task.stack?.bind CallStack.tree?)
        fallbacks := u.fallbacks.tail })

/-- The program after a list of events. -/
def run (u : TaskProgram) (events : List TaskEvent) : TaskProgram :=
  events.foldl (fun u e => (u.step e).2) u

/-- A task outside of any scope, whose program holds nothing. -/
def fresh (pooling : Bool) (now : Reading) (threshold : UInt64) : TaskProgram where
  shared := .start now pooling threshold

end TaskProgram

/-! ## The slots -/

/-- What an event does to the slots and to the stacks that are given back for empty ones: it works in
the innermost scope, opens a scope, or leaves one. -/
inductive TaskProgram.Shifts (u v : TaskProgram) : Prop where
  | inside : v.task.slots.tail = u.task.slots.tail → v.task.slots.length = u.task.slots.length →
      v.fallbacks = u.fallbacks → Shifts u v
  | opened (s fallback : CallStack) : v.task.slots = some s :: u.task.slots →
      v.fallbacks = fallback :: u.fallbacks → Shifts u v
  | left : v.task.slots = u.task.slots.tail → v.fallbacks = u.fallbacks.tail → Shifts u v

namespace Task

variable {p : Profiler}

/-- To fill or empty the innermost slot leaves those below it, and their number, alone. -/
theorem setSlot_slots (t : Task) (slot : Option CallStack) :
    (t.setSlot slot).slots.tail = t.slots.tail ∧ (t.setSlot slot).slots.length = t.slots.length := by
  unfold setSlot
  cases t.slots with
  | nil => exact ⟨rfl, rfl⟩
  | cons _ outer => exact ⟨rfl, rfl⟩

/-- Work on the stack in the slot leaves the slots below it, and their number, alone. -/
theorem withStack_slots {α : Type} (t : Task) (p : Profiler)
    (f : CallStack → Profiler → α × CallStack × Profiler) :
    (t.withStack p f).2.1.slots.tail = t.slots.tail ∧
    (t.withStack p f).2.1.slots.length = t.slots.length := by
  unfold withStack
  split
  · exact ⟨rfl, rfl⟩
  · exact t.setSlot_slots _

/-- To put back what is in the slot changes nothing. -/
theorem setSlot_stack {t : Task} {s : CallStack} (there : t.stack? = some s) :
    t.setSlot (some s) = t := by
  rcases t with ⟨_ | ⟨slot, outer⟩, taken⟩
  · exact nomatch there
  · obtain rfl : slot = some s := there
    rfl

/-- A guard of a task is a guard of the stack in the slot; without a stack it ends no call. -/
theorem enter_eq (t : Task) (p : Profiler) (signature : String) :
    t.enter p signature =
      ((t.withStack p fun s p => s.enter p signature).1.getD false,
        (t.withStack p fun s p => s.enter p signature).2) := by
  unfold enter isActive start withStack
  cases t.stack? with
  | none => rfl
  | some s => rfl

/-- To drop a guard of a task is to drop a guard of the stack that is in the slot by then. -/
theorem leave_eq (t : Task) (p : Profiler) (armed : Bool) :
    t.leave p armed = (t.withStack p fun s p => ((), s.leave p armed)).2 := by
  unfold leave stop withStack
  cases there : t.stack? with
  | none => cases armed <;> rfl
  | some s =>
    cases armed with
    | false =>
      dsimp only [CallStack.leave]
      rw [if_neg (by simp), if_neg (by simp), setSlot_stack there]
    | true => rfl

end Task

namespace TaskProgram

theorem Shifts.refl (u : TaskProgram) : Shifts u u := .inside rfl rfl rfl

/-- No event does anything else to the slots: scopes open and end one at a time. -/
theorem step_shifts (u : TaskProgram) (e : TaskEvent) : Shifts u (u.step e).2 := by
  cases e with
  | held move => exact .inside rfl rfl rfl
  | clock step => exact .inside rfl rfl rfl
  | threshold nanos => exact .inside rfl rfl rfl
  | start signature =>
    rcases u.task.withStack_slots u.shared fun s p => ((), s.start p signature) with ⟨outer, length⟩
    exact .inside outer length rfl
  | stop =>
    rcases u.task.withStack_slots u.shared CallStack.stop with ⟨outer, length⟩
    exact .inside outer length rfl
  | io description duration =>
    rcases u.task.withStack_slots u.shared fun s p => ((), s.addIoCall p description duration) with
      ⟨outer, length⟩
    exact .inside outer length rfl
  | askActive => exact .refl u
  | withStack ops =>
    rcases u.task.withStack_slots u.shared fun s p => s.applyAll p ops with ⟨outer, length⟩
    exact .inside outer length rfl
  | detach =>
    rcases u.task.withStack_slots u.shared fun s p => (s.take.1, s.take.2, p) with ⟨outer, length⟩
    exact .inside outer length rfl
  | enter signature =>
    rcases u.task.withStack_slots u.shared fun s p => ((), s.start p signature) with ⟨outer, length⟩
    exact .inside outer length rfl
  | leave guard =>
    unfold step
    dsimp only
    split
    · exact .refl u
    · next armed _ =>
      unfold Task.leave
      cases armed with
      | false => exact .inside rfl rfl rfl
      | true =>
        rcases u.task.withStack_slots u.shared CallStack.stop with ⟨outer, length⟩
        exact .inside outer length rfl
  | take =>
    unfold step Task.takeStack
    dsimp only
    split
    · exact .inside rfl rfl rfl
    · rcases u.task.setSlot_slots none with ⟨outer, length⟩
      exact .inside outer length rfl
  | restore k =>
    unfold step
    dsimp only
    split
    · exact .refl u
    · next s _ =>
      unfold Task.restoreStack
      dsimp only
      split
      · exact .inside rfl rfl rfl
      · rcases u.task.setSlot_slots (some s) with ⟨outer, length⟩
        exact .inside outer length rfl
  | enterScope k =>
    unfold step
    dsimp only
    split
    · exact .refl u
    · next s _ => exact .opened s u.shared.stack rfl rfl
  | leaveScope =>
    unfold step
    dsimp only
    split
    · exact .refl u
    · next fallback outer running =>
      refine .left rfl ?_
      rw [running]
      rfl
  | abandonScope => exact .left rfl rfl

/-- Each scope that runs has a slot and a stack to give back for it. -/
def Framed (u : TaskProgram) : Prop := u.fallbacks.length = u.task.slots.length

/-- Scopes and stacks that wait for them come and go together. -/
theorem Shifts.framed {u v : TaskProgram} (shifts : Shifts u v) (framed : u.Framed) : v.Framed := by
  unfold Framed at framed ⊢
  cases shifts with
  | inside outer length same =>
    rw [length, same]
    exact framed
  | opened s fallback slots fallbacks =>
    rw [slots, fallbacks, List.length_cons, List.length_cons, framed]
  | left slots fallbacks =>
    rw [slots, fallbacks, List.length_tail, List.length_tail, framed]

/-- What lies below the innermost slots stays there while there are more slots than that. -/
theorem Shifts.covered {u v : TaskProgram} {outer : List (Option CallStack)}
    (shifts : Shifts u v) (here : outer <:+ u.task.slots.tail)
    (deep : outer.length < v.task.slots.length) : outer <:+ v.task.slots.tail := by
  cases shifts with
  | inside same length _ =>
    rw [same]
    exact here
  | opened s fallback slots _ =>
    rw [slots]
    exact here.trans (List.tail_suffix _)
  | left slots _ =>
    rw [slots] at deep ⊢
    have room : outer.length ≤ u.task.slots.tail.tail.length := by
      rw [List.length_tail]
      omega
    exact List.suffix_of_suffix_length_le here (List.tail_suffix _) room

/-- The stacks that wait for the outer scopes stay there while there are more of them. -/
theorem Shifts.fallbacks {u v : TaskProgram} {outer : List CallStack} (shifts : Shifts u v)
    (here : outer <:+ u.fallbacks) (deep : outer.length ≤ v.fallbacks.length) :
    outer <:+ v.fallbacks := by
  cases shifts with
  | inside _ _ same =>
    rw [same]
    exact here
  | opened s fallback _ fallbacks =>
    rw [fallbacks]
    exact here.trans (List.suffix_cons _ _)
  | left _ fallbacks =>
    rw [fallbacks] at deep ⊢
    exact List.suffix_of_suffix_length_le here (List.tail_suffix _) deep

/-- All along a run each scope has a slot and a stack that waits for its end. -/
theorem run_framed (events : List TaskEvent) {u : TaskProgram} (framed : u.Framed) :
    (u.run events).Framed := by
  induction events generalizing u with
  | nil => exact framed
  | cons e rest ih => exact ih ((u.step_shifts e).framed framed)

/-- The states at the first and after each event. -/
def history (u : TaskProgram) (events : List TaskEvent) : List TaskProgram := states step u events

theorem run_mem_history (u : TaskProgram) (events : List TaskEvent) :
    u.run events ∈ u.history events := by
  induction events generalizing u with
  | nil => exact List.mem_singleton_self u
  | cons e rest ih => exact List.mem_cons_of_mem _ (ih _)

/-- What every event keeps is true all along. -/
theorem history_keeps {P : TaskProgram → Prop} (each : ∀ v e, P v → P (v.step e).2)
    (events : List TaskEvent) {u : TaskProgram} (start : P u) : ∀ v ∈ u.history events, P v := by
  induction events generalizing u with
  | nil =>
    intro v hv
    obtain rfl := List.mem_singleton.mp hv
    exact start
  | cons e rest ih =>
    intro v hv
    rcases List.mem_cons.mp hv with rfl | later
    · exact start
    · exact ih (each u e start) v later

/-- While a run stays inside a scope, it leaves the slots below and the stacks that wait for them alone:
each event does (`Shifts.covered`, `Shifts.fallbacks`), so the whole run does. -/
theorem run_covered (outer : List (Option CallStack)) (fallbacks : List CallStack)
    (events : List TaskEvent) {u : TaskProgram} (framed : u.Framed)
    (slots : outer <:+ u.task.slots.tail) (below : fallbacks <:+ u.fallbacks)
    (more : fallbacks.length = outer.length + 1)
    (deep : ∀ v ∈ u.history events, outer.length < v.task.slots.length) :
    outer <:+ (u.run events).task.slots.tail ∧ fallbacks <:+ (u.run events).fallbacks := by
  induction events generalizing u with
  | nil => exact ⟨slots, below⟩
  | cons e rest ih =>
    have shifts := u.step_shifts e
    have framed' := shifts.framed framed
    have later : ∀ v ∈ (u.step e).2.history rest, outer.length < v.task.slots.length :=
      fun v hv => deep v (List.mem_cons_of_mem _ hv)
    have next : outer.length < (u.step e).2.task.slots.length := by
      apply later
      cases rest <;> exact List.mem_cons_self ..
    have enough : fallbacks.length ≤ (u.step e).2.fallbacks.length := by
      rw [more, framed']
      exact next
    exact ih framed' (shifts.covered slots next) (shifts.fallbacks below enough) later

/-- A scope that is left gives back the stack in its slot, or an inactive one of the same profiler, and
uncovers the slots of the scopes around it as they were, whatever happened inside: other scopes may
have been opened and left, and stacks taken out and put back. -/
theorem leaves_as_entered {u : TaskProgram} (framed : u.Framed) {k : Nat} {s : CallStack}
    (held : u.held.cursors[k]? = some s) (inside : List TaskEvent)
    (deep : ∀ v ∈ (u.step (.enterScope k)).2.history inside,
      u.task.slots.length < v.task.slots.length)
    (last : ((u.step (.enterScope k)).2.run inside).task.slots.length = u.task.slots.length + 1) :
    let v := (u.step (.enterScope k)).2.run inside
    (v.step .leaveScope).1 = .stack (some (v.task.stack?.getD u.shared.stack)) ∧
    (v.step .leaveScope).2.task.slots = u.task.slots ∧
    (v.step .leaveScope).2.held = v.held.keep [v.task.stack?.getD u.shared.stack] [] := by
  have opened : (u.step (.enterScope k)).2.task.slots = some s :: u.task.slots ∧
      (u.step (.enterScope k)).2.fallbacks = u.shared.stack :: u.fallbacks := by
    unfold step
    dsimp only
    rw [held]
    exact ⟨rfl, rfl⟩
  rcases opened with ⟨slots, fallbacks⟩
  have begun := (u.step_shifts (.enterScope k)).framed framed
  have length : (u.shared.stack :: u.fallbacks).length = u.task.slots.length + 1 := by
    rw [List.length_cons, framed]
  rcases run_covered u.task.slots (u.shared.stack :: u.fallbacks) inside begun
    (by rw [slots, List.tail_cons]) (by rw [fallbacks]) length deep with ⟨below, given⟩
  intro v
  have ended : v.Framed := run_framed inside begun
  have uncovered : v.task.slots.tail = u.task.slots := by
    refine (below.eq_of_length ?_).symm
    rw [List.length_tail, last, Nat.add_sub_cancel]
  have waiting : v.fallbacks = u.shared.stack :: u.fallbacks := by
    refine (given.eq_of_length ?_).symm
    rw [length, ended, last]
  unfold step
  dsimp only
  rw [waiting]
  exact ⟨rfl, uncovered, rfl⟩

end TaskProgram

end CallProfiler
