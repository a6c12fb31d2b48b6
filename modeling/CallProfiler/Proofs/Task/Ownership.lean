import CallProfiler.Proofs.Stack.PoolUsers
import CallProfiler.Proofs.Task.Refinement

/-!
# Proofs.Task.Ownership: a task program loses no stack

`TaskProgram.nodes` are the nodes of the stacks in the slots and of all that the program holds. What an
event does with nodes it does either to the stack in the innermost slot (`withStack_balanced`) or to
something that moves between the slots and the program, so the nodes in use and those in the pool
balance: `step_balanced`, then `run_balanced`.

`task_recording_is_direct` puts this together with the refinement of the reference and with what is
known of scopes.
-/

namespace CallProfiler

open NodePool

/-! ## What balances -/

namespace NodePool

variable {pool pool' : NodePool} {used used' part part' k : Nat}

/-- What balances for a part balances for the whole. -/
theorem Balanced.within (h : pool.Balanced part pool' part') (same : used' + part = used + part') :
    pool.Balanced used pool' used' where
  enabled := h.enabled
  nodes := by
    intro on
    obtain ⟨made, allocated, available⟩ := h.nodes on
    exact ⟨made, allocated, by omega⟩

/-- A node that is taken from the pool or given back is accounted for. -/
theorem Dealt.balanced (h : pool.Dealt used k pool' used') : pool.Balanced used pool' used' := by
  cases h with
  | took => exact balanced_acquire pool used
  | gave back => exact back.balanced

/-- Since no node was made, the nodes in use are those made less those that wait. -/
theorem Balanced.outstanding_of_new (h : pool.Balanced 0 pool' used') (on : pool.enabled = true)
    (made : pool.allocated = 0) (waiting : pool.available = 0) :
    pool'.outstanding = UInt64.ofNat used' := by
  obtain ⟨count, allocated, available⟩ := h.nodes on
  have total : count = used' + pool'.available := by omega
  unfold outstanding
  rw [allocated, made, UInt64.zero_add, total, UInt64.ofNat_add, UInt64.add_sub_cancel]

end NodePool

/-! ## What work on a stack leaves -/

namespace Party

variable {party : Party} {k : Nat} {s : CallStack}

theorem keep_nil (party : Party) : party.keep [] [] = party := by
  unfold keep
  rw [List.map_nil, List.append_nil, List.append_nil]

/-- To keep one lot and then another is to keep both. -/
theorem keep_keep (party : Party) (cursors cursors' : List CallStack) (trees trees' : List CallTree) :
    (party.keep cursors trees).keep cursors' trees' =
      party.keep (cursors ++ cursors') (trees ++ trees') := by
  simp only [keep, List.map_append, List.append_assoc]

/-- What is kept brings its own nodes. -/
theorem nodes_keep (party : Party) (cursors : List CallStack) (trees : List CallTree) :
    (party.keep cursors trees).nodes = party.nodes + (keep {} cursors trees).nodes := by
  simp only [nodes, keep, List.map_append, List.sum_append_nat, List.nil_append]
  omega

/-- What is kept may be counted if it could be counted before. -/
theorem Counted.keep (ok : party.Counted) {cursors : List CallStack} {trees : List CallTree}
    (given : (Party.keep {} cursors trees).Counted) : (party.keep cursors trees).Counted where
  cursors := by
    intro s hs
    rcases List.mem_append.mp hs with old | new
    · exact ok.cursors s old
    · exact given.cursors s new
  trees := by
    intro t ht
    rcases List.mem_append.mp ht with old | new
    · exact ok.trees t old
    · exact given.trees t new

theorem Counted.release (ok : party.Counted) (k : Nat) : (party.release k).Counted where
  cursors := fun s hs => ok.cursors s (List.mem_of_mem_eraseIdx hs)
  trees := ok.trees

theorem counted_empty : Counted {} where
  cursors := fun s hs => absurd hs (by simp)
  trees := fun t ht => absurd ht (by simp)

theorem nodes_keepCursor (party : Party) (s : CallStack) :
    (party.keep [s] []).nodes = party.nodes + s.nodes := by
  unfold keep
  rw [List.map_nil, List.append_nil]
  exact party.nodes_addCursor s

/-- A held stack that goes takes its nodes along. -/
theorem nodes_release (there : party.cursors[k]? = some s) :
    (party.release k).nodes + s.nodes = party.nodes := nodes_dropCursor there

theorem counted_cursor (counted : s.Counted) : (keep {} [s] []).Counted :=
  counted_empty.addCursor counted

/-- Whatever is done with held stacks and trees, the nodes in use follow the pool: a stack that is
dropped gives its nodes back, and everything else is a party's move. -/
theorem hold_accounts (ok : party.Counted) (p : Profiler) (move : HeldMove) :
    (party.hold p move).2.1.Counted ∧
    p.pool.Balanced party.nodes (party.hold p move).2.2.pool (party.hold p move).2.1.nodes := by
  have made (move : PartyMove) (own : move.discards = 0) :
      (party.make p move).2.1.Counted ∧
      p.pool.Balanced party.nodes (party.make p move).2.2.pool (party.make p move).2.1.nodes := by
    rcases make_dealt ok p move with ⟨counted, dealt⟩
    rw [own] at dealt
    exact ⟨counted, dealt.balanced⟩
  cases move with
  | newStack => exact made .newStack rfl
  | onStack k op => exact made (.onStack k op) rfl
  | take k => exact made (.take k) rfl
  | drop k =>
    unfold hold
    dsimp only
    cases there : party.cursors[k]? with
    | none => exact ⟨ok, .refl _ _⟩
    | some s =>
      have gave := CallStack.gave_drop (ok.cursors s (List.mem_of_getElem? there)) p
      have dropped := nodes_release there
      exact ⟨ok.release k, gave.balanced.within (by omega)⟩
  | onTree k change => exact made (.onTree k change) rfl
  | recycle k => exact made (.recycle k) rfl

end Party

namespace CallStack

variable {s s' : CallStack} {p p' : Profiler}

/-- Work on a stack: what it hands over may be held from then on. -/
structure Accounts (s : CallStack) (p : Profiler) (s' : CallStack) (p' : Profiler)
    (given : Party) : Prop where
  counted : s'.Counted
  handed : given.Counted
  balanced : p.pool.Balanced s.nodes p'.pool (s'.nodes + given.nodes)

/-- Each operation on a stack accounts for its nodes: those of a finished tree pass into other hands. -/
theorem accounts_apply (ok : s.Counted) (p : Profiler) (op : StackOp) :
    s.Accounts p (apply p s op).2.1 (apply p s op).2.2
      (Party.keep {} [] (apply p s op).1.tree?.toList) := by
  rcases apply_dealt ok p op with ⟨counted, finished, dealt⟩
  refine ⟨counted, ⟨fun s hs => absurd hs (by simp [Party.keep]), ?_⟩, ?_⟩
  · intro t ht
    refine finished t ?_
    simpa [Party.keep] using ht
  · have balanced := dealt.balanced
    have nodes : (Party.keep {} [] (apply p s op).1.tree?.toList).nodes =
        ((apply p s op).1.tree?.map CallTree.size).getD 0 := by
      cases (apply p s op).1.tree? with
      | none => rfl
      | some t => simp [Party.nodes, Party.keep, treeNodes]
    rw [nodes]
    exact balanced

/-- To stop a call accounts for its nodes: a finished tree is handed over with them. -/
theorem accounts_stop (ok : s.Counted) (p : Profiler) :
    s.Accounts p (s.stop p).2.1 (s.stop p).2.2 (Party.keep {} [] (s.stop p).1.toList) := by
  have done := accounts_apply ok p (.stop none)
  have tree : (apply p s (.stop none)).1.tree? = (s.stop p).1 := by
    rw [apply_stop]
    unfold stop
    cases (s.stopWith p none).1 <;> rfl
  rw [tree, apply_stop] at done
  exact done

/-- What is handed over first stays in use. -/
theorem Accounts.trans {s'' : CallStack} {p'' : Profiler} {given : Party}
    {cursors : List CallStack} {trees : List CallTree} (h : s.Accounts p s' p' given)
    (h' : s'.Accounts p' s'' p'' (Party.keep {} cursors trees)) :
    s.Accounts p s'' p'' (given.keep cursors trees) where
  counted := h'.counted
  handed := h.handed.keep h'.handed
  balanced := by
    have nodes := given.nodes_keep cursors trees
    exact h.balanced.trans (h'.balanced.within (by omega))

/-- A list of operations accounts for the nodes, by one operation after the other. -/
theorem accounts_applyAll (ok : s.Counted) (p : Profiler) (ops : List StackOp) :
    s.Accounts p (applyAll p s ops).2.1 (applyAll p s ops).2.2
      (Party.keep {} [] (StackAnswer.trees (applyAll p s ops).1)) := by
  induction ops generalizing s p with
  | nil => exact ⟨ok, Party.counted_empty, .refl _ _⟩
  | cons op rest ih =>
    have first := accounts_apply ok p op
    have both := first.trans (ih first.counted (apply p s op).2.2)
    have handed : StackAnswer.trees (applyAll p s (op :: rest)).1 =
        (apply p s op).1.tree?.toList ++
          StackAnswer.trees (applyAll (apply p s op).2.2 (apply p s op).2.1 rest).1 := by
      simp only [applyAll, StackAnswer.trees, List.filterMap_cons]
      cases (apply p s op).1.tree? <;> rfl
    rw [Party.keep_keep, ← handed] at both
    exact both

/-- What is finished by a guard goes back to the pool at once. -/
theorem accounts_leave (ok : s.Counted) (p : Profiler) (armed : Bool) :
    s.Accounts p (s.leave p armed).1 (s.leave p armed).2 {} := by
  cases armed with
  | false => exact ⟨ok, Party.counted_empty, .refl _ _⟩
  | true =>
    rcases stopWith_gave ok p none with ⟨counted, finished, gave⟩
    refine ⟨counted, Party.counted_empty, gave.balanced.trans ?_⟩
    show NodePool.Balanced _ _ (Profiler.recycle? _ (s.stopWith p none).1).pool _
    cases h : (s.stopWith p none).1 with
    | none => exact .refl _ _
    | some t =>
      exact (CallTree.gave_recycle (finished t h) _).balanced.within (by simp [Party.nodes]; rfl)

/-- A recording that moves to another stack takes its nodes along. -/
theorem accounts_take (ok : s.Counted) (p : Profiler) :
    s.Accounts p s.take.2 p (Party.keep {} [s.take.1] []) := by
  refine ⟨counted_of_idle rfl, Party.counted_cursor ok, ?_⟩
  have moved : (Party.keep {} [s.take.1] []).nodes = 0 + s.nodes := Party.nodes_keepCursor {} s
  rw [moved, Nat.zero_add]
  exact (NodePool.Balanced.refl p.pool s.nodes).within (by rw [nodes_of_idle rfl, Nat.zero_add])

end CallStack

/-! ## The nodes of a task program -/

/-- The nodes of the stack in a slot. -/
def slotNodes (slot : Option CallStack) : Nat := (slot.map CallStack.nodes).getD 0

namespace Task

variable {t : Task} {p : Profiler} {α : Type}

/-- The nodes of the stacks in the slots. -/
def nodes (t : Task) : Nat := (t.slots.map slotNodes).sum

/-- The trees of the stacks in the slots hold each vacant slot once. -/
def Counted (t : Task) : Prop := ∀ s, some s ∈ t.slots → s.Counted

/-- The stack of a task is in the first of the slots. -/
theorem slots_of_stack {s : CallStack} (here : t.stack? = some s) :
    t.slots = some s :: t.slots.tail := by
  unfold stack? at here
  rcases hs : t.slots with _ | ⟨slot, outer⟩
  · rw [hs] at here
    exact nomatch here
  · rw [hs] at here
    obtain rfl : slot = some s := here
    rfl

/-- What comes into the innermost slot takes the place of what was there. -/
theorem nodes_setSlot {old : Option CallStack} {outer : List (Option CallStack)}
    (slots : t.slots = old :: outer) (slot : Option CallStack) :
    (t.setSlot slot).nodes + slotNodes old = t.nodes + slotNodes slot := by
  unfold nodes setSlot
  rw [slots]
  simp only [List.map_cons, List.sum_cons]
  omega

/-- A stack that may be counted may come into the slot. -/
theorem Counted.setSlot (ok : t.Counted) {slot : Option CallStack}
    (counted : ∀ s, slot = some s → s.Counted) : (t.setSlot slot).Counted := by
  unfold Task.setSlot
  intro s hs
  rcases slots : t.slots with _ | ⟨old, outer⟩
  · rw [slots] at hs
    exact absurd hs (by simp)
  · rw [slots] at hs
    rcases List.mem_cons.mp hs with rfl | below
    · exact counted s rfl
    · exact ok s (slots ▸ List.mem_cons_of_mem _ below)

/-- The stack in the innermost slot may be counted. -/
theorem Counted.stack (ok : t.Counted) {s : CallStack} (here : t.stack? = some s) : s.Counted := by
  apply ok
  rw [slots_of_stack here]
  exact List.mem_cons_self ..

theorem Counted.tail (ok : t.Counted) : Counted { t with slots := t.slots.tail } :=
  fun s hs => ok s (List.mem_of_mem_tail hs)

/-- The nodes of the task are those below the innermost slot and those in it. -/
theorem nodes_tail (t : Task) :
    nodes { t with slots := t.slots.tail } + slotNodes t.stack? = t.nodes := by
  unfold nodes stack?
  cases t.slots with
  | nil => rfl
  | cons slot outer =>
    dsimp only [List.tail_cons, List.head?_cons, Option.join]
    simp [Nat.add_comm]

end Task

namespace TaskProgram

variable {u v : TaskProgram} {α : Type}

/-- The nodes of all stacks and trees that a task program has: in the slots, and in its hands. -/
def nodes (u : TaskProgram) : Nat := u.task.nodes + u.held.nodes

/-- The trees of a task program hold each vacant slot once, and the stacks that wait for scopes to end
record nothing. -/
structure Counted (u : TaskProgram) : Prop where
  slots : u.task.Counted
  held : u.held.Counted
  idle : ∀ s ∈ u.fallbacks, s.recording = none

/-- What an event does with the nodes. -/
structure Accounts (u v : TaskProgram) : Prop where
  counted : v.Counted
  balanced : u.shared.pool.Balanced u.nodes v.shared.pool v.nodes

theorem Counted.accounts_self (ok : u.Counted) : Accounts u u := ⟨ok, .refl _ _⟩

/-- Work on the stack in the innermost slot accounts for the nodes of all stacks. -/
theorem Counted.worked (ok : u.Counted) (f : CallStack → Profiler → α × CallStack × Profiler)
    (cursors : Option α → List CallStack) (trees : Option α → List CallTree)
    (accounts : ∀ s : CallStack, s.Counted → s.Accounts u.shared (f s u.shared).2.1 (f s u.shared).2.2
      (Party.keep {} (cursors (some (f s u.shared).1)) (trees (some (f s u.shared).1))))
    (nothing : cursors none = [] ∧ trees none = [])
    (task : v.task = (u.task.withStack u.shared f).2.1)
    (shared : v.shared = (u.task.withStack u.shared f).2.2)
    (held : v.held = u.held.keep (cursors (u.task.withStack u.shared f).1)
      (trees (u.task.withStack u.shared f).1))
    (fallbacks : v.fallbacks = u.fallbacks) : Accounts u v := by
  unfold Task.withStack at task shared held
  cases here : u.task.stack? with
  | none =>
    rw [here] at task shared held
    dsimp only at task shared held
    rw [nothing.1, nothing.2, Party.keep_nil] at held
    refine ⟨⟨task ▸ ok.slots, held ▸ ok.held, fallbacks ▸ ok.idle⟩, ?_⟩
    unfold nodes
    rw [task, held, shared]
    exact .refl _ _
  | some s =>
    rw [here] at task shared held
    dsimp only at task shared held
    have done := accounts s (ok.slots.stack here)
    have slots : (u.task.setSlot (some (f s u.shared).2.1)).nodes + s.nodes =
        u.task.nodes + (f s u.shared).2.1.nodes :=
      Task.nodes_setSlot (Task.slots_of_stack here) (some (f s u.shared).2.1)
    have more := u.held.nodes_keep (cursors (some (f s u.shared).1)) (trees (some (f s u.shared).1))
    replace task : v.task = u.task.setSlot (some (f s u.shared).2.1) := task
    refine ⟨⟨?_, held ▸ ok.held.keep done.handed, fallbacks ▸ ok.idle⟩, ?_⟩
    · rw [task]
      exact ok.slots.setSlot fun s' hs' => Option.some.inj hs' ▸ done.counted
    · rw [shared]
      refine done.balanced.within ?_
      unfold nodes
      rw [task, held]
      omega

/-- A held stack may be counted. -/
theorem Counted.held_cursor (ok : u.Counted) {k : Nat} {s : CallStack}
    (there : u.held.cursors[k]? = some s) : s.Counted :=
  ok.held.cursors s (List.mem_of_getElem? there)

/-- Stacks and trees have only moved to other places. -/
theorem Counted.moved (counted : v.Counted) (shared : v.shared = u.shared) (nodes : v.nodes = u.nodes) :
    Accounts u v := by
  refine ⟨counted, ?_⟩
  rw [shared, nodes]
  exact .refl _ _

/-- A stack was dropped. -/
theorem Counted.dropped {s : CallStack} (counted : v.Counted) (gone : s.Counted)
    (shared : v.shared = s.drop u.shared) (nodes : v.nodes + s.nodes = u.nodes) : Accounts u v := by
  refine ⟨counted, ?_⟩
  rw [shared]
  exact (CallStack.gave_drop gone u.shared).balanced.within (by omega)

/-- A stack that is taken out of the slot takes its nodes to the hands of the program. -/
theorem take_accounts (ok : u.Counted) : Accounts u (u.step .take).2 := by
  unfold step Task.takeStack
  dsimp only
  cases here : u.task.stack? with
  | none =>
    dsimp only
    rw [Option.toList_none, Party.keep_nil]
    exact ok.accounts_self
  | some s =>
    have counted := ok.slots.stack here
    have slots : (u.task.setSlot none).nodes + s.nodes = u.task.nodes + 0 :=
      Task.nodes_setSlot (Task.slots_of_stack here) none
    have more := u.held.nodes_keepCursor s
    have empty : (u.task.setSlot none).Counted := ok.slots.setSlot fun _ hs => nomatch hs
    refine Counted.moved ⟨empty, ok.held.keep (Party.counted_cursor counted), ok.idle⟩ rfl ?_
    unfold nodes
    dsimp only [Option.toList_some]
    omega

/-- A stack that is put back takes its nodes to the slot; one that is displaced, or that finds no slot,
gives them back to the pool. -/
theorem restore_accounts (ok : u.Counted) (k : Nat) : Accounts u (u.step (.restore k)).2 := by
  unfold step
  dsimp only
  cases there : u.held.cursors[k]? with
  | none => exact ok.accounts_self
  | some s =>
    have counted := ok.held_cursor there
    have released := Party.nodes_release there
    unfold Task.restoreStack
    cases slots : u.task.slots with
    | nil =>
      refine Counted.dropped ⟨ok.slots, ok.held.release k, ok.idle⟩ counted rfl ?_
      unfold nodes
      dsimp only
      omega
    | cons old outer =>
      have put : (u.task.setSlot (some s)).nodes + slotNodes old = u.task.nodes + s.nodes :=
        Task.nodes_setSlot slots (some s)
      have filled : (u.task.setSlot (some s)).Counted :=
        ok.slots.setSlot fun s' hs' => Option.some.inj hs' ▸ counted
      cases old with
      | none =>
        refine Counted.moved ⟨filled, ok.held.release k, ok.idle⟩ rfl ?_
        unfold nodes
        dsimp only [slotNodes, Option.map_none, Option.getD_none] at put ⊢
        omega
      | some old =>
        have displaced := ok.slots old (slots ▸ List.mem_cons_self ..)
        refine Counted.dropped ⟨filled, ok.held.release k, ok.idle⟩ displaced rfl ?_
        unfold nodes
        dsimp only [slotNodes, Option.map_some, Option.getD_some] at put ⊢
        omega

/-- A stack takes its nodes to the slot of the new scope, and the stack that waits for the end has none.
-/
theorem enterScope_accounts (ok : u.Counted) (k : Nat) : Accounts u (u.step (.enterScope k)).2 := by
  unfold step
  dsimp only
  cases there : u.held.cursors[k]? with
  | none => exact ok.accounts_self
  | some s =>
    have released := Party.nodes_release there
    have covered : (u.task.enterScope s).nodes = s.nodes + u.task.nodes := List.sum_cons
    refine Counted.moved ⟨?_, ok.held.release k, ?_⟩ rfl ?_
    · intro s' hs'
      rcases List.mem_cons.mp hs' with same | below
      · exact Option.some.inj same ▸ ok.held_cursor there
      · exact ok.slots s' below
    · intro s' hs'
      rcases List.mem_cons.mp hs' with rfl | below
      · rfl
      · exact ok.idle s' below
    · unfold nodes
      dsimp only
      omega

/-- A scope gives back the nodes of the stack in its slot; a stack that has waited has none. -/
theorem leaveScope_accounts (ok : u.Counted) : Accounts u (u.step .leaveScope).2 := by
  unfold step
  dsimp only
  cases waiting : u.fallbacks with
  | nil => exact ok.accounts_self
  | cons fallback outer =>
    have idle : ∀ s ∈ outer, s.recording = none := fun s hs =>
      ok.idle s (waiting ▸ List.mem_cons_of_mem _ hs)
    have uncovered := u.task.nodes_tail
    have given : (u.task.stack?.getD fallback).Counted ∧
        (u.task.stack?.getD fallback).nodes = slotNodes u.task.stack? := by
      cases here : u.task.stack? with
      | none =>
        have unused := ok.idle fallback (waiting ▸ List.mem_cons_self ..)
        exact ⟨CallStack.counted_of_idle unused, CallStack.nodes_of_idle unused⟩
      | some s => exact ⟨ok.slots.stack here, rfl⟩
    rcases given with ⟨counted, same⟩
    have more := u.held.nodes_keepCursor (u.task.stack?.getD fallback)
    refine Counted.moved ⟨ok.slots.tail, ok.held.keep (Party.counted_cursor counted), idle⟩ rfl ?_
    unfold nodes Task.leaveScope
    dsimp only
    omega

/-- A scope that is abandoned gives the nodes in its slot back to the pool. -/
theorem abandonScope_accounts (ok : u.Counted) : Accounts u (u.step .abandonScope).2 := by
  have uncovered := u.task.nodes_tail
  have counted : (u.step .abandonScope).2.Counted :=
    ⟨ok.slots.tail, ok.held, fun s hs => ok.idle s (List.mem_of_mem_tail hs)⟩
  have kept : (u.step .abandonScope).2.nodes = nodes { u with
      task := { u.task with slots := u.task.slots.tail } } := rfl
  cases here : u.task.stack? with
  | none =>
    have shared : (u.step .abandonScope).2.shared = u.shared := by
      unfold step
      dsimp only
      rw [here]
      rfl
    refine counted.moved shared ?_
    rw [kept]
    rw [here] at uncovered
    unfold nodes
    dsimp only [slotNodes, Option.map_none, Option.getD_none] at uncovered ⊢
    omega
  | some s =>
    have shared : (u.step .abandonScope).2.shared = s.drop u.shared := by
      unfold step
      dsimp only
      rw [here]
      rfl
    refine counted.dropped (ok.slots.stack here) shared ?_
    rw [kept]
    rw [here] at uncovered
    unfold nodes
    dsimp only [slotNodes, Option.map_some, Option.getD_some] at uncovered ⊢
    omega

/-- Every event accounts for the nodes of the stacks and trees that the program has. -/
theorem step_accounts (ok : u.Counted) (e : TaskEvent) : Accounts u (u.step e).2 := by
  cases e with
  | held move =>
    rcases Party.hold_accounts ok.held u.shared move with ⟨counted, balanced⟩
    refine ⟨⟨ok.slots, counted, ok.idle⟩, balanced.within ?_⟩
    show u.task.nodes + (u.held.hold u.shared move).2.1.nodes + u.held.nodes = _
    unfold nodes
    omega
  | clock step => exact ⟨⟨ok.slots, ok.held, ok.idle⟩, .refl _ _⟩
  | threshold nanos => exact ⟨⟨ok.slots, ok.held, ok.idle⟩, .refl _ _⟩
  | start signature | enter signature =>
    refine ok.worked (fun s p => ((), s.start p signature)) (fun _ => []) (fun _ => []) ?_ ⟨rfl, rfl⟩
      rfl rfl u.held.keep_nil.symm rfl
    intro s counted
    exact CallStack.accounts_apply counted u.shared (.start signature)
  | stop =>
    refine ok.worked CallStack.stop (fun _ => []) (fun tree => tree.join.toList) ?_ ⟨rfl, rfl⟩
      rfl rfl rfl rfl
    intro s counted
    exact CallStack.accounts_stop counted u.shared
  | io description duration =>
    refine ok.worked (fun s p => ((), s.addIoCall p description duration)) (fun _ => [])
      (fun _ => []) ?_ ⟨rfl, rfl⟩ rfl rfl u.held.keep_nil.symm rfl
    intro s counted
    exact CallStack.accounts_apply counted u.shared (.io description duration)
  | askActive => exact ok.accounts_self
  | withStack ops =>
    refine ok.worked (fun s p => s.applyAll p ops) (fun _ => [])
      (fun answers => StackAnswer.trees (answers.getD [])) ?_ ⟨rfl, rfl⟩ rfl rfl rfl rfl
    intro s counted
    exact CallStack.accounts_applyAll counted u.shared ops
  | detach =>
    refine ok.worked (fun s p => (s.take.1, s.take.2, p)) Option.toList (fun _ => []) ?_ ⟨rfl, rfl⟩
      rfl rfl rfl rfl
    intro s counted
    exact CallStack.accounts_take counted u.shared
  | leave guard =>
    unfold step
    dsimp only
    split
    · exact ok.accounts_self
    · next armed _ =>
      rw [Task.leave_eq]
      refine ok.worked (fun s p => ((), s.leave p armed)) (fun _ => []) (fun _ => []) ?_ ⟨rfl, rfl⟩
        rfl rfl u.held.keep_nil.symm rfl
      intro s counted
      exact CallStack.accounts_leave counted u.shared armed
  | take => exact take_accounts ok
  | restore k => exact restore_accounts ok k
  | enterScope k => exact enterScope_accounts ok k
  | leaveScope => exact leaveScope_accounts ok
  | abandonScope => exact abandonScope_accounts ok

/-- Along a run the nodes of the program are those that the pool has handed out and not got back. -/
theorem run_balanced {pool : NodePool} {used : Nat} (events : List TaskEvent) (ok : u.Counted)
    (balanced : pool.Balanced used u.shared.pool u.nodes) :
    ∀ v ∈ u.history events, v.Counted ∧ pool.Balanced used v.shared.pool v.nodes := by
  refine history_keeps (fun v e ⟨counted, sofar⟩ => ?_) events ⟨ok, balanced⟩
  have next := step_accounts counted e
  exact ⟨next.counted, sofar.trans next.balanced⟩

/-- At first there is nothing to count. -/
theorem counted_fresh (pooling : Bool) (now : Reading) (threshold : UInt64) :
    (fresh pooling now threshold).Counted where
  slots := fun s hs => absurd hs (by simp [fresh])
  held := Party.counted_empty
  idle := fun s hs => absurd hs (by simp [fresh])

end TaskProgram

/-! ## The result -/

namespace Direct

/-- All along the run the task program answers as the reference does and is the view of it, and the
numbers of the reference stay apart. -/
theorem history_view (events : List TaskEvent) {d : Direct} (ok : d.Owned) :
    answers TaskProgram.step d.view events = answers step d events ∧
    d.view.history events = (states step d events).map view ∧
    ∀ d' ∈ states step d events, d'.Owned := by
  induction events generalizing d with
  | nil =>
    refine ⟨rfl, rfl, fun d' hd' => ?_⟩
    obtain rfl := List.mem_singleton.mp hd'
    exact ok
  | cons e rest ih =>
    rcases ih (step_owned ok e) with ⟨same, seen, owned⟩
    refine ⟨?_, ?_, fun d' hd' => ?_⟩
    · unfold answers
      rw [step_view ok e, same]
    · show d.view :: (d.view.step e).2.history rest = d.view :: (states step (d.step e).2 rest).map view
      rw [step_view ok e]
      exact congrArg (d.view :: ·) seen
    · rcases List.mem_cons.mp hd' with rfl | later
      · exact ok
      · exact owned d' later

end Direct

open TaskProgram

/-- Whatever a task program does, in any order: it answers as its reference does, which applies the
methods of `CallStack` to the stack whose number is in the innermost slot and never moves a stack, and
in each place it has the stack that the reference has there. No stack of the reference is in two places,
and none that records is in no place. A scope that is left gives back the stack in its slot, or an
inactive one of the same profiler, and uncovers the slots around it as they were. With a pool that is
switched on, the nodes that have not come back to it are those of the stacks in the slots and of what
the program holds. -/
theorem task_recording_is_direct (pooling : Bool) (now : Reading) (threshold : UInt64)
    (events : List TaskEvent) :
    let start := TaskProgram.fresh pooling now threshold
    let direct := Direct.fresh pooling now threshold
    answers TaskProgram.step start events = answers Direct.step direct events ∧
    start.history events = (states Direct.step direct events).map Direct.view ∧
    (∀ d ∈ states Direct.step direct events, d.Owned) ∧
    (∀ u ∈ start.history events, ∀ (k : Nat) (s : CallStack), u.held.cursors[k]? = some s →
      ∀ inside : List TaskEvent,
        let opened := (u.step (.enterScope k)).2
        let last := opened.run inside
        (∀ v ∈ opened.history inside, u.task.slots.length < v.task.slots.length) →
        last.task.slots.length = u.task.slots.length + 1 →
        let yielded := last.task.stack?.getD u.shared.stack
        (last.step .leaveScope).1 = .stack (some yielded) ∧
        (last.step .leaveScope).2.task.slots = u.task.slots ∧
        (last.step .leaveScope).2.held = last.held.keep [yielded] []) ∧
    (pooling = true → ∀ u ∈ start.history events,
      u.shared.pool.outstanding = UInt64.ofNat u.nodes) := by
  intro start direct
  rcases Direct.history_view events (Direct.owned_fresh pooling now threshold) with
    ⟨same, seen, owned⟩
  refine ⟨same, seen, owned, fun u hu k s held inside => ?_, fun on u hu => ?_⟩
  · have atFirst : start.Framed := rfl
    have framed := history_keeps (fun v e => (v.step_shifts e).framed) events atFirst u hu
    exact leaves_as_entered framed held inside
  · rcases run_balanced events (counted_fresh pooling now threshold) (.refl _ _) u hu with
      ⟨-, balanced⟩
    exact balanced.outstanding_of_new on rfl rfl

/-- What happens in the outer scope of a messy task: a stack is taken twice, calls are lost while there
is none, another stack comes to the slot, an inner scope ends with an empty slot, a guard ends a call of
a stack on which it was not made, and the first stack displaces that one while it records. -/
def messyScope : List TaskEvent :=
  [.enter "outer", .take, .take, .io "lost" 5, .restore 0, .withStack [.activate "other"], .detach,
    .enterScope 1, .start "inner", .take, .leaveScope, .restore 1, .leave 0, .start "late", .restore 0]

/-- Two stacks and a scope, with a stack that is put back outside of it. -/
def messyTask : List TaskEvent :=
  [.held .newStack, .held .newStack, .held (.onStack 0 (.activate "root"))] ++
    .enterScope 0 :: messyScope ++ [.leaveScope, .stop, .restore 0]

/-- The task before its first scope, with two stacks of which one records. -/
def beforeMess : TaskProgram :=
  (fresh true 0 0).run [.held .newStack, .held .newStack, .held (.onStack 0 (.activate "root"))]

/-- The task at the end of that scope. -/
def afterMess : TaskProgram := (beforeMess.step (.enterScope 0)).2.run messyScope

theorem messy_task_is_direct :
    answers TaskProgram.step (fresh true 0 0) messyTask =
      answers Direct.step (.fresh true 0 0) messyTask ∧
    afterMess.task.stack?.map CallStack.nodes = some 2 ∧
    (afterMess.step .leaveScope).2.task.slots = beforeMess.task.slots ∧
    ((fresh true 0 0).run messyTask).nodes = 2 ∧
    ((fresh true 0 0).run messyTask).shared.pool.outstanding = 2 := by
  rcases task_recording_is_direct true 0 0 messyTask with ⟨same, -, -, scopes, pooled⟩
  have before : beforeMess ∈ (fresh true 0 0).history messyTask := .tail _ (.tail _ (.tail _ (.head _)))
  obtain ⟨s, held⟩ : ∃ s, beforeMess.held.cursors[0]? = some s :=
    Option.isSome_iff_exists.mp (by decide +kernel)
  have left : (afterMess.step .leaveScope).1 = _ ∧
      (afterMess.step .leaveScope).2.task.slots = beforeMess.task.slots ∧
      (afterMess.step .leaveScope).2.held = _ :=
    scopes beforeMess before 0 s held messyScope (by decide +kernel) (by decide +kernel)
  have nodes : ((fresh true 0 0).run messyTask).nodes = 2 := by decide +kernel
  refine ⟨same, by decide +kernel, left.2.1, nodes, ?_⟩
  rw [pooled rfl _ (run_mem_history _ messyTask), nodes]
  rfl

end CallProfiler
