import CallProfiler.Proofs.Stack.Frames
import CallProfiler.Proofs.Stack.Terms
import CallProfiler.Proofs.Tree.Overflow
import Mathlib.Algebra.BigOperators.Group.List.Basic

/-!
# Proofs.Stack.Overflow: a stack with more open calls than handles

A stack starts each call below the one before. The call that gets slot `2 ^ 32` gets the handle of the
root with it, and so the stack is back at its root, while the calls in between stay open and are no
longer on its path. What is said of stacks elsewhere assumes that their slots can be numbered; the
modules that say it come back to this one for a run where they cannot.

* `Descended` — the invariant of the way down: every slot is taken, and the root is as it was
* `Descended.start`, `Descended.descend` — one call more keeps it, and so do as many as have numbers
* `Descended.overrun` — the call after these is the root again
* `Descended.bench` — the same for the events of a bench
-/

namespace CallProfiler

variable {s : CallStack} {p : Profiler} {r : Recording} {rn : CallNode} {size : Nat}

/-! ## The way down -/

namespace Recording

/-- The innermost open call is a leaf far from the root, no slot is vacant, and no call has taken any
time yet. -/
structure Descended (r : Recording) (size : Nat) (rn : CallNode) : Prop where
  full : r.tree.vacant = []
  size : r.tree.slots.size = size
  top : r.tree.root = ⟨0, 0⟩
  root : r.tree.get? ⟨0, 0⟩ = some rn
  apart : r.current ≠ ⟨0, 0⟩
  innermost : ∃ signature start caller,
    r.tree.get? r.current = some (CallNode.blank.begun signature start (some caller))
  brief : ∀ h n, r.tree.get? h = some n → n.gross = 0

/-- The innermost open call is the root, though an open call has it for a child. -/
structure Overrun (r : Recording) (rn : CallNode) : Prop where
  top : r.tree.root = ⟨0, 0⟩
  current : r.current = ⟨0, 0⟩
  size : r.tree.slots.size = 2 ^ 32 + 1
  root : r.tree.get? ⟨0, 0⟩ = some rn
  caller : ∃ h n, h ≠ ⟨0, 0⟩ ∧ r.tree.get? h = some n ∧ n.children = [⟨0, 0⟩] ∧ n.closed = false
  brief : ∀ h n, r.tree.get? h = some n → n.gross = 0

end Recording

namespace CallTree

/-- A tree that has ended with its root, though one of its calls is still open and has the root for a
child. -/
structure Torn (t : CallTree) (rn : CallNode) : Prop where
  root : t.root = ⟨0, 0⟩
  size : t.slots.size = 2 ^ 32 + 1
  ended : t.get? ⟨0, 0⟩ = some rn
  caller : ∃ h n, t.get? h = some n ∧ n.children = [⟨0, 0⟩] ∧ n.closed = false ∧ n.gross = 0

/-- The slots of a tree can be looked through for a call that has taken time. -/
theorem brief_of_slots {t : CallTree}
    (brief : ∀ slot ∈ t.slots.toList, ∀ n ∈ slot.node, n.gross = 0) (h : NodeRef) (n : CallNode)
    (live : t.get? h = some n) : n.gross = 0 := by
  have slot := get?_eq_some_iff.mp live
  rw [← Array.getElem?_toList] at slot
  exact brief _ (List.mem_of_getElem? slot) n rfl

/-- Where no call takes any time, those below one do not either. -/
theorem children_brief {t : CallTree} (brief : ∀ h n, t.get? h = some n → n.gross = 0)
    (h : NodeRef) : ((t.children h).map (·.2.gross.toNat)).sum = 0 := by
  apply List.sum_eq_zero
  intro time mem
  rcases List.mem_map.mp mem with ⟨⟨c, cn⟩, child, rfl⟩
  unfold children at child
  cases live : t.get? h with
  | none =>
    rw [live] at child
    cases child
  | some n =>
    rw [live] at child
    rcases List.mem_filterMap.mp child with ⟨d, -, found⟩
    rcases Option.map_eq_some_iff.mp found with ⟨m, hm, same⟩
    cases same
    exact congrArg UInt64.toNat (brief c cn hm)

end CallTree

namespace CallStack

/-- A stack on its way down, and what it shares with others. -/
structure Descended (s : CallStack) (p : Profiler) (size : Nat) (rn : CallNode) : Prop where
  recording : ∃ r, s.recording = some r ∧ r.Descended size rn
  blank : p.pool.AllBlank

/-- A stack that has come back to its root from below. -/
structure Overrun (s : CallStack) (p : Profiler) (rn : CallNode) : Prop where
  recording : ∃ r, s.recording = some r ∧ r.Overrun rn
  blank : p.pool.AllBlank

/-- A stack of which all slots can be looked through is on its way down if it looks like that. -/
theorem descended_of_slots (recording : s.recording = some r) (signature : String) (start : Reading)
    (caller : NodeRef) (shape : r.tree.vacant = [] ∧ r.tree.slots.size = size ∧
      r.tree.root = ⟨0, 0⟩ ∧ r.tree.get? ⟨0, 0⟩ = some rn ∧ r.current ≠ ⟨0, 0⟩ ∧
      r.tree.get? r.current = some (CallNode.blank.begun signature start (some caller)) ∧
      (∀ slot ∈ r.tree.slots.toList, ∀ n ∈ slot.node, n.gross = 0) ∧
      ∀ n ∈ p.pool.free, n = .blank) : s.Descended p size rn := by
  rcases shape with ⟨full, size, top, root, apart, innermost, brief, blank⟩
  exact ⟨⟨r, recording, full, size, top, root, apart, ⟨signature, start, caller, innermost⟩,
    CallTree.brief_of_slots brief⟩, blank⟩

/-- A call that is started below a leaf takes a new slot. -/
theorem start_appended (recording : s.recording = some r) (full : r.tree.vacant = [])
    (blank : p.pool.AllBlank) {n : CallNode} (live : r.tree.get? r.current = some n)
    (signature : String) :
    ∃ t', (s.start p signature).1.recording = some ⟨t', r.tree.nextHandle⟩ ∧
      (s.start p signature).2.pool.AllBlank ∧
      r.tree.Appended r.current { n with children := n.children ++ [r.tree.nextHandle] }
        (CallNode.blank.begun signature p.now (some r.current)) t' := by
  rcases CallTree.openChild_full full blank live p.now signature with ⟨t', opened, appended⟩
  refine ⟨t', ?_, ?_, appended⟩
  · simp only [start, recording, opened]
  · simp only [start, recording, opened]
    exact blank.acquire_snd

theorem Descended.start (deep : s.Descended p size rn) (room : size < 2 ^ 32) (signature : String) :
    (s.start p signature).1.Descended (s.start p signature).2 (size + 1) rn := by
  rcases deep.recording with ⟨r, recording, way⟩
  rcases way.innermost with ⟨_, _, _, live⟩
  rcases start_appended recording way.full deep.blank live signature with ⟨t', next, blank, appended⟩
  have room : r.tree.slots.size < 2 ^ 32 := by rw [way.size]; exact room
  have fresh := CallTree.get?_nextHandle room
  have notRoot : r.tree.nextHandle ≠ ⟨0, 0⟩ := by
    intro same
    rw [same, way.root] at fresh
    cases fresh
  have apart : r.tree.nextHandle ≠ r.current := by
    intro same
    rw [same, live] at fresh
    cases fresh
  refine ⟨⟨_, next, ?_⟩, blank⟩
  exact {
    full := appended.full
    size := by rw [appended.size, way.size]
    top := appended.root.trans way.top
    root := by
      rw [appended.get?, if_neg way.apart.symm, if_neg fun taken => notRoot taken.1.symm, way.root]
    apart := notRoot
    innermost := ⟨signature, p.now, r.current, by
      rw [appended.get?, if_neg apart, if_pos ⟨rfl, room⟩]⟩
    brief := by
      intro h n hn
      rw [appended.get?] at hn
      split at hn
      · cases hn
        rfl
      split at hn
      · cases hn
        rfl
      · exact way.brief h n hn }

/-- A call without a number for its slot has the handle of the root. -/
theorem Descended.overrun (deep : s.Descended p (2 ^ 32) rn) (signature : String) :
    (s.start p signature).1.Overrun (s.start p signature).2 rn := by
  rcases deep.recording with ⟨r, recording, way⟩
  rcases way.innermost with ⟨_, _, _, live⟩
  rcases start_appended recording way.full deep.blank live signature with ⟨t', next, blank, appended⟩
  rw [CallTree.nextHandle_full way.size] at next appended
  have get := appended.get?_over (Nat.le_of_eq way.size.symm)
  refine ⟨⟨_, next, ?_⟩, blank⟩
  exact {
    top := appended.root.trans way.top
    current := rfl
    size := by rw [appended.size, way.size]
    root := by rw [get, if_neg way.apart.symm, way.root]
    caller := ⟨r.current, _, way.apart, by rw [get, if_pos rfl], rfl, rfl⟩
    brief := by
      intro h n hn
      rw [get] at hn
      split at hn
      · cases hn
        rfl
      · exact way.brief h n hn }

/-- Starts calls, each below the one before. -/
def descend (s : CallStack) (p : Profiler) : Nat → CallStack × Profiler
  | 0 => (s, p)
  | k + 1 => (s.start p "deeper").1.descend (s.start p "deeper").2 k

theorem Descended.descend (deep : s.Descended p size rn) (k : Nat) (room : size + k ≤ 2 ^ 32) :
    (s.descend p k).1.Descended (s.descend p k).2 (size + k) rn := by
  induction k generalizing s p size with
  | zero => exact deep
  | succ k ih =>
    have further := ih (deep.start (by omega) "deeper") (by omega)
    rw [Nat.add_assoc, Nat.add_comm 1 k] at further
    exact further

/-- The last call may as well be started after the others. -/
theorem descend_succ (s : CallStack) (p : Profiler) (k : Nat) :
    s.descend p (k + 1) = (s.descend p k).1.start (s.descend p k).2 "deeper" := by
  induction k generalizing s p with
  | zero => rfl
  | succ k ih => exact ih _ _

/-- With one call more than there are numbers for, the stack is back at its root. -/
theorem Descended.descend_over (deep : s.Descended p size rn) (k : Nat) (last : size + k = 2 ^ 32) :
    (s.descend p (k + 1)).1.Overrun (s.descend p (k + 1)).2 rn := by
  have further := deep.descend k (Nat.le_of_eq last)
  rw [last] at further
  rw [descend_succ]
  exact further.overrun "deeper"

theorem descend_goesOn (s : CallStack) (p : Profiler) (k : Nat) :
    GoesOn s p (s.descend p k).1 (s.descend p k).2 := by
  induction k generalizing s p with
  | zero => exact .refl s p
  | succ k ih => exact (s.start_goesOn p "deeper").trans (ih _ _)

/-- The root ends and hands the tree over, in which the caller of the last call is still open. -/
theorem Overrun.stop (overrun : s.Overrun p rn) (noParent : rn.parent = none) :
    ∃ tree, (s.stopWith p none).1 = some tree ∧ (s.stopWith p none).2.1.recording = none ∧
      tree.Torn (rn.closedAt p.now none) := by
  rcases overrun.recording with ⟨r, recording, way⟩
  have live : r.tree.get? r.current = some rn := by rw [way.current, way.root]
  have parent : r.tree.parent? r.current = none := by
    unfold CallTree.parent?
    rw [live, Option.bind_some, noParent]
  have get := CallTree.get?_update r.tree r.current
  rcases way.caller with ⟨h, n, apart, hn, children, isOpen⟩
  refine ⟨r.tree.update r.current fun _ => rn.closedAt p.now none, ?_, ?_, ?_⟩
  · simp only [stopWith, recording, parent, CallTree.close_root live noParent]
  · simp only [stopWith, recording, parent, CallTree.close_root live noParent]
  · exact {
      root := (CallTree.thinned_update r.tree _ _).root.trans way.top
      size := (CallTree.size_update r.tree _ _).trans way.size
      ended := by rw [get, if_pos way.current.symm, live, Option.map_some]
      caller := ⟨h, n, by rw [get, if_neg (by rw [way.current]; exact apart), hn], children, isOpen,
        way.brief h n hn⟩ }

/-- All that is left to close is the root. -/
theorem Overrun.closeRoot (overrun : s.Overrun p rn) (noParent : rn.parent = none) :
    ∃ tree, (s.closeRoot p).1 = some tree ∧ tree.Torn (rn.closedAt p.now none) := by
  rcases overrun.stop noParent with ⟨tree, stopped, -, torn⟩
  refine ⟨tree, ?_, torn⟩
  rcases overrun.recording with ⟨r, recording, -⟩
  have active : s.isActive = true := by
    unfold isActive
    rw [recording]
    rfl
  have depth : s.depth = r.tree.depth r.current + 1 := by
    unfold CallStack.depth
    rw [recording]
  rw [CallStack.closeRoot, depth, closeSteps, if_pos active]
  unfold CallStack.stop
  rcases ended : s.stopWith p none with ⟨result, left, q⟩
  rw [ended] at stopped
  cases stopped
  rfl

/-- Inside of a recording the end of a call hands no tree over. -/
theorem stopWith_inner (recording : s.recording = some r) {caller : NodeRef}
    (parent : r.tree.parent? r.current = some caller) (signature : Option String) :
    (s.stopWith p signature).1 = none := by
  simp only [stopWith, recording, parent]
  split
  · rfl
  · rfl
  · rename_i none
    cases none

theorem Descended.stop (deep : s.Descended p size rn) (signature : Option String) :
    (s.stopWith p signature).1 = none := by
  rcases deep.recording with ⟨r, recording, way⟩
  rcases way.innermost with ⟨_, _, caller, live⟩
  have parent : r.tree.parent? r.current = some caller := by
    rw [CallTree.parent?, live]
    rfl
  exact stopWith_inner recording parent signature

end CallStack

/-! ## Runs -/

section Runs

variable {σ ι α κ : Type} {step : σ → ι → α × σ}

/-- The state after a list of inputs. -/
def after (step : σ → ι → α × σ) (s : σ) (inputs : List ι) : σ :=
  inputs.foldl (fun s i => (step s i).2) s

theorem after_append (s : σ) (inputs later : List ι) :
    after step s (inputs ++ later) = after step (after step s inputs) later :=
  List.foldl_append

/-- The last answer is that to the last input, in the state that the others lead to. -/
theorem getLast?_answers (s : σ) (inputs : List ι) (last : ι) :
    (answers step s (inputs ++ [last])).getLast? = some (step (after step s inputs) last).1 := by
  induction inputs generalizing s with
  | nil => rfl
  | cons i rest ih =>
    show ((step s i).1 :: answers step (step s i).2 (rest ++ [last])).getLast? = _
    rw [List.getLast?_cons, ih]
    rfl

/-- The states of a run in two parts are those of its parts. -/
theorem mem_states_append {s v : σ} {inputs later : List ι}
    (visited : v ∈ states step s (inputs ++ later)) :
    v ∈ states step s inputs ∨ v ∈ states step (after step s inputs) later := by
  induction inputs generalizing s with
  | nil => exact .inr visited
  | cons i rest ih =>
    rcases List.mem_cons.mp visited with here | later
    · exact .inl (List.mem_cons.mpr (.inl here))
    · exact (ih later).imp_left (List.mem_cons_of_mem _)

/-- Inputs that are spelt in another way. -/
theorem answers_map {step' : σ → κ → α × σ} {f : ι → κ} (same : ∀ s i, step' s (f i) = step s i)
    (s : σ) (inputs : List ι) : answers step' s (inputs.map f) = answers step s inputs := by
  induction inputs generalizing s with
  | nil => rfl
  | cons i rest ih => simp only [List.map_cons, answers, same, ih]

theorem states_map {step' : σ → κ → α × σ} {f : ι → κ} (same : ∀ s i, step' s (f i) = step s i)
    (s : σ) (inputs : List ι) : states step' s (inputs.map f) = states step s inputs := by
  induction inputs generalizing s with
  | nil => rfl
  | cons i rest ih => simp only [List.map_cons, states, same, ih]

end Runs

/-- Calls that are started one below the other on the first stack of a bench. -/
def deepening (k : Nat) : List StackEvent := List.replicate k (.on 0 (.start "deeper"))

namespace CallStack

/-- A stack that is alone on its bench. -/
def alone (s : CallStack) (p : Profiler) (k : Nat) : Bench Profiler CallStack :=
  ⟨(s.descend p k).2, [(s.descend p k).1]⟩

theorem after_deepening (s : CallStack) (p : Profiler) (k : Nat) :
    after system.step ⟨p, [s]⟩ (deepening k) = s.alone p k := by
  induction k generalizing s p with
  | zero => rfl
  | succ k ih => exact ih (s.start p "deeper").1 (s.start p "deeper").2

theorem mem_states_deepening {v : Bench Profiler CallStack} {k : Nat}
    (visited : v ∈ states system.step ⟨p, [s]⟩ (deepening k)) : ∃ j ≤ k, v = s.alone p j := by
  induction k generalizing s p with
  | zero => exact ⟨0, Nat.le_refl 0, List.mem_singleton.mp visited⟩
  | succ k ih =>
    rcases List.mem_cons.mp visited with here | later
    · exact ⟨0, Nat.zero_le _, here⟩
    · rcases ih later with ⟨j, le, same⟩
      exact ⟨j + 1, Nat.succ_le_succ le, same⟩

/-- No call takes any time on the way down, and none on the way back. -/
theorem Descended.brief (deep : s.Descended p size rn) {k : Nat} (last : size + k = 2 ^ 32)
    {j : Nat} (le : j ≤ k + 1) (r : Recording) (recording : (s.descend p j).1.recording = some r)
    (h : NodeRef) (n : CallNode) (live : r.tree.get? h = some n) : n.gross = 0 := by
  rcases Nat.le_succ_iff.mp le with le | same
  · rcases (deep.descend j (by omega)).recording with ⟨r', recording', way⟩
    cases recording.symm.trans recording'
    exact way.brief h n live
  · rw [same] at recording
    rcases (deep.descend_over k last).recording with ⟨r', recording', way⟩
    cases recording.symm.trans recording'
    exact way.brief h n live

/-- A session that goes down from the state that a beginning leads to, and then ends one call. -/
theorem mem_states_deepened {w v : Bench Profiler CallStack} {beginning : List StackEvent}
    (start : after system.step w beginning = ⟨p, [s]⟩) {k : Nat} (signature : Option String)
    (visited : v ∈ states system.step w
      (beginning ++ (deepening k ++ [.on 0 (.stop signature)]))) :
    v ∈ states system.step w beginning ∨ (∃ j ≤ k, v = s.alone p j) ∨
      v = ⟨((s.descend p k).1.stopWith (s.descend p k).2 signature).2.2,
        [((s.descend p k).1.stopWith (s.descend p k).2 signature).2.1]⟩ := by
  rcases mem_states_append visited with begun | visited
  · exact .inl begun
  rw [start] at visited
  rcases mem_states_append visited with deepened | visited
  · exact .inr (.inl (mem_states_deepening deepened))
  rw [after_deepening] at visited
  rcases List.mem_cons.mp visited with before | ended
  · exact .inr (.inl ⟨k, Nat.le_refl k, before⟩)
  · refine .inr (.inr ((List.mem_singleton.mp ended).trans ?_))
    show (Bench.mk (apply _ _ (.stop signature)).2.2 [(apply _ _ (.stop signature)).2.1]) = _
    rw [apply_stop]
    rfl

/-- The last answer of such a session. -/
theorem getLast?_answers_deepened {w : Bench Profiler CallStack} {beginning : List StackEvent}
    (start : after system.step w beginning = ⟨p, [s]⟩) (k : Nat) (signature : Option String) :
    (answers system.step w (beginning ++ (deepening k ++ [.on 0 (.stop signature)]))).getLast? =
      some (match ((s.descend p k).1.stopWith (s.descend p k).2 signature).1 with
        | some tree => .finished tree
        | none => .silent) := by
  have state : after system.step w (beginning ++ deepening k) = s.alone p k := by
    rw [after_append, start, after_deepening]
  rw [← List.append_assoc, getLast?_answers, state]
  show some (apply _ _ (.stop signature)).1 = _
  rw [apply_stop]
  rfl

end CallStack

end CallProfiler
