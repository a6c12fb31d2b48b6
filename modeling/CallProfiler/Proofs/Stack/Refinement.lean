import CallProfiler.Proofs.Stack.Spelling

/-!
# Proofs.Stack.Refinement: call stacks behave like lists of open calls

* `CallStack.Matches` — the simulation relation: an inactive stack matches an empty list, and a stack
  that records matches the frames that its tree spells
* `Matches.apply` — every operation answers like the reference and keeps the relation
* `call_stacks_refine_frames` — so every run of several stacks answers and reads like the reference, and
  no operation ever finds its node gone
-/

namespace CallProfiler

/-! ## The assumptions -/

/-- A tree whose slots can be numbered, and where the children of no node take `2 ^ 64` nanoseconds
together. -/
structure CallTree.Bounded (t : CallTree) : Prop where
  slots : t.slots.size < 2 ^ 32
  times : ∀ h, ((t.children h).map (·.2.gross.toNat)).sum < 2 ^ 64

/-- A stack whose recording, if it has one, is bounded. -/
def CallStack.Bounded (s : CallStack) : Prop := ∀ r, s.recording = some r → r.tree.Bounded

/-- Only the handles of nodes have to be looked at. -/
theorem CallTree.bounded_iff (t : CallTree) : t.Bounded ↔ t.slots.size < 2 ^ 32 ∧
    ∀ h ∈ t.liveHandles, ((t.children h).map (·.2.gross.toNat)).sum < 2 ^ 64 := by
  constructor
  · intro bounded
    exact ⟨bounded.slots, fun h _ => bounded.times h⟩
  · intro bounded
    rcases bounded with ⟨slots, times⟩
    refine ⟨slots, ?_⟩
    intro h
    cases live : t.get? h with
    | none =>
      have none : t.children h = [] := by
        unfold CallTree.children
        rw [live]
      rw [none]
      decide
    | some n => exact times h (CallTree.mem_liveHandles_of_live ⟨n, live⟩)

instance (t : CallTree) : Decidable t.Bounded := decidable_of_iff _ t.bounded_iff.symm

instance (s : CallStack) : Decidable s.Bounded :=
  decidable_of_iff (∀ r ∈ s.recording.toList, r.tree.Bounded) (by simp [CallStack.Bounded])

namespace CallTree

variable {t : CallTree} {x : NodeRef} {n : CallNode} {inner : Option NodeRef} {f : Frame}
  {fs : List Frame} {kids : List NodeRef} {calls : List Snapshot}

/-- The copies of some nodes take as long as the nodes. -/
theorem time_of_copies (ok : t.WellFormed) (copies : kids.map t.snapshotFrom = calls.map some) :
    ((kids.filterMap fun c => (t.get? c).map (c, ·)).map (·.2.gross.toNat)).sum =
      Snapshot.childTime calls := by
  induction kids generalizing calls with
  | nil =>
    have none : calls = [] := by simpa using copies.symm
    rw [none]
    rfl
  | cons k kids ih =>
    cases calls with
    | nil => exact absurd copies (by simp)
    | cons call calls =>
      rw [List.map_cons, List.map_cons] at copies
      rcases List.cons_eq_cons.mp copies with ⟨first, copies⟩
      have rest := ih copies
      rcases live_of_snapshot first with ⟨m, hm⟩
      have gross : call.gross = m.gross := by
        rw [snapshotFrom_eq ok hm] at first
        rw [← Option.some.inj first]
        rfl
      simp only [List.filterMap_cons, hm, Option.map_some, List.map_cons, List.sum_cons, rest,
        Snapshot.childTime, gross]

/-- The bound on a tree, read off the frame that a node holds. -/
theorem Holds.fits (ok : t.WellFormed) (holds : t.Holds x n none f) (bounded : t.Bounded) :
    Snapshot.childTime f.children < 2 ^ 64 := by
  have times := bounded.times x
  unfold CallTree.children at times
  rw [holds.live] at times
  rw [← time_of_copies ok holds.finished.copies]
  exact times

end CallTree

/-! ## The simulation relation -/

/-- A stack and its reference. -/
inductive CallStack.Matches : CallStack → FrameStack → Prop where
  | inactive (minimum : UInt64) : Matches ⟨none, minimum⟩ ⟨[], minimum⟩
  | active {tree : CallTree} {current : NodeRef} {fs : List Frame} (minimum : UInt64) :
      tree.WellFormed → tree.Spells none current fs →
      Matches ⟨some ⟨tree, current⟩, minimum⟩ ⟨fs, minimum⟩

/-- What the stacks share, and what their references share. -/
structure Profiler.Matches (p : Profiler) (c : FrameClock) : Prop where
  now : p.now = c.now
  threshold : p.threshold = c.threshold
  blank : p.pool.AllBlank

/-- A finished tree and its reference. -/
structure CallTree.Finishes (t : CallTree) (copy : Snapshot) : Prop where
  wellFormed : t.WellFormed
  snapshot : t.snapshot = some copy
  ended : ∀ h n, t.get? h = some n → n.closed = true

namespace CallTree

variable {t : CallTree} {x : NodeRef} {n : CallNode} {inner : Option NodeRef} {f : Frame}
  {fs : List Frame}

/-! ## Readings -/

/-- There is one frame for each open call. -/
theorem Spells.depth (ok : t.WellFormed) (sp : t.Spells inner x fs) : t.depth x + 1 = fs.length := by
  unfold CallTree.depth
  induction sp with
  | root holds parent =>
    rw [(ok.toLinked.parent_none_iff holds.live).mp parent, ancestors_root ok]
    rfl
  | up holds parent _ ih =>
    rw [ancestors_cons ok holds.live parent, List.length_cons, ih, List.length_cons]

end CallTree

/-- A stack reads like the frames that it matches. -/
theorem CallStack.Matches.reading {s : CallStack} {f : FrameStack} (rel : s.Matches f) :
    s.reading = f.reading := by
  cases rel with
  | inactive minimum => rfl
  | @active tree current fs minimum ok sp =>
    have depth := sp.depth ok
    cases sp with
    | @root _ _ n f holds parent =>
      have isRoot := (ok.toLinked.parent_none_iff holds.live).mp parent
      simp only [CallStack.reading, CallStack.state, CallStack.depth, CallStack.currentSignature,
        isRoot, FrameStack.reading, if_true, Option.bind_some, List.head?_cons, Option.map_some]
      rw [← isRoot, depth, holds.live, Option.map_some, holds.signature]
    | @up _ _ p n f fs holds parent above =>
      -- a node with a parent is not the root, so the stack reads as nested
      have notRoot : current ≠ tree.root := ok.toLinked.ne_root holds.live parent
      cases fs with
      | nil => cases above
      | cons g fs =>
        simp only [CallStack.reading, CallStack.state, CallStack.depth,
          CallStack.currentSignature, notRoot, FrameStack.reading, if_false, Option.bind_some,
          List.head?_cons, Option.map_some]
        rw [depth, holds.live, Option.map_some, holds.signature]

/-! ## Operations -/

/-- How the tree of a stack can change in one operation. -/
inductive CallStack.Grown : CallStack → CallStack → Prop where
  | idle {s s' : CallStack} : s'.recording = none → Grown s s'
  | begun {s s' : CallStack} {r : Recording} : s.recording = none → s'.recording = some r →
      r.tree.slots.size = 1 → Grown s s'
  | evolved {s s' : CallStack} {r r' : Recording} : s.recording = some r → s'.recording = some r' →
      CallTree.Evolved r.tree r'.tree → Grown s s'

theorem CallStack.Grown.same {current : NodeRef} {minimum : UInt64} (tree : CallTree) :
    Grown ⟨some ⟨tree, current⟩, minimum⟩ ⟨some ⟨tree, current⟩, minimum⟩ :=
  .evolved rfl rfl (CallTree.Thinned.refl tree).evolved

/-- What an operation on a stack returns, and what its reference returns. -/
structure Refines (s : CallStack) (a : StackAnswer CallTree × CallStack × Profiler)
    (b : StackAnswer Snapshot × FrameStack × FrameClock) : Prop where
  answer : StackAnswer.Agree CallTree.Finishes a.1 b.1
  stack : a.2.1.Matches b.2.1
  shared : a.2.2.Matches b.2.2
  growth : s.Grown a.2.1

namespace CallStack

variable {tree : CallTree} {current : NodeRef} {minimum : UInt64} {p : Profiler} {c : FrameClock}
  {f : Frame} {fs : List Frame}

/-- An idle stack begins to record with one frame. -/
theorem refines_activate (shared : p.Matches c) (minimum : UInt64) (signature : String) :
    Refines ⟨none, minimum⟩
      (apply p ⟨none, minimum⟩ (.activate signature))
      (FrameStack.apply c ⟨[], minimum⟩ (.activate signature)) := by
  have ok := CallTree.wellFormed_begin shared.blank p.now signature
  have sp := CallTree.spells_begin shared.blank p.now signature
  rcases CallTree.begin_spec shared.blank p.now signature with ⟨tree, blank⟩
  have one : (CallTree.begin p.pool p.now signature).1.slots.size = 1 := by
    rw [tree]
    rfl
  refine ⟨.begun, ?_, ⟨shared.now, shared.threshold, blank⟩, ?_⟩
  · rw [shared.now] at sp ok
    show Matches ⟨some ⟨_, _⟩, p.threshold⟩ ⟨[⟨signature, c.now, []⟩], c.threshold⟩
    rw [shared.now, shared.threshold]
    exact .active c.threshold ok sp
  · show Grown _ ⟨some ⟨(CallTree.begin p.pool p.now signature).1, _⟩, _⟩
    exact .begun rfl rfl one

/-- An active stack refuses to begin, and names its innermost call. -/
theorem refines_refused (shared : p.Matches c) (ok : tree.WellFormed)
    (sp : tree.Spells none current (f :: fs)) (signature : String) :
    Refines ⟨some ⟨tree, current⟩, minimum⟩
      (apply p ⟨some ⟨tree, current⟩, minimum⟩ (.activate signature))
      (FrameStack.apply c ⟨f :: fs, minimum⟩ (.activate signature)) := by
  obtain ⟨n, holds⟩ := sp.holds
  have innermost : (currentSignature ⟨some ⟨tree, current⟩, minimum⟩).getD "" = f.signature := by
    simp only [currentSignature, Option.bind_some, holds.live, Option.map_some, holds.signature,
      Option.getD_some]
  refine ⟨?_, .active minimum ok sp, shared, .same tree⟩
  show StackAnswer.Agree _ (.refused (.alreadyActive _)) (.refused (.alreadyActive _))
  rw [innermost]
  exact .refused _

/-- A start is a new frame. -/
theorem refines_start (shared : p.Matches c) (ok : tree.WellFormed)
    (sp : tree.Spells none current (f :: fs)) (room : tree.slots.size < 2 ^ 32)
    (signature : String) :
    Refines ⟨some ⟨tree, current⟩, minimum⟩
      (apply p ⟨some ⟨tree, current⟩, minimum⟩ (.start signature))
      (FrameStack.apply c ⟨f :: fs, minimum⟩ (.start signature)) := by
  obtain ⟨n, holds⟩ := sp.holds
  rcases CallTree.openChild_live ok room shared.blank holds.live p.now signature with
    ⟨child, tree', eq, graft⟩
  have ok' := graft.wellFormed ok holds.live rfl rfl rfl rfl
  have next := sp.openChild ok ok' holds.live graft
  rw [shared.now] at next
  have result : apply p ⟨some ⟨tree, current⟩, minimum⟩ (.start signature) =
      (.silent, ⟨some ⟨tree', child⟩, minimum⟩, { p with pool := p.pool.acquire.2 }) := by
    simp only [apply, start, eq]
  rw [result]
  exact ⟨.silent, .active minimum ok' next, ⟨shared.now, shared.threshold, shared.blank.acquire_snd⟩,
    .evolved rfl rfl graft.evolved⟩

/-- A measured call is kept by the innermost frame, or dropped by it. -/
theorem refines_io (shared : p.Matches c) (ok : tree.WellFormed)
    (sp : tree.Spells none current (f :: fs)) (room : tree.slots.size < 2 ^ 32)
    (description : String) (duration : UInt64) :
    Refines ⟨some ⟨tree, current⟩, minimum⟩
      (apply p ⟨some ⟨tree, current⟩, minimum⟩ (.io description duration))
      (FrameStack.apply c ⟨f :: fs, minimum⟩ (.io description duration)) := by
  by_cases fast : duration < minimum
  · simp only [apply, addIoCall, FrameStack.apply, fast, if_true]
    exact ⟨.silent, .active minimum ok sp, shared, .same tree⟩
  · rcases sp.holds with ⟨n, holds⟩
    rcases CallTree.addIoCall_live ok room shared.blank holds.live p.now description duration with
      ⟨child, tree', eq, graft⟩
    have ok' := graft.wellFormed ok holds.live rfl rfl rfl rfl
    have next := sp.addLeaf ok ok' holds.live graft
    simp only [apply, addIoCall, FrameStack.apply, fast, if_false, eq]
    exact ⟨.silent, .active minimum ok' next,
      ⟨shared.now, shared.threshold, shared.blank.acquire_snd⟩, .evolved rfl rfl graft.evolved⟩

/-- A change of name is one of the innermost frame. -/
theorem refines_rename (shared : p.Matches c) (ok : tree.WellFormed)
    (sp : tree.Spells none current (f :: fs)) (signature : String) :
    Refines ⟨some ⟨tree, current⟩, minimum⟩
      (apply p ⟨some ⟨tree, current⟩, minimum⟩ (.rename signature))
      (FrameStack.apply c ⟨f :: fs, minimum⟩ (.rename signature)) := by
  obtain ⟨n, holds⟩ := sp.holds
  have ok' : (tree.update current ({ · with signature := signature })).WellFormed :=
    ok.update fun m _ => ⟨rfl, rfl⟩
  have next := sp.rename ok signature
  simp only [apply, setCurrentSignature, CallTree.setSignature_live holds.live, FrameStack.apply]
  exact ⟨.renamed, .active minimum ok' next, shared,
    .evolved rfl rfl (CallTree.thinned_update tree current _).evolved⟩

/-- The stop of the outermost call hands the finished tree over. -/
theorem refines_stop_root (shared : p.Matches c) (ok : tree.WellFormed)
    (sp : tree.Spells none current [f]) (fits : Snapshot.childTime f.children < 2 ^ 64)
    (signature : Option String) :
    Refines ⟨some ⟨tree, current⟩, minimum⟩
      (apply p ⟨some ⟨tree, current⟩, minimum⟩ (.stop signature))
      (FrameStack.apply c ⟨[f], minimum⟩ (.stop signature)) := by
  rcases sp.outermost with ⟨n, holds, parent⟩
  rcases holds.closeRoot ok parent p.now signature fits with ⟨snapshot, ended⟩
  have ok' := (ok.close shared.blank p.now current signature minimum).1
  have eq : tree.close p.pool p.now current signature minimum = _ :=
    CallTree.close_root holds.live parent signature minimum
  rw [eq] at ok'
  have above : tree.parent? current = none := by
    simp only [CallTree.parent?, holds.live, Option.bind_some, parent]
  simp only [apply, stopWith, above, eq, FrameStack.apply]
  refine ⟨.finished ⟨ok', ?_, ended⟩, .inactive minimum,
    ⟨shared.now, shared.threshold, shared.blank⟩, .idle rfl⟩
  rw [← shared.now]
  exact snapshot

/-- The stop of an inner call leaves it with the call around it, or drops it. -/
theorem refines_stop_inner {g : Frame} (shared : p.Matches c) (ok : tree.WellFormed)
    (sp : tree.Spells none current (f :: g :: fs))
    (fits : Snapshot.childTime f.children < 2 ^ 64) (signature : Option String) :
    Refines ⟨some ⟨tree, current⟩, minimum⟩
      (apply p ⟨some ⟨tree, current⟩, minimum⟩ (.stop signature))
      (FrameStack.apply c ⟨f :: g :: fs, minimum⟩ (.stop signature)) := by
  rcases sp.nested with ⟨n, caller, holds, parent, above⟩
  rcases ok.close shared.blank p.now current signature minimum with ⟨ok', thin, blank⟩
  have outer : tree.parent? current = some caller := by
    simp only [CallTree.parent?, holds.live, Option.bind_some, parent]
  have gross : (f.finish c.now signature).gross = saturatingSub p.now n.start := by
    rw [shared.now, holds.start]
    rfl
  -- the tree and the reference compare the same gross time with the same threshold
  by_cases fast : saturatingSub p.now n.start < minimum
  · have eq : tree.close p.pool p.now current signature minimum = _ :=
      CallTree.close_pruned holds.live parent fast signature
    rw [eq] at ok' thin blank
    have next := above.closePruned ok holds p.pool p.now signature ok'
    simp only [apply, stopWith, outer, eq, FrameStack.apply, gross, fast, if_true]
    exact ⟨.silent, .active minimum ok' next, ⟨shared.now, shared.threshold, blank⟩,
      .evolved rfl rfl thin.evolved⟩
  · have eq : tree.close p.pool p.now current signature minimum = _ :=
      CallTree.close_kept ok.toLinked holds.live parent fast signature
    rw [eq] at ok' thin blank
    have next := above.closeKept ok holds p.now signature fits ok'
    rw [shared.now] at next
    simp only [apply, stopWith, outer, eq, FrameStack.apply, gross, fast, if_false]
    refine ⟨.silent, ?_, ⟨shared.now, shared.threshold, blank⟩, .evolved rfl rfl thin.evolved⟩
    rw [shared.now] at ok' ⊢
    exact .active minimum ok' next

/-- A recording that is given up leaves no frames. -/
theorem refines_deactivate (shared : p.Matches c) {s : CallStack} {r : FrameStack}
    (rel : s.Matches r) : Refines s (apply p s .deactivate) (FrameStack.apply c r .deactivate) := by
  cases rel with
  | inactive minimum => exact ⟨.silent, .inactive minimum, shared, .idle rfl⟩
  | active minimum ok sp =>
    exact ⟨.silent, .inactive minimum,
      ⟨shared.now, shared.threshold, CallTree.allBlank_recycle _ shared.blank⟩, .idle rfl⟩

/-- Every operation on a stack answers like the reference. -/
theorem Matches.apply {s : CallStack} {r : FrameStack} (rel : s.Matches r) (shared : p.Matches c)
    (room : ∀ rec, s.recording = some rec → rec.tree.slots.size < 2 ^ 32)
    (fits : ∀ f, r.frames.head? = some f → Snapshot.childTime f.children < 2 ^ 64) (op : StackOp) :
    Refines s (s.apply p op) (r.apply c op) := by
  cases rel with
  | inactive minimum =>
    cases op with
    | activate signature => exact refines_activate shared minimum signature
    | start signature => exact ⟨.silent, .inactive minimum, shared, .idle rfl⟩
    | stop signature => exact ⟨.silent, .inactive minimum, shared, .idle rfl⟩
    | io description duration => exact ⟨.silent, .inactive minimum, shared, .idle rfl⟩
    | rename signature => exact ⟨.refused .notActive, .inactive minimum, shared, .idle rfl⟩
    | deactivate => exact refines_deactivate shared (.inactive minimum)
  | @active tree current fs minimum ok sp =>
    have room := room _ rfl
    cases fs with
    | nil => cases sp
    | cons f fs =>
      have small := fits f rfl
      cases op with
      | activate signature => exact refines_refused shared ok sp signature
      | start signature => exact refines_start shared ok sp room signature
      | stop signature =>
        cases fs with
        | nil => exact refines_stop_root shared ok sp small signature
        | cons g fs => exact refines_stop_inner shared ok sp small signature
      | io description duration => exact refines_io shared ok sp room description duration
      | rename signature => exact refines_rename shared ok sp signature
      | deactivate => exact refines_deactivate shared (.active minimum ok sp)

end CallStack

/-- The children of the innermost frame are nodes of the tree. -/
theorem CallStack.Matches.fits {s : CallStack} {r : FrameStack} (rel : s.Matches r)
    (bounded : s.Bounded) :
    ∀ f, r.frames.head? = some f → Snapshot.childTime f.children < 2 ^ 64 := by
  intro f first
  cases rel with
  | inactive minimum => exact absurd first (by simp)
  | @active tree current fs minimum ok sp =>
    cases fs with
    | nil => cases sp
    | cons g fs =>
      have same : g = f := by simpa using first
      obtain ⟨n, holds⟩ := sp.holds
      rw [← same]
      exact holds.fits ok (bounded _ rfl)

/-! ## Runs -/

/-- Call stacks are simulated by lists of open calls while their recordings are bounded. -/
theorem stacks_simulate_frames :
    CallStack.system.Simulates FrameStack.system Profiler.Matches CallStack.Matches
      CallTree.Finishes CallStack.Bounded where
  fresh := by
    intro p c shared
    show CallStack.Matches ⟨none, p.threshold⟩ ⟨[], c.threshold⟩
    rw [shared.threshold]
    exact .inactive c.threshold
  apply := by
    intro p c s r shared rel bounded op
    have refines := rel.apply shared (fun rec hrec => (bounded rec hrec).slots) (rel.fits bounded) op
    exact ⟨refines.answer, refines.stack, refines.shared⟩
  take := by
    intro s r rel
    refine ⟨rel, ?_⟩
    cases rel with
    | inactive minimum => exact .inactive minimum
    | active minimum ok sp => exact .inactive minimum
  clock := by
    intro p c shared step
    refine ⟨?_, shared.threshold, shared.blank⟩
    show step.apply p.now = step.apply c.now
    rw [shared.now]
  pool := fun shared e => ⟨shared.now, shared.threshold, shared.blank.after e⟩

/-- The innermost open call of a stack is there: no operation on it is refused as stale. -/
structure CallStack.InSync (p : Profiler) (s : CallStack) : Prop where
  openChild : ∀ r, s.recording = some r → ∀ signature, ∃ child,
    (r.tree.openChild p.pool p.now r.current signature).1 = .ok child
  close : ∀ r, s.recording = some r → ∀ signature minimum, ∃ outcome,
    (r.tree.close p.pool p.now r.current signature minimum).1 = .ok outcome
  addIoCall : ∀ r, s.recording = some r → ∀ description duration, ∃ child,
    (r.tree.addIoCall p.pool p.now r.current description duration).1 = .ok child
  setSignature : ∀ r, s.recording = some r → ∀ signature,
    (r.tree.setSignature r.current signature).1 = .ok ()

/-- A stack that matches frames finds all nodes that its operations look up. -/
theorem CallStack.Matches.inSync {s : CallStack} {f : FrameStack} (rel : s.Matches f) {p : Profiler}
    (blank : p.pool.AllBlank) (bounded : s.Bounded) : s.InSync p := by
  have found : ∀ r, s.recording = some r → r.tree.WellFormed ∧ ∃ n, r.tree.get? r.current = some n := by
    intro r hr
    cases rel with
    | inactive minimum => exact absurd hr (by simp)
    | active minimum ok sp =>
      have same := Option.some.inj hr
      rw [← same]
      exact ⟨ok, sp.live⟩
  refine ⟨?_, ?_, ?_, ?_⟩
  · intro r hr signature
    rcases found r hr with ⟨ok, n, live⟩
    rcases CallTree.openChild_live ok (bounded r hr).slots blank live p.now signature with
      ⟨child, tree, eq, _⟩
    exact ⟨child, by rw [eq]⟩
  · intro r hr signature minimum
    rcases found r hr with ⟨ok, n, live⟩
    exact CallTree.close_accepted ok.toLinked live p.pool p.now signature minimum
  · intro r hr description duration
    rcases found r hr with ⟨ok, n, live⟩
    rcases CallTree.addIoCall_live ok (bounded r hr).slots blank live p.now description duration with
      ⟨child, tree, eq, _⟩
    exact ⟨child, by rw [eq]⟩
  · intro r hr signature
    rcases found r hr with ⟨_, n, live⟩
    rw [CallTree.setSignature_live live]

/-- Call stacks answer and read like lists of open calls, and none of their operations finds its
node gone. Assumed: in every recording that the run goes through, the slots can be numbered in 32 bits,
and the times of the children of a node fit into 64 bits together. -/
theorem call_stacks_refine_frames (pooling : Bool) (before : List PoolEvent) (now : Reading)
    (threshold : UInt64) (events : List ProfilerEvent)
    (bounded : ∀ w ∈ states CallStack.system.stepAny
      (CallStack.system.bench ⟨now, .used pooling before, threshold⟩) events,
      ∀ s ∈ w.members, s.Bounded) :
    List.Forall₂ (StackAnswer.Agree fun tree copy => tree.snapshot = some copy)
      (answers CallStack.system.stepAny
        (CallStack.system.bench ⟨now, .used pooling before, threshold⟩) events)
      (answers FrameStack.system.stepAny (FrameStack.system.bench ⟨now, threshold⟩) events) ∧
    (states CallStack.system.stepAny
      (CallStack.system.bench ⟨now, .used pooling before, threshold⟩) events).map
        (fun w => w.members.map CallStack.reading) =
      (states FrameStack.system.stepAny (FrameStack.system.bench ⟨now, threshold⟩) events).map
        (fun w => w.members.map FrameStack.reading) ∧
    ∀ w ∈ states CallStack.system.stepAny
      (CallStack.system.bench ⟨now, .used pooling before, threshold⟩) events,
      ∀ s ∈ w.members, s.InSync w.shared := by
  have sim := stacks_simulate_frames
  have shared : Profiler.Matches ⟨now, .used pooling before, threshold⟩ ⟨now, threshold⟩ :=
    ⟨rfl, rfl, NodePool.allBlank_used pooling before⟩
  have limits : ∀ {p : Profiler} {c : FrameClock}, p.Matches c → ∀ nanos,
      Profiler.Matches (CallStack.system.threshold p nanos) (FrameStack.system.threshold c nanos) :=
    fun shared _ => ⟨shared.now, rfl, shared.blank⟩
  rcases related_runs (fun w w' e rel safe => sim.stepAny limits e rel safe) events
    (sim.bench shared) bounded with ⟨answered, visited⟩
  refine ⟨answered.imp fun _ _ agree => agree.imp fun finishes => finishes.snapshot, ?_, ?_⟩
  · apply StackSystem.forall₂_map_eq ?_ visited
    intro w w' rel
    exact StackSystem.forall₂_map_eq (fun same => same.reading) rel.2
  · intro w hw s hs
    rcases StackSystem.forall₂_exists visited hw with ⟨w', rel⟩
    rcases StackSystem.forall₂_exists rel.2 hs with ⟨f, same⟩
    exact same.inSync rel.1.blank (bounded w hw s hs)

/-- A session in which a call is pruned with the leaf below it, the recording moves to another stack,
the threshold changes and the clock goes back. -/
def prunedSession : List ProfilerEvent :=
  [.stack (.on 0 (.activate "job")), .stack (.clock (.advance 10)), .stack (.on 0 (.start "load")),
    .stack (.on 0 (.io "read" 5)), .stack (.clock (.advance 3)), .stack (.on 0 (.stop none)),
    .threshold 0, .stack (.take 0), .stack (.on 0 (.activate "next")),
    .stack (.on 1 (.activate "again")), .stack (.on 1 (.start "late")), .stack (.clock (.advance 9)),
    .stack (.on 1 (.stop (some "done"))), .stack (.clock (.set 2)), .stack (.on 1 (.stop none)),
    .stack (.on 0 (.rename "other")), .stack (.on 0 .deactivate), .stack (.on 0 (.rename "none"))]

/-- The session is bounded, so the result applies to it. -/
theorem pruned_session_refines_frames :
    (∀ w ∈ states CallStack.system.stepAny (CallStack.system.bench ⟨7, .used true [], 4⟩)
      prunedSession, ∀ s ∈ w.members, s.Bounded) ∧
    List.Forall₂ (StackAnswer.Agree fun tree copy => tree.snapshot = some copy)
      (answers CallStack.system.stepAny (CallStack.system.bench ⟨7, .used true [], 4⟩) prunedSession)
      (answers FrameStack.system.stepAny (FrameStack.system.bench ⟨7, 4⟩) prunedSession) := by
  have bounded : ∀ w ∈ states CallStack.system.stepAny
      (CallStack.system.bench ⟨7, .used true [], 4⟩) prunedSession, ∀ s ∈ w.members, s.Bounded := by
    decide +kernel
  exact ⟨bounded, (call_stacks_refine_frames true [] 7 4 prunedSession bounded).1⟩

end CallProfiler
