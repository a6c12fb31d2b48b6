import CallProfiler.Proofs.Stack.Overflow
import CallProfiler.Proofs.Stack.Refinement

/-!
# Proofs.Stack.Pruning: pruning while recording and trimming afterwards

A recording with a threshold drops fast calls as they end. A recording without one keeps them, and a trim
of the finished tree drops them later. Both end with the same tree.

* `FrameStack.apply_trim` — on lists of open calls, the frames of the pruned recording are those of the
  full one with their fast children left out
* `CallStack.Thinner` — two recordings that spell such frames, the pruned one in no more slots; each
  operation keeps this (`full_stacks_simulate_pruned`)
* `live_pruning_agrees_with_trimming` — so two runs of the same events finish their trees together, and
  each pruned tree is the trimmed full one
-/

namespace CallProfiler

variable {threshold : UInt64}

/-! ## Frames without fast calls -/

/-- An open call without the fast calls among those that it has kept. -/
def Frame.trim (threshold : UInt64) (f : Frame) : Frame :=
  { f with children := Snapshot.trimAll threshold f.children }

/-- The stack of open calls as it is when it is recorded with a threshold. -/
def FrameStack.trim (threshold : UInt64) (s : FrameStack) : FrameStack :=
  ⟨s.frames.map (Frame.trim threshold), threshold⟩

/-- A call that ends takes the kept part of its children with it, whenever the rest was dropped. -/
theorem Frame.finish_trim (f : Frame) (now : Reading) (signature : Option String) :
    (f.trim threshold).finish now signature = (f.finish now signature).trim threshold := rfl

/-- A trimmed frame keeps a call just if the call is slow. -/
theorem Frame.trim_keep (f : Frame) (call : Snapshot) : (f.keep call).trim threshold =
    if call.gross < threshold then f.trim threshold
    else (f.trim threshold).keep (call.trim threshold) := by
  unfold Frame.trim Frame.keep
  simp only [Snapshot.trimAll_append, Snapshot.trimAll]
  split
  · rw [List.append_nil]
  · rfl

theorem Snapshot.trim_leaf (description : String) (duration : UInt64) :
    Snapshot.trim threshold (.node description duration duration true []) =
      .node description duration duration true [] := by
  have net : Snapshot.netTime duration [] = duration := by
    unfold Snapshot.netTime Snapshot.childTime
    rw [List.map_nil, List.sum_nil, Nat.sub_zero, UInt64.ofNat_toNat]
  simp only [Snapshot.trim, Snapshot.trimAll, net]

/-- One operation on the frames of a full recording and on those of a pruned one. -/
theorem FrameStack.apply_trim (c : FrameClock) (fs : List Frame) (op : StackOp)
    (unlimited : c.threshold = 0) : ∃ fs',
    (apply c ⟨fs, 0⟩ op).2 = (⟨fs', 0⟩, c) ∧
    (apply { c with threshold := threshold } (trim threshold ⟨fs, 0⟩) op).2 =
      (trim threshold ⟨fs', 0⟩, { c with threshold := threshold }) ∧
    StackAnswer.Agree (fun full pruned => pruned = full.trim threshold) (apply c ⟨fs, 0⟩ op).1
      (apply { c with threshold := threshold } (trim threshold ⟨fs, 0⟩) op).1 := by
  have never : ∀ d : UInt64, ¬ d < 0 := fun d => Nat.not_lt_zero d.toNat
  cases fs with
  | nil =>
    cases op with
    | activate signature =>
      refine ⟨[⟨signature, c.now, []⟩], ?_, rfl, .begun⟩
      simp only [apply, unlimited]
    | start signature => exact ⟨[], rfl, rfl, .silent⟩
    | stop signature => exact ⟨[], rfl, rfl, .silent⟩
    | io description duration => exact ⟨[], rfl, rfl, .silent⟩
    | rename signature => exact ⟨[], rfl, rfl, .refused .notActive⟩
    | deactivate => exact ⟨[], rfl, rfl, .silent⟩
  | cons f fs =>
    cases op with
    | activate signature => exact ⟨f :: fs, rfl, rfl, .refused (.alreadyActive f.signature)⟩
    | start signature => exact ⟨⟨signature, c.now, []⟩ :: f :: fs, rfl, rfl, .silent⟩
    | rename signature => exact ⟨{ f with signature := signature } :: fs, rfl, rfl, .renamed⟩
    | deactivate => exact ⟨[], rfl, rfl, .silent⟩
    | io description duration =>
      -- a leaf is dropped at once, or its frame is trimmed with it
      refine ⟨f.keep (.node description duration duration true []) :: fs, ?_, ?_, ?_⟩
      · simp only [apply, never, if_false]
      · simp only [apply, trim, List.map_cons, Frame.trim_keep, Snapshot.trim_leaf, Snapshot.gross]
        split
        · rfl
        · rfl
      · simp only [apply, trim, List.map_cons, never, if_false]
        split
        · exact .silent
        · exact .silent
    | stop signature =>
      cases fs with
      | nil => exact ⟨[], rfl, rfl, .finished (f.finish_trim c.now signature)⟩
      | cons g fs =>
        -- the pruned recording drops the call now, the full one with the trim of its caller
        refine ⟨g.keep (f.finish c.now signature) :: fs, ?_, ?_, .silent⟩
        · simp only [apply, never, if_false]
        · simp only [apply, trim, List.map_cons, Frame.trim_keep, Frame.finish_trim,
            Snapshot.gross_trim]

/-! ## How many slots a recording takes -/

/-- The open calls and all that is kept below them. -/
def countFrames (fs : List Frame) : Nat := (fs.map fun f => Snapshot.countAll f.children + 1).sum

/-- A trim of frames adds no calls. -/
theorem countFrames_trim_le (fs : List Frame) :
    countFrames (fs.map (Frame.trim threshold)) ≤ countFrames fs := by
  induction fs with
  | nil => exact Nat.le_refl _
  | cons f fs ih =>
    have here := Snapshot.countAll_trimAll_le threshold f.children
    have whole : countFrames (f :: fs) = Snapshot.countAll f.children + 1 + countFrames fs := rfl
    have kept : countFrames ((f :: fs).map (Frame.trim threshold)) =
        Snapshot.countAll (Snapshot.trimAll threshold f.children) + 1 +
          countFrames (fs.map (Frame.trim threshold)) := rfl
    omega

namespace CallTree

variable {t : CallTree} {x : NodeRef} {inner : Option NodeRef} {fs : List Frame}

/-- The copy of a recording that is still running: the open calls with what they have kept, and what is
below the innermost of them. -/
theorem Spells.copy (ok : t.WellFormed) (sp : t.Spells inner x fs) :
    ∀ calls : List Snapshot, inner.toList.map t.snapshotFrom = calls.map some →
      ∃ s, t.snapshot = some s ∧ s.count = countFrames fs + Snapshot.countAll calls := by
  -- the copy of an open call consists of its finished children and the copy of the call below it
  have node : ∀ {x n inner f}, t.Holds x n inner f → ∀ calls : List Snapshot,
      inner.toList.map t.snapshotFrom = calls.map some → ∃ s, t.snapshotFrom x = some s ∧
        s.count = Snapshot.countAll f.children + Snapshot.countAll calls + 1 := by
    intro x n inner f holds calls below
    rcases holds.children with ⟨kids, children, done⟩
    have copies : n.children.filterMap t.snapshotFrom = f.children ++ calls := by
      rw [children, List.filterMap_append, done.filterMap, filterMap_of_map_some below]
    refine ⟨_, snapshotFrom_eq ok holds.live, ?_⟩
    rw [copies, Snapshot.count, Snapshot.countAll_append]
  -- from the innermost call outwards, with the copy that has grown so far
  induction sp with
  | @root inner x n f holds parent =>
    intro calls below
    rcases node holds calls below with ⟨s, copy, count⟩
    have isRoot := (ok.toLinked.parent_none_iff holds.live).mp parent
    rw [isRoot] at copy
    refine ⟨s, copy, ?_⟩
    have one : countFrames [f] = Snapshot.countAll f.children + 1 := rfl
    omega
  | @up inner x p n f fs holds parent above ih =>
    intro calls below
    rcases node holds calls below with ⟨s, copy, count⟩
    rcases ih [s] (by rw [Option.toList_some, List.map_singleton, copy]; rfl) with ⟨whole, eq, total⟩
    refine ⟨whole, eq, ?_⟩
    have one : Snapshot.countAll [s] = s.count := rfl
    have all : countFrames (f :: fs) = Snapshot.countAll f.children + 1 + countFrames fs := rfl
    omega

/-- A tree that spells frames has as many nodes as the frames have calls. -/
theorem Spells.size_eq (ok : t.WellFormed) (sp : t.Spells none x fs) : t.size = countFrames fs := by
  rcases sp.copy ok [] rfl with ⟨s, copy, count⟩
  rw [size_eq_count ok copy, count]
  rfl

end CallTree

/-! ## Two recordings of the same calls -/

/-- A recording with a threshold and a full recording of the same calls. The pruned one takes no more
slots, so it has room wherever the full one has. -/
structure CallStack.Thinner (threshold : UInt64) (full pruned : CallStack) : Prop where
  frames : ∃ fs, full.Matches ⟨fs, 0⟩ ∧ pruned.Matches (FrameStack.trim threshold ⟨fs, 0⟩)
  slots : ∀ r r', full.recording = some r → pruned.recording = some r' →
    r'.tree.slots.size ≤ r.tree.slots.size

/-- What the two recordings share: the clock, and nothing in the pools. -/
def Profiler.Thinner (threshold : UInt64) (full pruned : Profiler) : Prop :=
  ∃ c : FrameClock, c.threshold = 0 ∧ full.Matches c ∧
    pruned.Matches { c with threshold := threshold }

/-- Whatever pool the nodes go to, the trim of the full tree copies like the pruned one and has as many
nodes. -/
def CallTree.Agrees (threshold : UInt64) (full pruned : CallTree) : Prop :=
  ∀ pool : NodePool, ∃ copy, pruned.snapshot = some copy ∧
    (full.removeCallsFasterThan pool threshold).1.snapshot = some copy ∧
    pruned.size = (full.removeCallsFasterThan pool threshold).1.size

/-- A tree that finishes the trimmed copy is what a trim makes of one that finishes the copy. -/
theorem CallTree.Finishes.agrees {full pruned : CallTree} {copy : Snapshot} (whole : full.Finishes copy)
    (part : pruned.Finishes (copy.trim threshold)) : full.Agrees threshold pruned := by
  intro pool
  have trimmed := CallTree.snapshot_trim whole.wellFormed pool threshold whole.ended
  rw [whole.snapshot, Option.map_some] at trimmed
  have ok := whole.wellFormed.removeCallsFasterThan pool threshold
  refine ⟨copy.trim threshold, part.snapshot, trimmed, ?_⟩
  rw [CallTree.size_eq_count part.wellFormed part.snapshot, CallTree.size_eq_count ok trimmed]

namespace CallStack

/-- A recording that matches frames is well-formed, with one node for each call of the frames. -/
theorem Matches.wellFormed {s : CallStack} {r : FrameStack} {rec : Recording} (rel : s.Matches r)
    (running : s.recording = some rec) :
    rec.tree.WellFormed ∧ rec.tree.size = countFrames r.frames := by
  cases rel with
  | inactive minimum => exact absurd running (by simp)
  | active minimum ok sp =>
    have same := Option.some.inj running
    rw [← same]
    exact ⟨ok, sp.size_eq ok⟩

/-- A stack is idle just if there are no frames. -/
theorem Matches.idle_iff {s : CallStack} {r : FrameStack} (rel : s.Matches r) :
    s.recording = none ↔ r.frames = [] := by
  cases rel with
  | inactive minimum => simp
  | active minimum ok sp =>
    cases sp with
    | root _ _ => simp
    | up _ _ _ => simp

/-- The two stacks record at the same time. -/
theorem Thinner.idle {full pruned : CallStack} (thin : Thinner threshold full pruned)
    (idle : full.recording = none) : pruned.recording = none := by
  rcases thin.frames with ⟨fs, spelt, spelt'⟩
  have empty : fs = [] := spelt.idle_iff.mp idle
  apply spelt'.idle_iff.mpr
  rw [empty]
  rfl

/-- One operation keeps the pruned recording in no more slots: it takes a new slot only when all others
are full, and then its nodes are no more than those of the full recording. -/
theorem Thinner.slots_le {full full' pruned pruned' : CallStack} {fs' : List Frame}
    (thin : Thinner threshold full pruned) (grown : full.Grown full') (grown' : pruned.Grown pruned')
    (next : full'.Matches ⟨fs', 0⟩) (next' : pruned'.Matches (FrameStack.trim threshold ⟨fs', 0⟩)) :
    ∀ r r', full'.recording = some r → pruned'.recording = some r' →
      r'.tree.slots.size ≤ r.tree.slots.size := by
  intro r r' running running'
  rcases next.wellFormed running with ⟨ok, size⟩
  rcases next'.wellFormed running' with ⟨_, size'⟩
  have capacity := r.tree.size_le
  cases grown' with
  | idle idle => exact absurd running' (by simp [idle])
  | begun _ begun one =>
    -- a recording that has just begun has one slot, and no recording has less
    have same := Option.mem_unique begun running'
    have some := (ok.path_ancestors ok.toLinked.live_root).length_lt ok
    rw [same] at one
    omega
  | @evolved old new recorded' begun' evolved' =>
    have same' := Option.mem_unique begun' running'
    rw [same'] at evolved'
    cases grown with
    | idle idle => exact absurd running (by simp [idle])
    | begun idle _ _ => exact absurd recorded' (by simp [thin.idle idle])
    | @evolved oldFull newFull recorded begun evolved =>
      have same := Option.mem_unique begun running
      rw [same] at evolved
      have before := thin.slots oldFull old recorded recorded'
      rcases evolved'.size with kept | ⟨full, _⟩
      · rcases evolved.size with keptFull | ⟨_, more⟩
        · omega
        · omega
      · -- all slots of the pruned recording are full
        have all := CallTree.size_eq_of_full full
        have fewer : countFrames (fs'.map (Frame.trim threshold)) ≤ countFrames fs' :=
          countFrames_trim_le fs'
        have size : r.tree.size = countFrames fs' := size
        have size' : r'.tree.size = countFrames (fs'.map (Frame.trim threshold)) := size'
        omega

/-- The pruned recording has room and short sums wherever the full one has. -/
theorem Thinner.apply {full pruned : CallStack} {p q : Profiler}
    (thin : Thinner threshold full pruned) (shared : p.Thinner threshold q)
    (bounded : full.Bounded) (op : StackOp) :
    StackAnswer.Agree (CallTree.Agrees threshold) (full.apply p op).1 (pruned.apply q op).1 ∧
    Thinner threshold (full.apply p op).2.1 (pruned.apply q op).2.1 ∧
    (full.apply p op).2.2.Thinner threshold (pruned.apply q op).2.2 := by
  rcases shared with ⟨c, unlimited, sharedFull, sharedPruned⟩
  rcases thin.frames with ⟨fs, spelt, spelt'⟩
  rcases FrameStack.apply_trim c fs op unlimited with ⟨fs', next, next', answer⟩
  have room : ∀ rec, full.recording = some rec → rec.tree.slots.size < 2 ^ 32 :=
    fun rec running => (bounded rec running).slots
  have room' : ∀ rec, pruned.recording = some rec → rec.tree.slots.size < 2 ^ 32 := by
    intro rec' running'
    cases running : full.recording with
    | none => exact absurd running' (by simp [thin.idle running])
    | some rec => exact Nat.lt_of_le_of_lt (thin.slots rec rec' running running') (room rec running)
  have fits := spelt.fits bounded
  have fits' : ∀ f, (FrameStack.trim threshold ⟨fs, 0⟩).frames.head? = some f →
      Snapshot.childTime f.children < 2 ^ 64 := by
    intro f first
    cases fs with
    | nil => exact absurd first (by simp [FrameStack.trim])
    | cons g fs =>
      have same : g.trim threshold = f := by simpa [FrameStack.trim] using first
      rw [← same]
      exact Nat.lt_of_le_of_lt (Snapshot.childTime_trimAll_le threshold g.children) (fits g rfl)
  have whole := spelt.apply sharedFull room fits op
  have part := spelt'.apply sharedPruned room' fits' op
  have stack := whole.stack
  have stack' := part.stack
  have clock := whole.shared
  have clock' := part.shared
  rw [next] at stack clock
  rw [next'] at stack' clock'
  -- the two frame stacks answer for their recordings, and agree with each other
  refine ⟨whole.answer.square ?_ part.answer answer, ⟨⟨fs', stack, stack'⟩,
    thin.slots_le whole.growth part.growth stack stack'⟩, c, unlimited, clock, clock'⟩
  intro full copy pruned copy' finished finished' same
  rw [same] at finished'
  exact finished.agrees finished'

end CallStack

/-! ## Runs -/

/-- Stacks without a threshold are simulated by stacks with one. -/
theorem full_stacks_simulate_pruned (threshold : UInt64) :
    CallStack.system.Simulates CallStack.system (Profiler.Thinner threshold)
      (CallStack.Thinner threshold) (CallTree.Agrees threshold) CallStack.Bounded where
  fresh := by
    intro p q shared
    rcases shared with ⟨c, unlimited, full, pruned⟩
    refine ⟨⟨[], ?_, ?_⟩, fun r r' running => absurd running (by simp [CallStack.system,
      Profiler.stack])⟩
    · have start := stacks_simulate_frames.fresh full
      simp only [FrameStack.system, unlimited] at start
      exact start
    · exact stacks_simulate_frames.fresh pruned
  apply := fun shared thin bounded op => thin.apply shared bounded op
  take := by
    intro full pruned thin
    rcases thin.frames with ⟨fs, spelt, spelt'⟩
    refine ⟨thin, ⟨[], (stacks_simulate_frames.take spelt).2,
      (stacks_simulate_frames.take spelt').2⟩, ?_⟩
    intro r r' running
    exact absurd running (by simp [CallStack.system, CallStack.take])
  clock := by
    intro p q shared step
    rcases shared with ⟨c, unlimited, full, pruned⟩
    exact ⟨FrameStack.system.clock c step, unlimited, stacks_simulate_frames.clock full step,
      stacks_simulate_frames.clock pruned step⟩
  pool := by
    intro p q shared e
    rcases shared with ⟨c, unlimited, full, pruned⟩
    exact ⟨c, unlimited, stacks_simulate_frames.pool full e, stacks_simulate_frames.pool pruned e⟩

/-- Recording with a threshold finishes trees at the same steps as recording without one, and each of
them is what a trim makes of the full tree. Assumed: in the full recordings that the run goes through, the
slots can be numbered in 32 bits, and the times of the children of a node fit into 64 bits together; the
pruned ones are then bounded with them. -/
theorem live_pruning_agrees_with_trimming (threshold : UInt64) (now : Reading)
    (pooling pooling' : Bool) (before before' : List PoolEvent) (events : List StackEvent)
    (bounded : ∀ w ∈ states CallStack.system.step
      (CallStack.system.bench ⟨now, .used pooling before, 0⟩) events, ∀ s ∈ w.members, s.Bounded) :
    List.Forall₂
      (StackAnswer.Agree fun full pruned => ∀ pool : NodePool, ∃ copy,
        pruned.snapshot = some copy ∧
        (full.removeCallsFasterThan pool threshold).1.snapshot = some copy ∧
        pruned.size = (full.removeCallsFasterThan pool threshold).1.size)
      (answers CallStack.system.step
        (CallStack.system.bench ⟨now, .used pooling before, 0⟩) events)
      (answers CallStack.system.step
        (CallStack.system.bench ⟨now, .used pooling' before', threshold⟩) events) := by
  have sim := full_stacks_simulate_pruned threshold
  have shared : Profiler.Thinner threshold ⟨now, .used pooling before, 0⟩
      ⟨now, .used pooling' before', threshold⟩ :=
    ⟨⟨now, 0⟩, rfl, ⟨rfl, rfl, NodePool.allBlank_used pooling before⟩,
      ⟨rfl, rfl, NodePool.allBlank_used pooling' before'⟩⟩
  exact (related_runs (fun w w' e rel safe => sim.step e rel safe) events (sim.bench shared)
    bounded).1

/-- A session with a slow leaf below a fast call, a fast leaf, a call that is renamed as it ends, a clock
that goes back, and a second recording in the slots of the first. -/
def briskSession : List StackEvent :=
  [.on 0 (.activate "job"), .on 0 (.start "brief"), .on 0 (.io "query" 50), .clock (.advance 2),
    .on 0 (.stop none), .on 0 (.start "load"), .on 0 (.io "read" 3), .on 0 (.io "parse" 9),
    .clock (.advance 20), .on 0 (.start "late"), .clock (.set 1), .on 0 (.stop none),
    .clock (.set 90), .on 0 (.stop (some "loaded")), .on 0 (.activate "again"), .on 0 (.stop none),
    .on 0 (.activate "next"), .on 0 (.rename "last"), .clock (.advance 1), .on 0 (.stop none)]

/-- The session is bounded, so the result applies to it with a threshold of four. -/
theorem brisk_session_agrees_with_trimming :
    (∀ w ∈ states CallStack.system.step (CallStack.system.bench ⟨7, .used true [], 0⟩) briskSession,
      ∀ s ∈ w.members, s.Bounded) ∧
    List.Forall₂
      (StackAnswer.Agree fun full pruned => ∀ pool : NodePool, ∃ copy,
        pruned.snapshot = some copy ∧
        (full.removeCallsFasterThan pool 4).1.snapshot = some copy ∧
        pruned.size = (full.removeCallsFasterThan pool 4).1.size)
      (answers CallStack.system.step (CallStack.system.bench ⟨7, .used true [], 0⟩) briskSession)
      (answers CallStack.system.step (CallStack.system.bench ⟨7, .used false [], 4⟩)
        briskSession) := by
  have bounded : ∀ w ∈ states CallStack.system.step
      (CallStack.system.bench ⟨7, .used true [], 0⟩) briskSession, ∀ s ∈ w.members, s.Bounded := by
    decide +kernel
  exact ⟨bounded, live_pruning_agrees_with_trimming 4 7 true false [] [] briskSession bounded⟩

/-- How a session begins whose first call is too fast to be kept. -/
def briskStart : List StackEvent :=
  [.on 0 (.activate "job"), .on 0 (.start "brief"), .on 0 (.stop none), .on 0 (.start "load")]

/-- Further calls are started one below the other, one more than a full recording has numbers for. -/
def runawaySession : List StackEvent :=
  briskStart ++ (deepening (2 ^ 32 - 2) ++ [.on 0 (.stop none)])

/-- Where the full recording runs out of numbers and the pruned one does not, they finish their trees at
different steps: the last call is the root of the full recording, whose end is the end of the tree. No
call takes any time in it. -/
theorem runaway_session_finishes_early :
    let full := CallStack.system.bench ⟨0, .used true [], 0⟩
    let pruned := CallStack.system.bench ⟨0, .used true [], 1⟩
    (∀ w ∈ states CallStack.system.step full runawaySession, ∀ s ∈ w.members,
      ∀ r, s.recording = some r → ∀ h, ((r.tree.children h).map (·.2.gross.toNat)).sum < 2 ^ 64) ∧
    (∃ tree, (answers CallStack.system.step full runawaySession).getLast? = some (.finished tree)) ∧
    (answers CallStack.system.step pruned runawaySession).getLast? = some .silent := by
  obtain ⟨s, p, start, deep⟩ : ∃ s p,
      after CallStack.system.step (CallStack.system.bench ⟨0, .used true [], 0⟩) briskStart =
        ⟨p, [s]⟩ ∧ s.Descended p 3 { signature := "job", children := [⟨1, 0⟩, ⟨2, 0⟩] } := by
    exact ⟨_, _, rfl, CallStack.descended_of_slots rfl "load" 0 ⟨0, 0⟩ (by decide +kernel)⟩
  obtain ⟨s', p', start', deep'⟩ : ∃ s p,
      after CallStack.system.step (CallStack.system.bench ⟨0, .used true [], 1⟩) briskStart =
        ⟨p, [s]⟩ ∧ s.Descended p 2 { signature := "job", children := [⟨1, 1⟩] } := by
    exact ⟨_, _, rfl, CallStack.descended_of_slots rfl "load" 0 ⟨0, 0⟩ (by decide +kernel)⟩
  obtain ⟨k, last, most⟩ : ∃ k, 3 + k = 2 ^ 32 ∧ 2 ^ 32 - 2 = k + 1 := ⟨2 ^ 32 - 3, by omega, by omega⟩
  have begins : ∀ w ∈ states CallStack.system.step (CallStack.system.bench ⟨0, .used true [], 0⟩)
      briskStart, ∀ s ∈ w.members, ∀ r ∈ s.recording, ∀ slot ∈ r.tree.slots.toList,
        ∀ n ∈ slot.node, n.gross = 0 := by
    decide +kernel
  rw [runawaySession, most]
  refine ⟨?_, ?_, ?_⟩
  · intro w visited s member r recording h
    have brief : ∀ h n, r.tree.get? h = some n → n.gross = 0 := by
      rcases CallStack.mem_states_deepened start none visited with begun | ⟨j, le, rfl⟩ | rfl
      · exact CallTree.brief_of_slots (begins w begun s member r recording)
      · rw [List.mem_singleton.mp member] at recording
        exact deep.brief last le r recording
      · rcases (deep.descend_over k last).stop rfl with ⟨tree, -, ended, -⟩
        rw [List.mem_singleton.mp member, ended] at recording
        cases recording
    rw [CallTree.children_brief brief]
    decide
  · rcases (deep.descend_over k last).stop rfl with ⟨tree, finished, -, -⟩
    exact ⟨tree, by rw [CallStack.getLast?_answers_deepened start, finished]⟩
  · have inner := (deep'.descend (k + 1) (by omega)).stop none
    rw [CallStack.getLast?_answers_deepened start', inner]

end CallProfiler
