import CallProfiler.Proofs.Stack.Balance
import CallProfiler.Proofs.Stack.Frames
import CallProfiler.Proofs.Tree.Trims

/-!
# Proofs.Stack.NetTimes: net times as they are recorded and as they are computed

While a call runs, its net time is kept modulo `2 ^ 64`, and the end of the call turns the sum into a
difference. A trim adds up what the children took and takes it off down to zero. In a finished tree the
two are the same until the children of a call take `2 ^ 64` nanoseconds together: then the recorded
net time has lost whole multiples of that, and is too great unless the rest alone outlasts the call.

* `CallNode.Recorded` — what the net time of a recorded node is worth, given the time of its children
* `CallStack.recording_preserved` — every operation of a stack keeps it for all nodes of the recording,
  since a stack ends and charges open calls only
* `finished_net_times` — so in every finished tree the recorded net times are those that a trim without
  a threshold computes just where the sums fit
-/

namespace CallProfiler

namespace CallNode

variable {n : CallNode} {time : Nat}

/-- The net time that was recorded for a node whose children take some time together. -/
structure Recorded (n : CallNode) (time : Nat) : Prop where
  ended : n.closed = true → n.net.toNat = n.gross.toNat - time % 2 ^ 64
  running : n.closed = false → n.gross = 0 ∧ n.net = -UInt64.ofNat time

/-- A call that has just begun has recorded no time of children. -/
theorem recorded_begun (signature : String) (now : Reading) (parent : Option NodeRef) :
    (CallNode.blank.begun signature now parent).Recorded 0 where
  ended := fun closed => absurd closed (by simp [begun, blank])
  running := fun _ => ⟨rfl, rfl⟩

/-- A measured leaf has ended and has no children. -/
theorem recorded_measured (description : String) (duration : UInt64) (now : Reading)
    (parent : NodeRef) : (CallNode.blank.measured description duration now parent).Recorded 0 where
  ended := fun _ => rfl
  running := fun isOpen => absurd isOpen (by simp [measured])

/-- An open call records what it is charged modulo `2 ^ 64`. -/
theorem Recorded.charge (recorded : n.Recorded time) (isOpen : n.closed = false) (nanos : UInt64) :
    (n.charge nanos).Recorded (time + nanos.toNat) where
  ended := by
    intro closed
    have closed : n.closed = true := closed
    rw [isOpen] at closed
    exact absurd closed (by simp)
  running := fun _ =>
    ⟨(recorded.running isOpen).1, net_charge_open isOpen (recorded.running isOpen).2 nanos⟩

/-- The end of a call turns what is recorded into its net time. -/
theorem Recorded.closedAt (recorded : n.Recorded time) (isOpen : n.closed = false) (now : Reading)
    (signature : Option String) : (n.closedAt now signature).Recorded time where
  ended := fun _ => net_closedAt (recorded.running isOpen).2 now signature
  running := fun isOpen => absurd isOpen (by simp [CallNode.closedAt])

theorem Recorded.congr {m : CallNode} (recorded : n.Recorded time) (gross : m.gross = n.gross)
    (net : m.net = n.net) (closed : m.closed = n.closed) : m.Recorded time where
  ended := by
    rw [gross, net, closed]
    exact recorded.ended
  running := by
    rw [gross, net, closed]
    exact recorded.running

end CallNode

/-! ## Recordings -/

namespace CallStack

open CallTree

variable {s : CallStack} {p : Profiler} {t : CallTree} {x : NodeRef} {minimum : UInt64}

/-- The open calls of the running recording, if there is one, are a path from the root, and every node
of it has its recorded net time. -/
structure Measured (s : CallStack) : Prop where
  upright : s.Upright
  every : ∀ r, s.recording = some r → r.tree.Every CallNode.Recorded

/-- An idle stack records nothing. -/
theorem measured_of_idle (idle : s.recording = none) : s.Measured where
  upright := upright_of_idle idle
  every := by
    intro r hr
    rw [idle] at hr
    exact absurd hr (by simp)

theorem measured_mk : Measured ⟨some ⟨t, x⟩, minimum⟩ ↔ t.OpenPath x ∧ t.Every CallNode.Recorded :=
  ⟨fun measured => ⟨upright_mk.mp measured.upright, measured.every _ rfl⟩,
    fun both => ⟨upright_mk.mpr both.1, fun _ hr => Option.some.inj hr ▸ both.2⟩⟩

/-- The innermost call of a recording is there, and it is open. -/
theorem Measured.innermost (measured : Measured ⟨some ⟨t, x⟩, minimum⟩) :
    ∃ n, t.get? x = some n ∧ n.closed = false := by
  have op := (measured_mk.mp measured).1
  rcases op.live with ⟨n, hx⟩
  exact ⟨n, hx, (op.open_iff hx).mpr (.self hx)⟩

/-- A recording begins with nothing to account for. -/
theorem Measured.activate (idle : s.isActive = false) (blank : p.pool.AllBlank)
    (signature : String) : (s.activate p signature).2.1.Measured where
  upright := (activate_upright idle blank signature).1
  every := by
    unfold CallStack.activate
    rw [idle]
    intro r hr
    cases Option.some.inj hr
    exact every_begin blank p.now signature (CallNode.recorded_begun signature p.now none)

/-- A start keeps the record of all nodes. -/
theorem Measured.start (measured : s.Measured) (blank : p.pool.AllBlank) (room : s.HasRoom)
    (signature : String) : (s.start p signature).1.Measured := by
  refine ⟨(start_keeps measured.upright blank room signature).upright, ?_⟩
  rcases s with ⟨_ | ⟨t, x⟩, minimum⟩
  · exact measured.every
  · rcases measured_mk.mp measured with ⟨op, every⟩
    rcases op.live with ⟨n, hx⟩
    rcases openChild_live op.wellFormed (room _ rfl) blank hx p.now signature with
      ⟨c, t', eq, graft⟩
    unfold CallStack.start
    dsimp only
    rw [eq]
    intro r hr
    cases Option.some.inj hr
    exact every.grafted op.wellFormed.toLinked hx graft rfl
      (CallNode.recorded_begun signature p.now _) rfl rfl ((every x n hx).congr rfl rfl rfl)

/-- A measured call is charged to its caller, unless it is dropped. -/
theorem Measured.addIoCall (measured : s.Measured) (blank : p.pool.AllBlank) (room : s.HasRoom)
    (description : String) (duration : UInt64) :
    (s.addIoCall p description duration).1.Measured := by
  refine ⟨(addIoCall_keeps measured.upright blank room description duration).upright, ?_⟩
  rcases s with ⟨_ | ⟨t, x⟩, minimum⟩
  · exact measured.every
  · by_cases fast : duration < minimum
    · simp only [CallStack.addIoCall, fast, if_true]
      exact measured.every
    · rcases measured_mk.mp measured with ⟨op, every⟩
      rcases measured.innermost with ⟨n, hx, isOpen⟩
      rcases addIoCall_live op.wellFormed (room _ rfl) blank hx p.now description duration with
        ⟨c, t', eq, graft⟩
      simp only [CallStack.addIoCall, fast, if_false, eq]
      intro r hr
      cases Option.some.inj hr
      exact every.grafted op.wellFormed.toLinked hx graft rfl
        (CallNode.recorded_measured description duration p.now x) rfl rfl
        (((every x n hx).charge isOpen duration).congr rfl rfl rfl)

/-- A name is not a time. -/
theorem Measured.setCurrentSignature (measured : s.Measured) (blank : p.pool.AllBlank)
    (signature : String) : (s.setCurrentSignature signature).2.Measured := by
  refine ⟨(setCurrentSignature_keeps measured.upright blank signature).upright, ?_⟩
  rcases s with ⟨_ | ⟨t, x⟩, minimum⟩
  · exact measured.every
  · rcases measured_mk.mp measured with ⟨op, every⟩
    rcases op.live with ⟨n, hx⟩
    simp only [CallStack.setCurrentSignature, setSignature_live hx]
    intro r hr
    cases Option.some.inj hr
    exact every.update (fun m => ⟨rfl, rfl⟩) fun m time recorded => recorded.congr rfl rfl rfl

/-- The innermost call that ends is open, and so is the caller that is charged for it. -/
theorem Measured.closed (measured : Measured ⟨some ⟨t, x⟩, minimum⟩) (pool : NodePool)
    (now : Reading) (signature : Option String) :
    (t.close pool now x signature minimum).2.1.Every CallNode.Recorded := by
  rcases measured_mk.mp measured with ⟨op, every⟩
  rcases measured.innermost with ⟨n, hx, isOpen⟩
  have ok := op.wellFormed.toLinked
  have recorded := every x n hx
  refine every.close ok hx (recorded.running isOpen).1 (recorded.closedAt isOpen now signature) ?_ ?_
    pool minimum
  · intro q qn parent hq nanos
    have callerOpen := (op.open_iff hq).mpr (ok.below_of_parent hx parent)
    exact (every q qn hq).charge callerOpen nanos
  · intro m cs time recorded
    exact recorded.congr rfl rfl rfl

/-- A finished tree in which every node has its recorded net time. -/
structure Finished (t : CallTree) : Prop where
  complete : t.Complete
  every : t.Every CallNode.Recorded

/-- A stop charges the caller; the last one hands over a tree in which all calls have ended. -/
theorem Measured.stopWith (measured : s.Measured) (blank : p.pool.AllBlank)
    (signature : Option String) :
    (s.stopWith p signature).2.1.Measured ∧
    ∀ t, (s.stopWith p signature).1 = some t → Finished t := by
  have stopped := stopWith_stopped measured.upright blank signature
  have every : (∀ r, (s.stopWith p signature).2.1.recording = some r →
      r.tree.Every CallNode.Recorded) ∧
      ∀ t, (s.stopWith p signature).1 = some t → t.Every CallNode.Recorded := by
    rcases s with ⟨_ | ⟨t, x⟩, minimum⟩
    · exact ⟨measured.every, fun t ht => absurd ht (by simp [CallStack.stopWith])⟩
    · have closed := measured.closed p.pool p.now signature
      unfold CallStack.stopWith
      dsimp only
      split
      · exact ⟨fun r hr => absurd hr (by simp [deactivate]), fun t ht => absurd ht (by simp)⟩
      · refine ⟨?_, fun t ht => absurd ht (by simp)⟩
        intro r hr
        cases Option.some.inj hr
        exact closed
      · refine ⟨fun r hr => absurd hr (by simp), ?_⟩
        intro t ht
        cases Option.some.inj ht
        exact closed
  exact ⟨⟨stopped.upright, every.1⟩, fun t ht => ⟨(stopped.finished t ht).1, every.2 t ht⟩⟩

/-- Every operation of a stack keeps the recorded net times, and the trees that it hands over have
them. -/
theorem Measured.apply (measured : s.Measured) (blank : p.pool.AllBlank) (room : s.HasRoom)
    (op : StackOp) : (∀ t, (CallStack.apply p s op).1.tree? = some t → Finished t) ∧
      (CallStack.apply p s op).2.1.Measured ∧ (CallStack.apply p s op).2.2.pool.AllBlank := by
  rw [tree?_apply]
  cases op with
  | activate signature =>
    refine ⟨fun t ht => absurd ht (by simp), ?_⟩
    rw [apply_activate]
    by_cases idle : s.isActive = false
    · exact ⟨.activate idle blank signature, (activate_upright idle blank signature).2.1⟩
    · -- the operation is refused while a recording runs
      have active : s.isActive = true := Bool.eq_true_of_not_eq_false idle
      simp only [CallStack.activate, active, if_true]
      exact ⟨measured, blank⟩
  | start signature =>
    exact ⟨fun t ht => absurd ht (by simp), measured.start blank room signature,
      (start_keeps measured.upright blank room signature).blank⟩
  | stop signature =>
    rcases measured.stopWith blank signature with ⟨measured', finished⟩
    rw [apply_stop]
    exact ⟨finished, measured', (stopWith_stopped measured.upright blank signature).blank⟩
  | io description duration =>
    exact ⟨fun t ht => absurd ht (by simp), measured.addIoCall blank room description duration,
      (addIoCall_keeps measured.upright blank room description duration).blank⟩
  | rename signature =>
    refine ⟨fun t ht => absurd ht (by simp), ?_⟩
    rw [apply_rename]
    exact ⟨measured.setCurrentSignature blank signature, blank⟩
  | deactivate =>
    exact ⟨fun t ht => absurd ht (by simp), measured_of_idle rfl,
      (deactivate_keeps measured.upright blank).blank⟩

/-- Put together: what one operation preserves, as the results on runs ask for it. -/
theorem recording_preserved :
    system.Preserves (fun p => p.pool.AllBlank) Measured Finished HasRoom where
  fresh := fun _ => measured_of_idle rfl
  apply := fun blank measured room op => measured.apply blank room op
  take := fun measured => ⟨measured, measured_of_idle rfl⟩
  clock := fun blank _ => blank
  pool := fun blank e => blank.after e
  threshold := fun blank _ => blank

end CallStack

/-! ## Finished trees -/

namespace CallTree

variable {t t' : CallTree} {h : NodeRef} {n n' : CallNode}

/-- No call is below a threshold of zero. -/
theorem isFast_zero (t : CallTree) (x : NodeRef) : t.isFast 0 x = false := by
  cases live : t.get? x with
  | none => simp [isFast, live]
  | some n =>
    by_contra fast
    have less := ((isFast_iff live).mp (Bool.eq_true_of_not_eq_false fast)).2
    exact UInt64.not_lt.mpr UInt64.zero_le less

/-- A trim without a threshold only computes the net times anew. -/
theorem get?_trim_zero (done : t.Complete) (pool : NodePool) (h : NodeRef) :
    (t.removeCallsFasterThan pool 0).1.get? h =
      (t.get? h).map fun n => { n with net := UInt64.ofNat (n.gross.toNat - t.childTime h) } := by
  have ok := done.wellFormed
  rcases removeCallsFasterThan_spec ok.toSlotted ok.toLinked pool 0 with ⟨-, -, -, get⟩
  have safe : ¬ t.Doomed 0 h := by
    rintro ⟨a, -, fast, -⟩
    rw [isFast_zero] at fast
    exact absurd fast (by simp)
  have trimmed : ∀ n, t.get? h = some n →
      t.trimmed 0 n = { n with net := UInt64.ofNat (n.gross.toNat - t.childTime h) } := by
    intro n hn
    have kept : (n.children.filter fun c => !t.isFast 0 c) = n.children := by
      apply List.filter_eq_self.mpr
      intro c _
      rw [isFast_zero]
      rfl
    have net : (t.trimmed 0 n).net = UInt64.ofNat (n.gross.toNat - t.childTime h) := by
      have bound := n.gross.toNat_lt
      apply UInt64.toNat_inj.mp
      rw [net_trimmed_closed (done.closed h n hn), kept, childTime_eq hn, UInt64.toNat_ofNat_of_lt']
      show _ < 2 ^ 64
      omega
    rw [← net]
    unfold CallTree.trimmed
    rw [kept]
  refine Option.ext fun m => ?_
  rw [get, Option.map_eq_some_iff]
  constructor
  · rintro ⟨-, n, hn, rfl⟩
    exact ⟨n, hn, (trimmed n hn).symm⟩
  · rintro ⟨n, hn, rfl⟩
    exact ⟨safe, n, hn, (trimmed n hn).symm⟩

/-- Two trees of one shape have the same snapshot only if every node nets the same in both. -/
theorem net_eq_of_snapshot (ok : t.WellFormed) (ok' : t'.WellFormed) (root : t'.root = t.root)
    (shape : ∀ h n, t.get? h = some n → ∃ n', t'.get? h = some n' ∧ n'.children = n.children)
    (same : t'.snapshot = t.snapshot) (hn : t.get? h = some n) (hn' : t'.get? h = some n') :
    n'.net = n.net := by
  -- the copy of a node is a part of the copy of its parent
  have copies : t'.snapshotFrom h = t.snapshotFrom h := by
    apply ok.toLinked.upward ?_ ⟨n, hn⟩
    intro x m hx above
    by_cases isRoot : x = t.root
    · unfold snapshot at same
      rw [root] at same
      rw [isRoot]
      exact same
    · rcases ok.parent_live hx isRoot with ⟨p, pn, parent, hp, mem⟩
      rcases shape p pn hp with ⟨pn', hp', children⟩
      have whole := above p parent
      rw [snapshotFrom_eq ok hp, snapshotFrom_eq ok' hp'] at whole
      have kids : pn'.children.filterMap t'.snapshotFrom = pn.children.filterMap t.snapshotFrom :=
        congrArg Snapshot.children (Option.some.inj whole)
      have maps := children_snapshots ok' hp'
      rw [kids, ← children_snapshots ok hp, children] at maps
      exact List.map_inj_left.mp maps x mem
  rw [snapshotFrom_eq ok hn, snapshotFrom_eq ok' hn'] at copies
  exact congrArg Snapshot.net (Option.some.inj copies)

/-- Where the times of the children fit, or where what is left of them outlasts the call, the recorded
net time is the exact one. -/
theorem recorded_exact_iff {gross time : Nat} (bound : gross < 2 ^ 64) :
    gross - time % 2 ^ 64 = gross - time ↔ time < 2 ^ 64 ∨ gross ≤ time % 2 ^ 64 := by
  have le := Nat.mod_le time (2 ^ 64)
  rcases Nat.lt_or_ge time (2 ^ 64) with fits | beyond
  · rw [Nat.mod_eq_of_lt fits]
    exact iff_of_true rfl (Or.inl fits)
  · omega

end CallTree

namespace CallStack

variable {tree : CallTree} {h : NodeRef} {n : CallNode}

/-- The recorded net time of a node of a finished tree. -/
theorem Finished.recorded (whole : Finished tree) (hn : tree.get? h = some n) :
    n.net.toNat = n.gross.toNat - tree.childTime h % 2 ^ 64 := by
  rw [CallTree.childTime_eq hn]
  exact (whole.every h n hn).ended (whole.complete.closed h n hn)

/-- A trim without a threshold changes nothing that a snapshot shows just where no net time has lost
more than the call took. -/
theorem Finished.snapshot_trim_zero_iff (whole : Finished tree) (pool : NodePool) :
    (tree.removeCallsFasterThan pool 0).1.snapshot = tree.snapshot ↔
      ∀ h n, tree.get? h = some n →
        tree.childTime h < 2 ^ 64 ∨ n.gross.toNat ≤ tree.childTime h % 2 ^ 64 := by
  have ok := whole.complete.wellFormed
  have trimmed := CallTree.get?_trim_zero whole.complete pool
  constructor
  · intro same h n hn
    have shape : ∀ h n, tree.get? h = some n →
        ∃ n', (tree.removeCallsFasterThan pool 0).1.get? h = some n' ∧ n'.children = n.children := by
      intro h n hn
      rw [trimmed, hn]
      exact ⟨_, rfl, rfl⟩
    have hn' := trimmed h
    rw [hn, Option.map_some] at hn'
    have net := CallTree.net_eq_of_snapshot ok (ok.removeCallsFasterThan pool 0)
      (ok.isTrim pool 0).root shape same hn hn'
    have bound := n.gross.toNat_lt
    have exact : (UInt64.ofNat (n.gross.toNat - tree.childTime h)).toNat =
        n.gross.toNat - tree.childTime h := by
      apply UInt64.toNat_ofNat_of_lt'
      show _ < 2 ^ 64
      omega
    rw [← CallTree.recorded_exact_iff bound, ← whole.recorded hn, ← exact]
    exact congrArg UInt64.toNat net.symm
  · intro exact
    have settled : tree.Settled 0 := by
      refine ⟨fun _ _ _ c _ => tree.isFast_zero c, ?_⟩
      intro h n hn _
      rw [whole.recorded hn]
      exact (CallTree.recorded_exact_iff n.gross.toNat_lt).mpr (exact h n hn)
    rw [settled.removeCallsFasterThan ok.toLinked pool]

end CallStack

/-- In every tree that a run of call stacks finishes, the recorded net time of a node is its gross time
without what is left of its children's time modulo `2 ^ 64`. A trim without a threshold keeps every node
and makes its net time the exact difference, or zero. So it changes nothing that a snapshot shows if and
only if at every node the children's time is less than `2 ^ 64`, or what is left of it is at least the
gross time of the node. Assumed: in every recording that the run goes through, the slots can be numbered
in 32 bits. -/
theorem finished_net_times (pooling : Bool) (before : List PoolEvent) (now : Reading)
    (threshold : UInt64) (events : List ProfilerEvent)
    (room : ∀ w ∈ states CallStack.system.stepAny
      (CallStack.system.bench ⟨now, .used pooling before, threshold⟩) events,
      ∀ s ∈ w.members, ∀ r ∈ s.recording, r.tree.slots.size < 2 ^ 32)
    (tree : CallTree)
    (finished : tree ∈ (answers CallStack.system.stepAny
      (CallStack.system.bench ⟨now, .used pooling before, threshold⟩) events).filterMap
        StackAnswer.tree?)
    (pool : NodePool) :
    (∀ h n, tree.get? h = some n →
      n.closed = true ∧ n.net.toNat = n.gross.toNat - tree.childTime h % 2 ^ 64) ∧
    (∀ h, (tree.removeCallsFasterThan pool 0).1.get? h = (tree.get? h).map fun n =>
      { n with net := UInt64.ofNat (n.gross.toNat - tree.childTime h) }) ∧
    ((tree.removeCallsFasterThan pool 0).1.snapshot = tree.snapshot ↔
      ∀ h n, tree.get? h = some n →
        tree.childTime h < 2 ^ 64 ∨ n.gross.toNat ≤ tree.childTime h % 2 ^ 64) := by
  have blank : (Profiler.mk now (.used pooling before) threshold).pool.AllBlank :=
    NodePool.allBlank_used pooling before
  have whole := CallStack.recording_preserved.finished blank events
    (fun w hw s hs r hr => room w hw s hs r hr) finished
  refine ⟨?_, CallTree.get?_trim_zero whole.complete pool, whole.snapshot_trim_zero_iff pool⟩
  intro h n hn
  exact ⟨whole.complete.closed h n hn, whole.recorded hn⟩

/-- A session in which leaves that were measured elsewhere are longer than the calls around them, the
clock goes back while a call is open, a call is dropped, and the recording moves to another stack. -/
def overlongSession : List ProfilerEvent :=
  [.stack (.on 0 (.activate "job")), .stack (.clock (.advance 10)), .stack (.on 0 (.start "load")),
    .stack (.on 0 (.io "read" 50)), .stack (.on 0 (.start "brief")), .stack (.clock (.advance 3)),
    .stack (.on 0 (.stop none)), .stack (.on 0 (.start "parse")), .stack (.clock (.advance 40)),
    .stack (.take 0), .stack (.on 1 (.stop none)), .stack (.clock (.set 20)),
    .stack (.on 1 (.stop (some "loaded"))), .stack (.on 1 (.io "write" 9223372036854775808)),
    .stack (.on 1 (.io "sync" 7)), .stack (.clock (.advance 9)), .stack (.on 1 (.stop none))]

/-- The session finishes one tree of six nodes, to which the result applies. -/
theorem overlong_session_net_times : ∃ tree,
    (answers CallStack.system.stepAny (CallStack.system.bench ⟨2, .used true [], 5⟩)
      overlongSession).filterMap StackAnswer.tree? = [tree] ∧
    tree.size = 6 ∧
    (∀ h n, tree.get? h = some n →
      n.closed = true ∧ n.net.toNat = n.gross.toNat - tree.childTime h % 2 ^ 64) ∧
    (∀ h, (tree.removeCallsFasterThan {} 0).1.get? h = (tree.get? h).map fun n =>
      { n with net := UInt64.ofNat (n.gross.toNat - tree.childTime h) }) ∧
    ((tree.removeCallsFasterThan {} 0).1.snapshot = tree.snapshot ↔
      ∀ h n, tree.get? h = some n →
        tree.childTime h < 2 ^ 64 ∨ n.gross.toNat ≤ tree.childTime h % 2 ^ 64) := by
  have room : ∀ w ∈ states CallStack.system.stepAny
      (CallStack.system.bench ⟨2, .used true [], 5⟩) overlongSession,
      ∀ s ∈ w.members, ∀ r ∈ s.recording, r.tree.slots.size < 2 ^ 32 := by
    decide +kernel
  have sizes : ((answers CallStack.system.stepAny (CallStack.system.bench ⟨2, .used true [], 5⟩)
      overlongSession).filterMap StackAnswer.tree?).map (·.size) = [6] := by
    decide +kernel
  rcases List.map_eq_singleton_iff.mp sizes with ⟨tree, one, size⟩
  have finished : tree ∈ (answers CallStack.system.stepAny
      (CallStack.system.bench ⟨2, .used true [], 5⟩) overlongSession).filterMap
        StackAnswer.tree? := by
    rw [one]
    exact List.mem_singleton_self tree
  exact ⟨tree, one, size, finished_net_times true [] 2 5 overlongSession room tree finished {}⟩

/-- A session with two leaves that take `2 ^ 64` nanoseconds together, of which nothing is left in the
net time of their caller. -/
def wrappingSession : List ProfilerEvent :=
  [.stack (.on 0 (.activate "job")), .stack (.on 0 (.io "first" 9223372036854775808)),
    .stack (.on 0 (.io "second" 9223372036854775808)), .stack (.clock (.advance 5)),
    .stack (.on 0 (.stop none))]

/-- The two computations of net times disagree: five nanoseconds were recorded, and a trim without a
threshold makes them none. -/
theorem wrapping_session_net_times : ∃ tree,
    (answers CallStack.system.stepAny (CallStack.system.bench ⟨0, {}, 0⟩)
      wrappingSession).filterMap StackAnswer.tree? = [tree] ∧
    tree.childTime tree.root = 2 ^ 64 ∧
    tree.snapshot.map (fun s => (s.gross, s.net)) = some (5, 5) ∧
    (tree.removeCallsFasterThan {} 0).1.snapshot.map (fun s => (s.gross, s.net)) = some (5, 0) ∧
    (tree.removeCallsFasterThan {} 0).1.snapshot ≠ tree.snapshot := by
  have times : ((answers CallStack.system.stepAny (CallStack.system.bench ⟨0, {}, 0⟩)
      wrappingSession).filterMap StackAnswer.tree?).map (fun tree => (tree.childTime tree.root,
        tree.snapshot.map fun s => (s.gross, s.net),
        (tree.removeCallsFasterThan {} 0).1.snapshot.map fun s => (s.gross, s.net))) =
      [(2 ^ 64, some (5, 5), some (5, 0))] := by
    decide +kernel
  rcases List.map_eq_singleton_iff.mp times with ⟨tree, one, values⟩
  simp only [Prod.mk.injEq] at values
  rcases values with ⟨childTime, recorded, computed⟩
  refine ⟨tree, one, childTime, recorded, computed, ?_⟩
  intro same
  rw [same, recorded] at computed
  exact absurd computed (by decide)

end CallProfiler
