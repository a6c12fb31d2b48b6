import CallProfiler.Proofs.Stack.Overflow
import CallProfiler.Proofs.Stack.Refinement
import CallProfiler.Proofs.Tree.NetTime

/-!
# Proofs.Stack.Conservation: no time is lost

When every call is measured by a clock that does not go back, the calls below a call follow one another
inside it. So no difference is ever cut off at zero, and the net times of a call and of all below it add
up to its gross time.

* `Snapshot.Conserves` — at every call of a copy, the net time and the time of the children add up to the
  gross time; a trim keeps this (`Conserves.trim`), and it makes the sum over the whole copy exact
  (`Conserves.sum_calls`)
* `FrameStack.Timely` — the invariant of a list of open calls: what a call has kept took place before the
  call below it began, and that is not later than now
* `timely_apply` — operations without leaves measured elsewhere keep it, and finish copies that conserve
* `time_is_conserved` — so the trees of every such run conserve time, however often they are trimmed
-/

namespace CallProfiler

/-! ## Copies that conserve time -/

namespace Snapshot

/-- At a call and at all below it, the net time and the time of the children make up the gross time. -/
inductive Conserves : Snapshot → Prop where
  | node {signature : String} {gross net : UInt64} {ioCall : Bool} {children : List Snapshot} :
      (∀ c ∈ children, Conserves c) → net.toNat + childTime children = gross.toNat →
      Conserves (.node signature gross net ioCall children)

variable {s : Snapshot} {threshold : UInt64}

/-- If the net times below each call add up to its duration, those below a list add up to the sum. -/
theorem sum_callsAll {l : List Snapshot}
    (each : ∀ c ∈ l, (c.calls.map (·.net.toNat)).sum = c.gross.toNat) :
    ((callsAll l).map (·.net.toNat)).sum = childTime l := by
  induction l with
  | nil => rfl
  | cons first rest ih =>
    have later := ih fun c hc => each c (List.mem_cons_of_mem _ hc)
    rw [callsAll, List.map_append, List.sum_append, each first (List.mem_cons_self ..), later]
    rfl

/-- The net times of a call and of all below it add up to its gross time. -/
theorem Conserves.sum_calls (conserves : s.Conserves) :
    (s.calls.map (·.net.toNat)).sum = s.gross.toNat := by
  induction conserves with
  | @node signature gross net ioCall children _ exact ih =>
    rw [calls, List.map_cons, List.sum_cons, sum_callsAll ih]
    exact exact

/-- The net time of a call is what its calls leave of its duration, and never below zero. -/
theorem toNat_netTime (gross : UInt64) (calls : List Snapshot) :
    (netTime gross calls).toNat = gross.toNat - childTime calls := by
  have bound := gross.toNat_lt
  exact UInt64.toNat_ofNat_of_lt' (Nat.lt_of_le_of_lt (Nat.sub_le ..) bound)

/-- What a trim leaves of a list are trims of its members. -/
theorem mem_trimAll {l : List Snapshot} {c : Snapshot} (mem : c ∈ trimAll threshold l) :
    ∃ d ∈ l, c = d.trim threshold := by
  induction l with
  | nil => exact absurd mem (by simp [trimAll])
  | cons first rest ih =>
    unfold trimAll at mem
    split at mem
    · rcases ih mem with ⟨d, hd, same⟩
      exact ⟨d, List.mem_cons_of_mem _ hd, same⟩
    · rcases List.mem_cons.mp mem with same | later
      · exact ⟨first, List.mem_cons_self .., same⟩
      · rcases ih later with ⟨d, hd, same⟩
        exact ⟨d, List.mem_cons_of_mem _ hd, same⟩

/-- The time of the calls that a trim leaves out goes to the call around them. -/
theorem Conserves.trim (conserves : s.Conserves) (threshold : UInt64) :
    (s.trim threshold).Conserves := by
  induction conserves with
  | @node signature gross net ioCall children _ exact ih =>
    have kept := childTime_trimAll_le threshold children
    refine .node ?_ ?_
    · intro c hc
      rcases mem_trimAll hc with ⟨d, hd, same⟩
      rw [same]
      exact ih d hd
    · rw [toNat_netTime]
      omega

end Snapshot

/-! ## Open calls under a clock that does not go back -/

/-- A stretch of time in which the open calls took place, up to a reading: what each has kept was over
when the call below it began. -/
def Timely : Nat → List Frame → Prop
  | _, [] => True
  | now, f :: fs =>
    f.start.toNat + Snapshot.childTime f.children ≤ now ∧ (∀ c ∈ f.children, c.Conserves) ∧
      Timely f.start.toNat fs

/-- Frames that fit into the time up to a reading fit into more time. -/
theorem Timely.later {now now' : Nat} {fs : List Frame} (timely : Timely now fs) (le : now ≤ now') :
    Timely now' fs := by
  cases fs with
  | nil => exact timely
  | cons f fs =>
    rcases timely with ⟨inside, conserve, outer⟩
    exact ⟨Nat.le_trans inside le, conserve, outer⟩

/-- The operation that records a leaf that was measured elsewhere. -/
def StackOp.isIo : StackOp → Bool
  | .io _ _ => true
  | _ => false

namespace FrameStack

variable {c : FrameClock} {f g : Frame} {fs : List Frame}

/-- A call that ends now took no less time than the calls in it. -/
theorem conserves_finish (timely : Timely c.now.toNat (f :: fs)) (signature : Option String) :
    (f.finish c.now signature).Conserves ∧
      f.start.toNat + (f.finish c.now signature).gross.toNat = c.now.toNat := by
  rcases timely with ⟨inside, conserve, -⟩
  have gross : (saturatingSub c.now f.start).toNat = c.now.toNat - f.start.toNat :=
    toNat_saturatingSub c.now f.start
  constructor
  · refine .node conserve ?_
    rw [Snapshot.toNat_netTime, gross]
    omega
  · show _ + (saturatingSub c.now f.start).toNat = _
    omega

/-- A call that has ended took place after those that its caller has kept before. -/
theorem timely_keep (timely : Timely c.now.toNat (f :: g :: fs)) (signature : Option String) :
    Timely c.now.toNat (g.keep (f.finish c.now signature) :: fs) := by
  rcases conserves_finish timely signature with ⟨finished, gross⟩
  rcases timely with ⟨-, -, inside, conserve, outer⟩
  refine ⟨?_, ?_, outer⟩
  · have time : Snapshot.childTime (g.children ++ [f.finish c.now signature]) =
        Snapshot.childTime g.children + (f.finish c.now signature).gross.toNat := by
      simp [Snapshot.childTime]
    show g.start.toNat + Snapshot.childTime (g.children ++ [f.finish c.now signature]) ≤ _
    omega
  · intro call mem
    rcases List.mem_append.mp mem with old | new
    · exact conserve call old
    · rw [List.mem_singleton.mp new]
      exact finished

/-- An operation keeps the open calls in their places, and what it finishes conserves time. -/
theorem timely_apply {s : FrameStack} (timely : Timely c.now.toNat s.frames) (op : StackOp)
    (quiet : op.isIo = false) :
    Timely c.now.toNat (apply c s op).2.1.frames ∧ (apply c s op).2.2 = c ∧
      ∀ copy, (apply c s op).1 = .finished copy → copy.Conserves := by
  rcases s with ⟨frames, minimum⟩
  cases op with
  | activate signature =>
    cases frames with
    | nil =>
      refine ⟨⟨Nat.le_refl _, ?_, trivial⟩, rfl, ?_⟩
      · exact fun call mem => absurd mem (by simp)
      · exact fun copy finished => by cases finished
    | cons f fs => exact ⟨timely, rfl, fun copy finished => by cases finished⟩
  | start signature =>
    cases frames with
    | nil => exact ⟨timely, rfl, fun copy finished => by cases finished⟩
    | cons f fs =>
      refine ⟨⟨Nat.le_refl _, ?_, timely⟩, rfl, ?_⟩
      · exact fun call mem => absurd mem (by simp)
      · exact fun copy finished => by cases finished
  | stop signature =>
    match frames, timely with
    | [], timely => exact ⟨timely, rfl, fun copy finished => by cases finished⟩
    | [f], timely =>
      refine ⟨trivial, rfl, ?_⟩
      intro copy finished
      cases finished
      exact (conserves_finish timely signature).1
    | f :: g :: fs, timely =>
      refine ⟨?_, rfl, fun copy finished => by cases finished⟩
      -- a call that is dropped leaves its caller as it was, a while ago
      show Timely _ ((if (f.finish c.now signature).gross < minimum then g else _) :: fs)
      split
      · exact timely.2.2.later (Nat.le_trans (Nat.le_add_right ..) timely.1)
      · exact timely_keep timely signature
  | io description duration => exact absurd quiet (by simp [StackOp.isIo])
  | rename signature =>
    cases frames with
    | nil => exact ⟨timely, rfl, fun copy finished => by cases finished⟩
    | cons f fs => exact ⟨timely, rfl, fun copy finished => by cases finished⟩
  | deactivate => exact ⟨trivial, rfl, fun copy finished => by cases finished⟩

end FrameStack

/-! ## Trees that conserve time -/

namespace CallTree

variable {t : CallTree} {h : NodeRef} {n : CallNode} {s : Snapshot}

/-- The net times of a node and of all below it together. -/
def netTotal (t : CallTree) (h : NodeRef) : Nat :=
  (((t.preorder h).filterMap t.get?).map (·.net.toNat)).sum

/-- Trims a tree several times. -/
def trims (t : CallTree) (pool : NodePool) : List UInt64 → CallTree × NodePool
  | [] => (t, pool)
  | threshold :: rest =>
    let (t, pool) := t.removeCallsFasterThan pool threshold
    t.trims pool rest

/-- The net times at and below a node are those of its copy. -/
theorem netTotal_eq (ok : t.WellFormed) (copy : t.snapshotFrom h = some s) :
    t.netTotal h = (s.calls.map (·.net.toNat)).sum := by
  have nets : ∀ y, (t.get? y).map (·.net.toNat) = (t.snapshotFrom y).map (·.net.toNat) := by
    intro y
    cases live : t.get? y with
    | some m =>
      rw [snapshotFrom_eq ok live]
      rfl
    | none =>
      cases copied : t.snapshotFrom y with
      | none => rfl
      | some c =>
        rcases live_of_snapshot copied with ⟨m, hm⟩
        exact absurd (hm.symm.trans live) (by simp)
  have calls : (t.preorder h).filterMap t.snapshotFrom = s.calls :=
    filterMap_of_map_some (calls_preorder ok copy)
  unfold netTotal
  rw [← calls, List.map_filterMap, List.map_filterMap]
  simp only [nets]

/-- In the copy of a tree that conserves time, the copies of all nodes do. -/
theorem conserves_below (ok : t.WellFormed) (copy : t.snapshot = some s) (conserves : s.Conserves)
    (live : t.Live h) : ∃ c, t.snapshotFrom h = some c ∧ c.Conserves := by
  apply ok.toLinked.upward ?_ live
  intro x m hx above
  cases parent : m.parent with
  | none =>
    rw [(ok.toLinked.parent_none_iff hx).mp parent]
    exact ⟨s, copy, conserves⟩
  | some p =>
    rcases above p parent with ⟨whole, eq, exact⟩
    rcases ok.toLinked.parent_lists hx parent with ⟨pn, hp, listed⟩
    rcases exists_snapshot ok ⟨m, hx⟩ with ⟨c, hc⟩
    rw [snapshotFrom_eq ok hp] at eq
    rw [← Option.some.inj eq] at exact
    cases exact with
    | node each _ => exact ⟨c, hc, each c (List.mem_filterMap.mpr ⟨x, listed, hc⟩)⟩

/-- Every node of a tree whose copy conserves time does. -/
theorem netTotal_of_conserves (ok : t.WellFormed) (copy : t.snapshot = some s)
    (conserves : s.Conserves) (live : t.get? h = some n) : t.netTotal h = n.gross.toNat := by
  rcases conserves_below ok copy conserves ⟨n, live⟩ with ⟨c, hc, exact⟩
  rw [netTotal_eq ok hc, exact.sum_calls]
  rw [snapshotFrom_eq ok live] at hc
  rw [← Option.some.inj hc]
  rfl

/-- A trim of a finished tree is a finished tree, whose copy is the trimmed copy. -/
theorem Finishes.trim {copy : Snapshot} (whole : t.Finishes copy) (pool : NodePool)
    (threshold : UInt64) :
    (t.removeCallsFasterThan pool threshold).1.Finishes (copy.trim threshold) := by
  rcases removeCallsFasterThan_spec whole.wellFormed.toSlotted whole.wellFormed.toLinked pool
    threshold with ⟨-, -, -, get⟩
  refine ⟨whole.wellFormed.removeCallsFasterThan pool threshold, ?_, ?_⟩
  · rw [snapshot_trim whole.wellFormed pool threshold whole.ended, whole.snapshot]
    rfl
  · intro h n' hn'
    rcases (get h n').mp hn' with ⟨-, n, hn, eq⟩
    rw [eq]
    exact whole.ended h n hn

/-- So are several trims, and what conserves time before conserves it after them. -/
theorem Finishes.trims {copy : Snapshot} (whole : t.Finishes copy) (conserves : copy.Conserves)
    (pool : NodePool) (thresholds : List UInt64) :
    ∃ kept, (t.trims pool thresholds).1.Finishes kept ∧ kept.Conserves := by
  induction thresholds generalizing t pool copy with
  | nil => exact ⟨copy, whole, conserves⟩
  | cons threshold rest ih => exact ih (whole.trim pool threshold) (conserves.trim threshold) _

end CallTree

/-! ## Runs -/

/-- An event that records no leaf that was measured elsewhere. -/
def ProfilerEvent.isIo : ProfilerEvent → Bool
  | .stack (.on _ op) => op.isIo
  | _ => false

/-- On every stack the open calls took place up to now. -/
def AllTimely (w : Bench FrameClock FrameStack) : Prop :=
  ∀ s ∈ w.members, Timely w.shared.now.toNat s.frames

/-- A reading of a clock is a number of nanoseconds below `2 ^ 64`, so nothing that took place up to it
took longer. -/
theorem Timely.fits {now : Reading} {f : Frame} {fs : List Frame} (timely : Timely now.toNat fs)
    (first : fs.head? = some f) : Snapshot.childTime f.children < 2 ^ 64 := by
  cases fs with
  | nil => exact absurd first (by simp)
  | cons g fs =>
    cases Option.some.inj first
    have bound := now.toNat_lt
    have inside := timely.1
    omega

/-- An event that adds no measured call, under a clock that does not go back, keeps all frames within
their time, and a copy that is finished by it conserves time. -/
theorem AllTimely.step {w : Bench FrameClock FrameStack} (timely : AllTimely w) (e : ProfilerEvent)
    (quiet : e.isIo = false)
    (forward : w.shared.now ≤ (FrameStack.system.stepAny w e).2.shared.now) :
    AllTimely (FrameStack.system.stepAny w e).2 ∧
      ∀ copy, (FrameStack.system.stepAny w e).1 = .finished copy → copy.Conserves := by
  have none : ∀ copy : Snapshot, StackAnswer.silent = .finished copy → copy.Conserves :=
    fun copy finished => by cases finished
  cases e with
  | threshold nanos => exact ⟨timely, none⟩
  | stack e =>
    cases e with
    | clock step =>
      refine ⟨?_, none⟩
      intro s hs
      exact (timely s hs).later (UInt64.le_iff_toNat_le.mp forward)
    | pool e => exact ⟨timely, none⟩
    | fresh =>
      refine ⟨?_, none⟩
      intro s hs
      rcases List.mem_append.mp hs with old | new
      · exact timely s old
      · rw [List.mem_singleton.mp new]
        trivial
    | take k =>
      simp only [StackSystem.stepAny, StackSystem.step]
      cases member : w.members[k]? with
      | none => exact ⟨timely, none⟩
      | some s =>
        refine ⟨?_, none⟩
        intro r hr
        rcases List.mem_append.mp hr with old | new
        · rcases List.mem_or_eq_of_mem_set old with old | left
          · exact timely r old
          · rw [left]
            trivial
        · rw [List.mem_singleton.mp new]
          exact timely s (List.mem_of_getElem? member)
    | on k op =>
      simp only [StackSystem.stepAny, StackSystem.step]
      cases member : w.members[k]? with
      | none => exact ⟨timely, none⟩
      | some s =>
        rcases FrameStack.timely_apply (timely s (List.mem_of_getElem? member)) op quiet with
          ⟨next, clock, conserves⟩
        refine ⟨?_, conserves⟩
        intro r hr
        show Timely (FrameStack.apply w.shared s op).2.2.now.toNat r.frames
        rw [clock]
        rcases List.mem_or_eq_of_mem_set hr with old | new
        · exact timely r old
        · rw [new]
          exact next

/-- Timely stacks need only room for their slots to answer like their references. -/
theorem related_step {w : Bench Profiler CallStack} {w' : Bench FrameClock FrameStack}
    (rel : StackSystem.Related Profiler.Matches CallStack.Matches w w') (timely : AllTimely w')
    (room : ∀ s ∈ w.members, ∀ r ∈ s.recording, r.tree.slots.size < 2 ^ 32) (e : ProfilerEvent) :
    StackAnswer.Agree CallTree.Finishes (CallStack.system.stepAny w e).1
      (FrameStack.system.stepAny w' e).1 ∧
    StackSystem.Related Profiler.Matches CallStack.Matches (CallStack.system.stepAny w e).2
      (FrameStack.system.stepAny w' e).2 := by
  cases e with
  | threshold nanos => exact ⟨.silent, ⟨rel.1.now, rfl, rel.1.blank⟩, rel.2⟩
  | stack e =>
    apply stacks_simulate_frames.step_of e rel
    intro k op s s' hs hs' related _
    have now := timely s' (List.mem_of_getElem? hs')
    have refines := related.apply rel.1 (room s (List.mem_of_getElem? hs)) (fun f => now.fits) op
    exact ⟨refines.answer, refines.stack, refines.shared⟩

/-- In a run whose clock does not go back, every tree that is finished conserves time. -/
theorem conserved_run {w : Bench Profiler CallStack} {w' : Bench FrameClock FrameStack}
    (rel : StackSystem.Related Profiler.Matches CallStack.Matches w w') (timely : AllTimely w')
    (events : List ProfilerEvent) (quiet : ∀ e ∈ events, e.isIo = false)
    (forward : ((states CallStack.system.stepAny w events).map (·.shared.now)).Pairwise (· ≤ ·))
    (room : ∀ v ∈ states CallStack.system.stepAny w events,
      ∀ s ∈ v.members, ∀ r ∈ s.recording, r.tree.slots.size < 2 ^ 32)
    {tree : CallTree}
    (finished : tree ∈ (answers CallStack.system.stepAny w events).filterMap StackAnswer.tree?) :
    ∃ copy, tree.Finishes copy ∧ copy.Conserves := by
  induction events generalizing w w' with
  | nil => exact absurd finished (by simp [answers])
  | cons e rest ih =>
    rcases related_step rel timely (room w (List.mem_cons_self ..)) e with ⟨answer, next⟩
    rcases List.pairwise_cons.mp forward with ⟨first, later⟩
    have step : w'.shared.now ≤ (FrameStack.system.stepAny w' e).2.shared.now := by
      rw [← rel.1.now, ← next.1.now]
      apply first
      cases rest with
      | nil => exact List.mem_cons_self ..
      | cons e' rest => exact List.mem_cons_self ..
    rcases AllTimely.step timely e (quiet e (List.mem_cons_self ..)) step with ⟨timely', conserves⟩
    rcases List.mem_filterMap.mp finished with ⟨a, mem, handed⟩
    rcases List.mem_cons.mp mem with here | mem
    · -- the tree is finished by this event, and its copy by the reference
      rw [← here] at answer
      generalize (FrameStack.system.stepAny w' e).1 = b at answer conserves
      cases answer with
      | finished whole =>
        cases handed
        exact ⟨_, whole, conserves _ rfl⟩
      | _ => cases handed
    · exact ih next timely' (fun d hd => quiet d (List.mem_cons_of_mem _ hd)) later
        (fun v hv => room v (List.mem_cons_of_mem _ hv)) (List.mem_filterMap.mpr ⟨a, mem, handed⟩)

/-- In every tree that a run of call stacks finishes, however often it is trimmed, the net times of a node
and of all below it add up to its gross time, and so all net times together are the time of the tree.
Assumed: no leaves that were measured elsewhere, a clock that does not go back, and in every recording
that the run goes through, slots that can be numbered in 32 bits. -/
theorem time_is_conserved (pooling : Bool) (before : List PoolEvent) (now : Reading)
    (threshold : UInt64) (events : List ProfilerEvent) (quiet : ∀ e ∈ events, e.isIo = false)
    (forward : ((states CallStack.system.stepAny
      (CallStack.system.bench ⟨now, .used pooling before, threshold⟩) events).map
        (·.shared.now)).Pairwise (· ≤ ·))
    (room : ∀ w ∈ states CallStack.system.stepAny
      (CallStack.system.bench ⟨now, .used pooling before, threshold⟩) events,
      ∀ s ∈ w.members, ∀ r ∈ s.recording, r.tree.slots.size < 2 ^ 32)
    (tree : CallTree)
    (finished : tree ∈ (answers CallStack.system.stepAny
      (CallStack.system.bench ⟨now, .used pooling before, threshold⟩) events).filterMap
        StackAnswer.tree?)
    (pool : NodePool) (thresholds : List UInt64) :
    (∀ h n, (tree.trims pool thresholds).1.get? h = some n →
      (tree.trims pool thresholds).1.netTotal h = n.gross.toNat) ∧
    (tree.trims pool thresholds).1.netTotal (tree.trims pool thresholds).1.root =
      (tree.trims pool thresholds).1.totalTime.toNat := by
  have shared : Profiler.Matches ⟨now, .used pooling before, threshold⟩ ⟨now, threshold⟩ :=
    ⟨rfl, rfl, NodePool.allBlank_used pooling before⟩
  have start : AllTimely (FrameStack.system.bench ⟨now, threshold⟩) := by
    intro s hs
    rw [List.mem_singleton.mp hs]
    trivial
  rcases conserved_run (stacks_simulate_frames.bench shared) start events quiet forward room
    finished with ⟨copy, whole, conserves⟩
  rcases whole.trims conserves pool thresholds with ⟨kept, trimmed, exact⟩
  have each : ∀ h n, (tree.trims pool thresholds).1.get? h = some n →
      (tree.trims pool thresholds).1.netTotal h = n.gross.toNat :=
    fun h n live => CallTree.netTotal_of_conserves trimmed.wellFormed trimmed.snapshot exact live
  refine ⟨each, ?_⟩
  rcases trimmed.wellFormed.root_live with ⟨n, root, -⟩
  rw [each _ n root, CallTree.totalTime, CallTree.rootNode?, root]
  rfl

/-- A session with nested calls, two of which are too fast to be kept, a recording that moves to another
stack, and a second recording that is given up. -/
def steadySession : List ProfilerEvent :=
  [.stack (.on 0 (.activate "job")), .stack (.clock (.advance 10)), .stack (.on 0 (.start "load")),
    .stack (.on 0 (.start "brief")), .stack (.clock (.advance 3)), .stack (.on 0 (.stop none)),
    .stack (.on 0 (.start "parse")), .stack (.clock (.advance 40)), .stack (.take 0),
    .stack (.on 1 (.stop (some "parsed"))), .threshold 1, .stack (.on 0 (.activate "next")),
    .stack (.clock (.advance 2)), .stack (.on 1 (.stop none)), .stack (.on 1 (.start "late")),
    .stack (.clock (.set 60)), .stack (.on 1 (.stop none)), .stack (.on 0 .deactivate),
    .stack (.clock (.advance 9)), .stack (.on 1 (.stop none))]

/-- The session meets the assumptions and finishes one tree, which is then trimmed twice. -/
theorem steady_session_conserves_time :
    (∀ e ∈ steadySession, e.isIo = false) ∧
    ((answers CallStack.system.stepAny (CallStack.system.bench ⟨2, .used true [], 5⟩)
      steadySession).filterMap StackAnswer.tree?).length = 1 ∧
    ∀ tree ∈ (answers CallStack.system.stepAny (CallStack.system.bench ⟨2, .used true [], 5⟩)
      steadySession).filterMap StackAnswer.tree?,
      (∀ h n, (tree.trims {} [41, 7]).1.get? h = some n →
        (tree.trims {} [41, 7]).1.netTotal h = n.gross.toNat) ∧
      (tree.trims {} [41, 7]).1.netTotal (tree.trims {} [41, 7]).1.root =
        (tree.trims {} [41, 7]).1.totalTime.toNat := by
  have quiet : ∀ e ∈ steadySession, e.isIo = false := by decide
  have forward : ((states CallStack.system.stepAny
      (CallStack.system.bench ⟨2, .used true [], 5⟩) steadySession).map
        (·.shared.now)).Pairwise (· ≤ ·) := by
    decide +kernel
  have room : ∀ w ∈ states CallStack.system.stepAny
      (CallStack.system.bench ⟨2, .used true [], 5⟩) steadySession,
      ∀ s ∈ w.members, ∀ r ∈ s.recording, r.tree.slots.size < 2 ^ 32 := by
    decide +kernel
  refine ⟨quiet, by decide +kernel, ?_⟩
  intro tree finished
  exact time_is_conserved true [] 2 5 steadySession quiet forward room tree finished {} [41, 7]

/-- How a session begins in which the clock moves only once, below an open root. -/
def lateStart : List StackEvent :=
  [.on 0 (.activate "job"), .clock (.advance 5), .on 0 (.start "load")]

/-- Further calls are started one below the other, one more than there are numbers for. -/
def bottomlessSession : List ProfilerEvent :=
  (lateStart ++ (deepening (2 ^ 32 - 1) ++ [StackEvent.on 0 (.stop none)])).map .stack

/-- Neither the way down nor the end of a call moves the clock. -/
theorem lateStart_forward {w : Bench Profiler CallStack} {s : CallStack} {p : Profiler}
    (begins : ∀ v ∈ states CallStack.system.step
      (after CallStack.system.step w (lateStart.take 2)) (lateStart.drop 2), v.shared.now = p.now)
    (first : w.shared.now = 0) (second : (CallStack.system.step w lateStart[0]).2.shared.now = 0)
    (start : after CallStack.system.step w lateStart = ⟨p, [s]⟩) (k : Nat) :
    ((states CallStack.system.step w
      (lateStart ++ (deepening k ++ [.on 0 (.stop none)]))).map (·.shared.now)).Pairwise
        (· ≤ ·) := by
  have late : ∀ v ∈ states CallStack.system.step
      (after CallStack.system.step w (lateStart.take 2))
      (lateStart.drop 2 ++ (deepening k ++ [.on 0 (.stop none)])), v.shared.now = p.now := by
    have start : after CallStack.system.step
      (after CallStack.system.step w (lateStart.take 2)) (lateStart.drop 2) = ⟨p, [s]⟩ := start
    intro v visited
    rcases CallStack.mem_states_deepened start none visited with begun | ⟨j, -, rfl⟩ | rfl
    · exact begins v begun
    · exact (s.descend_goesOn p j).terms.now
    · exact ((CallStack.stopWith_goesOn _ _ none).terms.now).trans (s.descend_goesOn p k).terms.now
  have zero (x : UInt64) : 0 ≤ x := UInt64.le_iff_toNat_le.mpr (Nat.zero_le _)
  have parts : states CallStack.system.step w
      (lateStart ++ (deepening k ++ [.on 0 (.stop none)])) =
      w :: (CallStack.system.step w lateStart[0]).2 :: states CallStack.system.step
        (after CallStack.system.step w (lateStart.take 2))
        (lateStart.drop 2 ++ (deepening k ++ [.on 0 (.stop none)])) := rfl
  rw [parts, List.map_cons, List.map_cons, first, second]
  refine .cons (fun x _ => zero x) (.cons (fun x _ => zero x) ?_)
  apply List.pairwise_of_forall_mem_list
  intro x hx y hy
  rcases List.mem_map.mp hx with ⟨v, hv, rfl⟩
  rcases List.mem_map.mp hy with ⟨v', hv', rfl⟩
  rw [late v hv, late v' hv']
  exact UInt64.le_refl _

/-- Without numbers for all calls, time is not conserved: the end of the last call is the end of the
root, and of the finished tree. The caller of the last call is still open and has no duration, and yet
the root with all of its time is below it. -/
theorem bottomless_session_conserves_no_time :
    let start := CallStack.system.bench ⟨0, .used true [], 0⟩
    (∀ e ∈ bottomlessSession, e.isIo = false) ∧
    ((states CallStack.system.stepAny start bottomlessSession).map (·.shared.now)).Pairwise (· ≤ ·) ∧
    ∃ tree ∈ (answers CallStack.system.stepAny start bottomlessSession).filterMap StackAnswer.tree?,
      ∃ h n, (tree.trims {} []).1.get? h = some n ∧ n.gross.toNat = 0 ∧
        5 ≤ (tree.trims {} []).1.netTotal h := by
  obtain ⟨s, p, start, now, deep⟩ : ∃ s p,
      after CallStack.system.step (CallStack.system.bench ⟨0, .used true [], 0⟩) lateStart =
        ⟨p, [s]⟩ ∧
      p.now = 5 ∧ s.Descended p 2 { signature := "job", children := [⟨1, 0⟩] } :=
    ⟨_, _, rfl, by decide +kernel,
      CallStack.descended_of_slots rfl "load" 5 ⟨0, 0⟩ (by decide +kernel)⟩
  obtain ⟨k, last, most⟩ : ∃ k, 2 + k = 2 ^ 32 ∧ 2 ^ 32 - 1 = k + 1 := ⟨2 ^ 32 - 2, by omega, by omega⟩
  have begins : ∀ v ∈ states CallStack.system.step (after CallStack.system.step
      (CallStack.system.bench ⟨0, .used true [], 0⟩) (lateStart.take 2)) (lateStart.drop 2),
      v.shared.now = p.now := by
    rw [now]
    decide +kernel
  have quietStart : ∀ d ∈ lateStart, (ProfilerEvent.stack d).isIo = false := by decide
  have overrun := deep.descend_over k last
  have still := (s.descend_goesOn p (k + 1)).terms.now.trans now
  dsimp only
  rw [bottomlessSession, most, states_map fun _ _ => rfl, answers_map fun _ _ => rfl]
  refine ⟨?_, lateStart_forward begins (by decide +kernel) (by decide +kernel) start (k + 1), ?_⟩
  · intro e he
    rcases List.mem_map.mp he with ⟨d, hd, rfl⟩
    rcases List.mem_append.mp hd with hd | hd
    · exact quietStart d hd
    rcases List.mem_append.mp hd with deeper | ended
    · rw [List.eq_of_mem_replicate deeper]
      rfl
    · rw [List.mem_singleton.mp ended]
      rfl
  · rcases overrun.stop rfl with ⟨tree, finished, -, torn⟩
    rcases torn.caller with ⟨h, n, live, children, -, brief⟩
    have answer := CallStack.getLast?_answers_deepened start (k + 1) none
    rw [finished] at answer
    refine ⟨tree, List.mem_filterMap.mpr ⟨_, List.mem_of_getLast? answer, rfl⟩, h, n, live, ?_, ?_⟩
    · rw [brief]
      rfl
    -- the visit of the caller comes to the root next, which has taken all the time
    · obtain ⟨fuel, enough⟩ : ∃ fuel, tree.slots.size = fuel + 2 := ⟨2 ^ 32 - 1, torn.size⟩
      have net : 5 ≤ (CallNode.closedAt { signature := "job", children := [⟨1, 0⟩] }
          (s.descend p (k + 1)).2.now none).net.toNat := by
        rw [still]
        decide +kernel
      show 5 ≤ tree.netTotal h
      unfold CallTree.netTotal CallTree.preorder
      simp only [enough, CallTree.visit, live, children, List.cons_append,
        List.nil_append, torn.ended, List.filterMap_cons, List.map_cons, List.sum_cons]
      omega

end CallProfiler
