import CallProfiler.Proofs.Monitor.Deliveries
import CallProfiler.Proofs.Monitor.Indifference
import CallProfiler.Proofs.Stack.Balance
import CallProfiler.Proofs.Stack.Overflow
import CallProfiler.Proofs.Tree.History

/-!
# Proofs.Script.Leftovers: what a program leaves behind

`Tidy` is the invariant of everything that runs on a stack: the stack stays upright, no node is lost,
no recording outlives the execution that began it, and every tree that is offered to a reporter is
finished. A monitored execution keeps it if its work does (`Monitor.execute_tidy`), and so does every
program that begins no recording of its own (`Script.exec_tidy`, by induction over nested programs).

`execution_leaves_nothing` is what remains of it for an execution that is entered with an inactive
stack: afterwards the stack is inactive again, and no node is in use that was not in use before.
-/

namespace CallProfiler

/-- The tree of a report, if there is one, is finished. -/
def ExecutionReport.Finished (report : ExecutionReport) : Prop :=
  ∀ t, report.tree = some t → t.Complete

/-- Something has run on a stack and has left it in order. -/
structure Tidy (s : CallStack) (m : Monitor) (s' : CallStack) (m' : Monitor) : Prop where
  keeps : CallStack.Keeps s m.profiler s' m'.profiler
  serves : m.Serves ExecutionReport.Finished m'

variable {s s' s'' : CallStack} {m m' m'' : Monitor}

/-- Nothing has run, so everything is in order. -/
theorem Tidy.refl (upright : s.Upright) (blank : m.profiler.pool.AllBlank) : Tidy s m s m :=
  ⟨.refl upright blank, .refl m⟩

/-- What runs after something else leaves the whole in order. -/
theorem Tidy.trans (h : Tidy s m s' m') (h' : Tidy s' m' s'' m'') : Tidy s m s'' m'' :=
  ⟨h.keeps.trans h'.keeps, h.serves.trans h'.serves⟩

/-- To trace a step leaves everything as the step has left it. -/
theorem Tidy.stepped (h : Tidy s m s' m') (label : String) (answer : Answer)
    (stack : Option CallStack) : Tidy s m s' (m'.stepped label answer stack) :=
  ⟨h.keeps, h.serves.trans (.stepped m' label answer stack)⟩

/-- A move on the stack offers no tree to anybody. -/
theorem Tidy.moved {p : Profiler} (h : CallStack.Keeps s m.profiler s' p) (label : String)
    (answer : Answer) (stack : Option CallStack) :
    Tidy s m s' (({ m with profiler := p } : Monitor).stepped label answer stack) :=
  ⟨h, .moved ..⟩

namespace Monitor

/-! ## The lifecycle -/

theorem runHook_profiler (m : Monitor) (hook : Hook) (info : ExecutionInfo) :
    (m.runHook hook info).profiler = m.profiler :=
  congrArg Outline.profiler (outline_runHook m hook info)

theorem recordMetrics_profiler (m : Monitor) (info : ExecutionInfo) :
    (m.recordMetrics info).profiler = m.profiler :=
  congrArg Outline.profiler (outline_recordMetrics m info)

theorem publish_profiler (m : Monitor) (report : ExecutionReport) :
    (m.publish report).profiler = m.profiler := by
  refine (congrArg Outline.profiler (outline_publish m report)).trans ?_
  unfold Outline.publish
  split <;> rfl

/-- A finished tree stays finished when its fast calls are removed, and their nodes go to the pool
blank. -/
theorem trim_complete {tree : CallTree} (done : tree.Complete) (blank : m.profiler.pool.AllBlank) :
    (m.trim tree).1.Complete ∧ (m.trim tree).2.profiler.pool.AllBlank ∧
    m.profiler.pool.Balanced tree.size (m.trim tree).2.profiler.pool (m.trim tree).1.size := by
  unfold trim
  dsimp only
  split
  · exact ⟨done, blank, .refl _ _⟩
  · have ok := done.wellFormed
    exact ⟨done.removeCallsFasterThan _ _,
      (CallTree.removeCallsFasterThan_spec ok.toSlotted ok.toLinked _ _).2.2.1 blank,
      (CallTree.gave_removeCallsFasterThan _ _ _ ok.toSlotted.counted).2.balanced⟩

/-- A tree that is reported is finished: its root has been closed, and every call below it. -/
theorem reportedTree_complete {stack : CallStack} (upright : stack.Upright)
    (blank : m.profiler.pool.AllBlank) (mode : Mode) {t : CallTree}
    (reported : m.reportedTree stack mode = some t) : t.Complete := by
  unfold reportedTree at reported
  split at reported
  · rcases CallStack.closeRoot_closes upright blank with ⟨-, blank', done, -⟩
    rcases Option.map_eq_some_iff.mp reported with ⟨closed, h, rfl⟩
    exact (trim_complete (m := { m with profiler := (stack.closeRoot m.profiler).2.2 })
      (done closed h) blank').1
  · exact absurd reported (by simp)

/-- The end of a nested execution unwinds its stack, which loses no node. -/
theorem finish_nested {stack : CallStack} (upright : stack.Upright)
    (blank : m.profiler.pool.AllBlank) (depth : Nat) (forwardable : Bool) (info : ExecutionInfo) :
    CallStack.Keeps stack m.profiler (m.finish stack (.nested depth forwardable) info).1
      (m.finish stack (.nested depth forwardable) info).2.profiler := by
  have kept := CallStack.unwindTo_keeps upright blank depth
  cases forwardable with
  | false => exact kept
  | true =>
    have same := recordMetrics_profiler { m with profiler := (stack.unwindTo m.profiler depth).2 } info
    unfold finish
    dsimp only
    rw [if_pos rfl, same]
    exact kept

/-- The end of an execution without a recording does not touch the stack or the pool. -/
theorem finish_unrecorded (m : Monitor) (stack : CallStack) (info : ExecutionInfo) :
    (m.finish stack (.topLevel false) info).1 = stack ∧
    (m.finish stack (.topLevel false) info).2.profiler = m.profiler :=
  ⟨rfl, (publish_profiler _ _).trans (recordMetrics_profiler m info)⟩

/-- The recording of a top-level execution ends with it, and its nodes come back to the pool when all
reporters have seen the tree. -/
theorem finish_recorded {stack : CallStack} (upright : stack.Upright)
    (blank : m.profiler.pool.AllBlank) (info : ExecutionInfo) :
    let finished := m.finish stack (.topLevel true) info
    finished.1.recording = none ∧ finished.2.profiler.pool.AllBlank ∧
    m.profiler.pool.Balanced stack.nodes finished.2.profiler.pool 0 := by
  rcases CallStack.closeRoot_closes upright blank with ⟨idle, blank', done, balanced⟩
  have counted := recordMetrics_profiler
    { m with profiler := (stack.closeRoot m.profiler).2.2 } info
  unfold finish
  dsimp only
  rw [if_pos rfl]
  cases closed : (stack.closeRoot m.profiler).1 with
  | none =>
    rw [closed] at balanced
    dsimp only
    rw [publish_profiler, counted]
    exact ⟨idle, blank', balanced⟩
  | some t =>
    rw [closed] at balanced
    have waiting : (({ m with profiler := (stack.closeRoot m.profiler).2.2 } : Monitor).recordMetrics
        info).profiler.pool.AllBlank := by
      rw [counted]
      exact blank'
    rcases trim_complete (done t closed) waiting with ⟨trimmed, blank'', given⟩
    dsimp only
    rw [publish_profiler]
    refine ⟨idle, CallTree.allBlank_recycle _ blank'', ?_⟩
    rw [counted] at given
    exact (balanced.trans given).trans
      (CallTree.balanced_recycle trimmed.wellFormed.toSlotted _)

/-- The same for everything that is done at the end, the hook included. -/
theorem conclude_unrecorded (m : Monitor) (stack : CallStack) (e : Execution) (started : Reading)
    (failure : Option String) :
    (m.conclude stack (.topLevel false) e started failure).1 = stack ∧
    (m.conclude stack (.topLevel false) e started failure).2.profiler = m.profiler := by
  rw [← runHook_profiler m e.hook (m.infoOf e started failure)]
  exact finish_unrecorded _ stack (m.infoOf e started failure)

section Conclude

variable {stack : CallStack} (upright : stack.Upright) (blank : m.profiler.pool.AllBlank)
  (e : Execution) (started : Reading) (failure : Option String)

include upright blank

/-- At the end of an execution only finished trees are offered to reporters. -/
theorem conclude_serves (mode : Mode) :
    m.Serves ExecutionReport.Finished (m.conclude stack mode e started failure).2 :=
  (conclude_follows m stack mode e started failure
    fun _ reported => reportedTree_complete upright blank mode reported).serves

/-- The same as `finish_nested` for everything that is done at the end. -/
theorem conclude_nested (depth : Nat) (forwardable : Bool) :
    CallStack.Keeps stack m.profiler
      (m.conclude stack (.nested depth forwardable) e started failure).1
      (m.conclude stack (.nested depth forwardable) e started failure).2.profiler := by
  have hooked := runHook_profiler m e.hook (m.infoOf e started failure)
  rw [← hooked] at blank ⊢
  exact finish_nested upright blank depth forwardable (m.infoOf e started failure)

/-- When a recorded execution has ended, the stack is idle and all its nodes are back in the pool. -/
theorem conclude_recorded :
    let concluded := m.conclude stack (.topLevel true) e started failure
    concluded.1.recording = none ∧ concluded.2.profiler.pool.AllBlank ∧
    m.profiler.pool.Balanced stack.nodes concluded.2.profiler.pool 0 := by
  have hooked := runHook_profiler m e.hook (m.infoOf e started failure)
  rw [← hooked] at blank ⊢
  exact finish_recorded upright blank (m.infoOf e started failure)

end Conclude

section Opened

variable {stack opened left : CallStack} {e : Execution} {mode : Mode} {ready ended : Monitor}
  (prepared : m.Prepared stack e (mode, opened, ready)) (upright : stack.Upright)
  (blank : m.profiler.pool.AllBlank) (room : stack.HasRoom)

include prepared

/-- An execution that is not monitored leaves what its work leaves. -/
theorem Prepared.bare_keeps (bare : mode = .bare)
    (worked : CallStack.Keeps opened ready.profiler left ended.profiler) :
    CallStack.Keeps stack m.profiler left ended.profiler := by
  cases prepared with
  | bare policy => exact worked
  | _ => exact absurd bare (by simp)

include upright blank room

/-- The work of an execution begins on a stack in order. -/
theorem Prepared.opened_upright : opened.Upright ∧ ready.profiler.pool.AllBlank := by
  cases prepared with
  | bare policy => exact ⟨upright, blank⟩
  | nested active =>
    have opened := CallStack.start_keeps upright blank room e.name
    exact ⟨opened.upright, opened.blank⟩
  | unrecorded idle policy => exact ⟨upright, blank⟩
  | recorded idle policy =>
    rcases CallStack.activate_upright idle blank e.name with ⟨upright', blank', -⟩
    exact ⟨upright', blank'⟩

/-- What was opened before the work is closed after it. -/
theorem Prepared.concluded (monitored : mode ≠ .bare)
    (worked : CallStack.Keeps opened ready.profiler left ended.profiler) (started : Reading) (failure : Option String) :
    CallStack.Keeps stack m.profiler (ended.conclude left mode e started failure).1
      (ended.conclude left mode e started failure).2.profiler := by
  cases prepared with
  | bare policy => exact absurd rfl monitored
  | nested active =>
    have opened := CallStack.start_keeps upright blank room e.name
    have closed := conclude_nested worked.upright worked.blank e started failure stack.depth
      e.forwardable
    exact (opened.trans worked).trans closed
  | unrecorded idle policy =>
    rcases conclude_unrecorded ended left e started failure with ⟨sameStack, sameProfiler⟩
    rw [sameStack, sameProfiler]
    exact worked
  -- the work may have ended the recording itself, and then there is nothing to close
  | recorded idle policy =>
    rcases CallStack.activate_upright idle blank e.name with ⟨-, -, begun⟩
    rcases conclude_recorded worked.upright worked.blank e started failure with
      ⟨idle', blank', given⟩
    refine ⟨CallStack.upright_of_idle idle', blank', ?_,
      fun _ => CallStack.isActive_eq_false.mpr idle'⟩
    rw [CallStack.nodes_of_idle idle']
    exact (begun.trans worked.balanced).trans given

end Opened

/-- Monitoring leaves a stack in order if the work does. -/
theorem execute_tidy {ε α : Type} (describe : ε → String) (e : Execution)
    (work : CallStack → Monitor → Outcome ε α × CallStack × Monitor) {stack : CallStack}
    (upright : stack.Upright) (blank : m.profiler.pool.AllBlank) (room : stack.HasRoom)
    (tidy : (m.prepare stack e).2.1.Upright → (m.prepare stack e).2.2.profiler.pool.AllBlank →
      Tidy (m.prepare stack e).2.1 (m.prepare stack e).2.2
        (work (m.prepare stack e).2.1 (m.prepare stack e).2.2).2.1
        (work (m.prepare stack e).2.1 (m.prepare stack e).2.2).2.2) :
    Tidy stack m (execute describe e work stack m).2.1 (execute describe e work stack m).2.2 := by
  have prepared := prepare_cases m stack e
  have before := (prepare_follows (R := ExecutionReport.Finished) m stack e).serves
  rcases prepared.opened_upright upright blank room with ⟨upright', blank'⟩
  have worked := tidy upright' blank'
  unfold execute
  dsimp only
  split
  next bare => exact ⟨prepared.bare_keeps bare worked.keeps, before.trans worked.serves⟩
  next monitored =>
    exact ⟨prepared.concluded upright blank room monitored worked.keeps _ _,
      (before.trans worked.serves).trans
        (conclude_serves worked.keeps.upright worked.keeps.blank _ _ _ _)⟩

end Monitor

/-! ## Programs -/

/-- Every move but the beginning of a recording keeps a stack upright and loses no node, as long as
there is room for one slot more. -/
theorem StackMove.apply_keeps {p : Profiler} (upright : s.Upright) (blank : p.pool.AllBlank)
    (room : s.HasRoom) (step : StackMove) (plain : ∀ signature, step ≠ .activate signature) :
    CallStack.Keeps s p (step.apply s p).2.1 (step.apply s p).2.2 := by
  cases step with
  | activate signature => exact absurd rfl (plain signature)
  | start signature => exact CallStack.start_keeps upright blank room signature
  | stop => exact (CallStack.stopWith_stopped upright blank none).recycled
  | stopAs signature => exact (CallStack.stopWith_stopped upright blank (some signature)).recycled
  | rename signature => exact CallStack.setCurrentSignature_keeps upright blank signature
  | io description duration =>
    exact CallStack.addIoCall_keeps upright blank room description duration
  | deactivate => exact CallStack.deactivate_keeps upright blank
  | showTree => exact .refl upright blank
  | render ascii => exact .refl upright blank
  | showState => exact .refl upright blank

/-- A reload does not touch the pool. -/
theorem Monitor.reload_pool (m : Monitor) (next : ProfilerConfig) :
    (m.reload next).2.profiler.pool = m.profiler.pool := by
  unfold reload reconfigure
  cases next.validate with
  | error e => rfl
  | ok _ =>
    dsimp only
    rcases m.config.replace next with ⟨result, config⟩
    cases result with
    | error e => rfl
    | ok _ =>
      dsimp only
      split <;> rfl

/-- No step on the monitor touches the pool. -/
theorem MonitorMove.apply_pool (step : MonitorMove) (m : Monitor) :
    (step.apply m).2.profiler.pool = m.profiler.pool := by
  cases step with
  | reload next =>
    rw [apply_reload]
    exact m.reload_pool next
  | countError name => rfl
  | _ => rfl

/-- A step on the monitor leaves everything in order. -/
theorem MonitorMove.apply_tidy (step : MonitorMove) (upright : s.Upright)
    (blank : m.profiler.pool.AllBlank) : Tidy s m s (step.apply m).2 := by
  have same := step.apply_pool m
  refine ⟨⟨upright, by rw [same]; exact blank, ?_, id⟩, (step.apply_follows m).serves⟩
  rw [same]
  exact .refl _ _

namespace Script

/-- Whether a program begins a recording itself. -/
def activates : Script → Bool
  | .done => false
  | .move (.activate _) _ => true
  | .move _ next => next.activates
  | .monitor _ next => next.activates
  | .scope _ body next => body.activates || next.activates
  | .protect body next => body.activates || next.activates
  | .raise _ => false
  | .run _ body _ next => body.activates || next.activates

/-- The stack at each step of a program, in nested executions as well. -/
def visited : Script → CallStack → Monitor → List CallStack
  | .done, s, _ => [s]
  | .move step next, s, m =>
    let (answer, s', profiler) := step.apply s m.profiler
    s :: next.visited s' ({ m with profiler := profiler }.stepped step.label answer (some s'))
  | .monitor step next, s, m =>
    let (answer, m) := step.apply m
    s :: next.visited s (m.stepped step.label answer (some s))
  | .scope signature body next, s, m =>
    let (armed, s', profiler) := s.enter m.profiler signature
    let m := { m with profiler := profiler }.stepped "scope" .nothing (some s')
    let inside := body.visited s' m
    let (result, s', m) := body.exec s' m
    let (s', profiler) := s'.leave m.profiler armed
    let m := { m with profiler := profiler }
    s :: (inside ++ match result with
      | .error _ => []
      | .ok _ => next.visited s' (m.stepped "scope_end" .nothing (some s')))
  | .protect body next, s, m =>
    let inside := body.visited s m
    let (result, s, m) := body.exec s m
    inside ++ next.visited s (m.stepped "catch" (caughtAnswer result) (some s))
  | .raise _, s, _ => [s]
  | .run e body ending next, s, m =>
    let (_, opened, ready) := m.prepare s e
    let inside := body.visited opened (ready.stepped "work" (.name e.name) (some opened))
    let (outcome, s', m) := Monitor.execute id e (body.work e.name ending) s m
    s :: (inside ++ match outcome with
      | .panicked _ => []
      | outcome => next.visited s' (m.stepped "run" (.outcome outcome) (some s')))

/-- A program that begins no recording does so neither in its first move nor later. -/
theorem activates_move {step : StackMove} {next : Script}
    (plain : (Script.move step next).activates = false) :
    (∀ signature, step ≠ .activate signature) ∧ next.activates = false := by
  cases step <;> simp_all [activates]

/-- A monitored execution leaves its stack in order if its body does. -/
theorem execute_work_tidy {body : Script} (e : Execution) (ending : Outcome String String)
    (next : Script) (upright : s.Upright) (blank : m.profiler.pool.AllBlank)
    (room : ∀ v ∈ (Script.run e body ending next).visited s m, v.HasRoom)
    (tidy : ∀ {s m}, s.Upright → m.profiler.pool.AllBlank → (∀ v ∈ body.visited s m, v.HasRoom) →
      Tidy s m (body.exec s m).2.1 (body.exec s m).2.2) :
    Tidy s m (Monitor.execute id e (body.work e.name ending) s m).2.1
      (Monitor.execute id e (body.work e.name ending) s m).2.2 := by
  rcases List.forall_mem_cons.mp room with ⟨here, room⟩
  have inside := (List.forall_mem_append.mp room).1
  apply Monitor.execute_tidy id e (body.work e.name ending) upright blank here
  intro upright' blank'
  have begun := (Tidy.refl upright' blank').stepped "work" (.name e.name)
    (some (m.prepare s e).2.1)
  exact begun.trans (tidy begun.keeps.upright begun.keeps.blank inside)

/-- Every program that begins no recording of its own leaves its stack in order. The induction is on
the program, at any stack and monitor: a nested execution may find its stack active or not. -/
theorem exec_tidy (program : Script) (plain : program.activates = false) (upright : s.Upright)
    (blank : m.profiler.pool.AllBlank) (room : ∀ v ∈ program.visited s m, v.HasRoom) :
    Tidy s m (program.exec s m).2.1 (program.exec s m).2.2 := by
  induction program generalizing s m with
  | done => exact .refl upright blank
  | move step next ih =>
    rcases activates_move plain with ⟨quiet, plain⟩
    rcases List.forall_mem_cons.mp room with ⟨here, room⟩
    have moved := Tidy.moved (step.apply_keeps upright blank here quiet) step.label
      (step.apply s m.profiler).1 (some (step.apply s m.profiler).2.1)
    exact moved.trans (ih plain moved.keeps.upright moved.keeps.blank room)
  | monitor step next ih =>
    rcases List.forall_mem_cons.mp room with ⟨-, room⟩
    have made := (step.apply_tidy upright blank).stepped step.label (step.apply m).1 (some s)
    exact made.trans (ih plain made.keeps.upright made.keeps.blank room)
  | scope signature body next ihBody ihNext =>
    rcases Bool.or_eq_false_iff.mp plain with ⟨plainBody, plainNext⟩
    unfold visited at room
    unfold exec
    rcases he : s.enter m.profiler signature with ⟨armed, entered, p⟩
    rw [he] at room
    rcases hb : body.exec entered (({ m with profiler := p } : Monitor).stepped "scope" .nothing
      (some entered)) with ⟨result, left, ended⟩
    dsimp only at room ⊢
    rw [hb] at room ⊢
    dsimp only at room ⊢
    rcases List.forall_mem_cons.mp room with ⟨here, room⟩
    rcases List.forall_mem_append.mp room with ⟨inside, rest⟩
    have opened := CallStack.enter_keeps upright blank here signature
    rw [he] at opened
    have inner := (Tidy.moved opened "scope" .nothing (some entered)).trans
      (ihBody plainBody opened.upright opened.blank inside)
    rw [hb] at inner
    -- the guard ends the innermost call, whichever that is by now
    have closed := CallStack.leave_keeps inner.keeps.upright inner.keeps.blank armed
    cases result with
    | error payload => exact inner.trans ⟨closed, .refl _⟩
    | ok _ =>
      have after := inner.trans (.moved closed "scope_end" .nothing
        (some (left.leave ended.profiler armed).1))
      exact after.trans (ihNext plainNext after.keeps.upright after.keeps.blank rest)
  | protect body next ihBody ihNext =>
    rcases Bool.or_eq_false_iff.mp plain with ⟨plainBody, plainNext⟩
    rcases List.forall_mem_append.mp room with ⟨roomBody, roomNext⟩
    have inner := (ihBody plainBody upright blank roomBody).stepped "catch"
      (caughtAnswer (body.exec s m).1) (some (body.exec s m).2.1)
    exact inner.trans (ihNext plainNext inner.keeps.upright inner.keeps.blank roomNext)
  | raise payload => exact .refl upright blank
  | run e body ending next ihBody ihNext =>
    rcases Bool.or_eq_false_iff.mp plain with ⟨plainBody, plainNext⟩
    have done := execute_work_tidy e ending next upright blank room
      fun upright' blank' => ihBody plainBody upright' blank'
    unfold visited at room
    rw [exec_run]
    rcases hr : Monitor.execute id e (body.work e.name ending) s m with ⟨outcome, left, ended⟩
    rw [hr] at room done
    have rest := (List.forall_mem_append.mp (List.forall_mem_cons.mp room).2).2
    have after := done.stepped "run" (.outcome outcome) (some left)
    cases outcome with
    | panicked payload => exact done
    | ok value =>
      exact after.trans (ihNext plainNext after.keeps.upright after.keeps.blank rest)
    | error error =>
      exact after.trans (ihNext plainNext after.keeps.upright after.keeps.blank rest)

end Script

/-! ## Top-level executions -/

/-- After an execution that is entered with an inactive stack, however its work ends, the stack is
inactive again, and as many nodes are in use as before: those that the pool has made since wait in it.
In the trees that were offered to reporters meanwhile, also by nested executions, all calls have
ended. Assumed: the work starts no recording by itself, and no recording that is gone through has more
slots than can be numbered in 32 bits. -/
theorem execution_leaves_nothing (pooling : Bool) (before : List PoolEvent) (m : Monitor)
    (pool : m.profiler.pool = .used pooling before) (stack : CallStack)
    (inactive : stack.isActive = false) (e : Execution) (body : Script)
    (ending : Outcome String String) (plain : body.activates = false)
    (room : ∀ v ∈ (Script.run e body ending .done).visited stack m, v.HasRoom) :
    let result := Monitor.execute id e (body.work e.name ending) stack m
    result.2.1.isActive = false ∧
    (∃ added, result.2.2.journal.toList = m.journal.toList ++ added ∧
      ∀ entry ∈ added, ∀ report tree, entry.report? = some report → report.tree = some tree →
        ∀ h n, tree.get? h = some n → n.closed = true) ∧
    (m.profiler.pool.enabled = true →
      result.2.2.profiler.pool.outstanding = m.profiler.pool.outstanding ∧
      ∃ made : Nat,
        result.2.2.profiler.pool.allocated = m.profiler.pool.allocated + UInt64.ofNat made ∧
        result.2.2.profiler.pool.available = m.profiler.pool.available + made) := by
  have idle := CallStack.isActive_eq_false.mp inactive
  have blank : m.profiler.pool.AllBlank := by
    rw [pool]
    exact NodePool.allBlank_used pooling before
  have tidy := Script.execute_work_tidy e ending .done (CallStack.upright_of_idle idle) blank room
    fun upright blank room => body.exec_tidy plain upright blank room
  have inactive' := tidy.keeps.idle inactive
  have balanced := tidy.keeps.balanced
  rw [CallStack.nodes_of_idle idle,
    CallStack.nodes_of_idle (CallStack.isActive_eq_false.mp inactive')] at balanced
  obtain ⟨added, journal, served⟩ := tidy.serves
  refine ⟨inactive', ⟨added, journal, ?_⟩, fun on => ⟨balanced.outstanding_eq on, ?_⟩⟩
  · intro entry hm report tree offered shown
    exact (served.report entry hm report offered tree shown).closed
  · exact balanced.nodes on

/-- Work that leaves calls open, panics below an open guard, stops the root of its own execution, and
panics in a further execution, which is a top-level one by then. -/
def untidyWork : Script :=
  .move (.start "load") <| .monitor (.clock (.advance 5)) <|
  .protect
    (.scope "guard" (.move (.start "leak") <| .move (.io "disk" 7) <| .raise (.text "broken")) .done) <|
  .run { name := "child", forwardable := true } (.move (.start "open") .done) (.error "refused") <|
  .move .stop <| .move .stop <| .move .stop <|
  .run { name := "again", hook := .panicking } (.move (.start "late") <| .raise (.number 3)) (.ok "")
  .done

/-- An execution whose work leaves the most to do. -/
def untidyJob : Execution := { name := "job" }

/-- A monitor that records every execution and shows it in the log. -/
def watchful : Monitor := (Monitor.start { groupInterval := some 1 } .inMemory 0).addReporter .log

theorem untidy_work_leaves_nothing :
    (untidyWork.activates = false ∧
      ∀ v ∈ (Script.run untidyJob untidyWork (.ok "") .done).visited {} watchful, v.HasRoom) ∧
    let result :=
      Monitor.execute id untidyJob (untidyWork.work untidyJob.name (.ok "")) {} watchful
    result.2.1.isActive = false ∧
    result.2.2.profiler.pool.outstanding = watchful.profiler.pool.outstanding := by
  have room : ∀ v ∈ (Script.run untidyJob untidyWork (.ok "") .done).visited {} watchful,
      ∀ r ∈ v.recording, r.tree.slots.size < 2 ^ 32 := by
    decide +kernel
  rcases execution_leaves_nothing true [] watchful rfl {} rfl untidyJob untidyWork (.ok "") rfl room
    with ⟨inactive, -, balanced⟩
  exact ⟨⟨rfl, room⟩, inactive, (balanced rfl).1⟩

/-! ### More calls than handles -/

/-- Work that starts calls one below the other. -/
def Script.descent : Nat → Script
  | 0 => .done
  | k + 1 => .move (.start "deeper") (descent k)

/-- Such work takes the stack down, and leaves alone what the end of an execution depends on. -/
theorem Script.exec_descent (k : Nat) (s : CallStack) (m : Monitor) : ∃ ended : Monitor,
    (descent k).exec s m = (.ok (), (s.descend m.profiler k).1, ended) ∧
    ended.profiler = (s.descend m.profiler k).2 ∧ ended.policy = m.policy ∧
    ended.config = m.config ∧ ended.reporters = m.reporters := by
  induction k generalizing s m with
  | zero => exact ⟨m, rfl, rfl, rfl, rfl, rfl⟩
  | succ k ih => exact ih _ _

/-- A descent starts calls and begins no recording. -/
theorem Script.activates_descent (k : Nat) : (descent k).activates = false := by
  induction k with
  | zero => rfl
  | succ k ih => exact ih

/-- A reporter that takes every report. -/
def Reporter.keeper : Reporter where
  name := "keeper"
  gate := fun _ _ _ => .wanted
  deliver := fun _ _ _ => ([], .accepted)

/-- A monitor that records every execution and reports it to a reporter that takes every report. -/
def keeping : Monitor := (Monitor.start { groupInterval := some 1 } .inMemory 0).addReporter .keeper

namespace Monitor

/-- The tree that ends with the root is closed by one step, and reported as it is. -/
theorem reportedTree_overrun {rn : CallNode} (m : Monitor) (overrun : s.Overrun m.profiler rn)
    (noParent : rn.parent = none) (whole : m.config.minExecutionTimePercent ≤ 0.0) :
    ∃ tree, m.reportedTree s (.topLevel true) = some tree ∧
      ∃ h n, tree.get? h = some n ∧ n.closed = false := by
  rcases overrun.closeRoot noParent with ⟨tree, closed, torn⟩
  rcases torn.caller with ⟨h, n, live, -, isOpen, -⟩
  refine ⟨tree, ?_, h, n, live, isOpen⟩
  unfold reportedTree trim
  simp only [closed, Option.map_some, whole, if_true]

/-- An execution whose stack is back at its root reports a tree with an open call. -/
theorem conclude_overrun {rn : CallNode} (m : Monitor) (overrun : s.Overrun m.profiler rn)
    (noParent : rn.parent = none) (whole : m.config.minExecutionTimePercent ≤ 0.0) (e : Execution)
    (admitted : (m.policy.shouldReport m.now e.operationType).1 = true) {name : String}
    (reporter : name ∈ m.reporters.map (·.name)) (started : Reading) (failure : Option String) :
    ∃ entry ∈ (m.conclude s (.topLevel true) e started failure).2.journal.toList, ∃ report tree,
      entry.report? = some report ∧ report.tree = some tree ∧
      ∃ h n, tree.get? h = some n ∧ n.closed = false := by
  rcases reportedTree_overrun m overrun noParent whole with ⟨tree, reported, isOpen⟩
  have offers : m.outline.offers ⟨m.infoOf e started failure, some tree⟩ =
      (m.reporters.map (·.name)).map fun name =>
        .gate name ⟨m.infoOf e started failure, some tree⟩ := if_pos admitted
  have asked : Call.gate name ⟨m.infoOf e started failure, some tree⟩ ∈
      (m.conclude s (.topLevel true) e started failure).2.calls := by
    rw [conclude_calls, finishCalls, reported, offers]
    refine List.mem_append_right _ (List.mem_append_right _ (List.mem_append_right _ ?_))
    exact List.mem_map.mpr ⟨name, reporter, rfl⟩
  rcases List.mem_filterMap.mp asked with ⟨entry, mem, call⟩
  cases entry with
  | gate _ report _ =>
    cases call
    exact ⟨_, mem, _, tree, rfl, rfl, isOpen⟩
  | _ => cases call

end Monitor

/-- An execution of work that goes down until it is back at the root. -/
theorem Monitor.execute_descent {m opened : Monitor} {e : Execution} {rn : CallNode} {k : Nat}
    (prepared : m.prepare {} e = (.topLevel true, s, opened))
    (begun : (s.start opened.profiler "deeper").1.Descended (s.start opened.profiler "deeper").2 2 rn)
    (last : 2 + k = 2 ^ 32) (noParent : rn.parent = none)
    (whole : opened.config.minExecutionTimePercent ≤ 0.0)
    (admitted : (opened.policy.shouldReport opened.now e.operationType).1 = true) {name : String}
    (reporter : name ∈ opened.reporters.map (·.name)) :
    ∃ entry ∈ (Monitor.execute id e ((Script.descent (k + 1 + 1)).work e.name (.ok "")) {}
      m).2.2.journal.toList, ∃ report tree, entry.report? = some report ∧
      report.tree = some tree ∧ ∃ h n, tree.get? h = some n ∧ n.closed = false := by
  rcases Script.exec_descent (k + 1 + 1) s (opened.stepped "work" (.name e.name) (some s)) with
    ⟨ended, ran, profiler, policy, config, reporters⟩
  have overrun : (s.descend opened.profiler (k + 1 + 1)).1.Overrun ended.profiler rn := by
    rw [profiler]
    exact begun.descend_over k last
  have now : ended.now = opened.now :=
    (congrArg (·.now) profiler).trans (s.descend_goesOn opened.profiler (k + 1 + 1)).terms.now
  have admitted : (ended.policy.shouldReport ended.now e.operationType).1 = true := by
    rw [policy, now]
    exact admitted
  have whole : ended.config.minExecutionTimePercent ≤ 0.0 := by
    rw [config]
    exact whole
  have reporter : name ∈ ended.reporters.map (·.name) := by
    rw [reporters]
    exact reporter
  unfold Monitor.execute Script.work
  rw [prepared]
  dsimp only
  rw [if_neg (by decide), ran]
  exact Monitor.conclude_overrun ended overrun noParent whole e admitted reporter opened.now _

/-- Without numbers for all calls, a tree with an open call is reported: the last call of the work is the
root, and its end is the end of the tree. -/
theorem bottomless_work_leaves_calls_open :
    (Script.descent (2 ^ 32)).activates = false ∧
    ∃ entry ∈ (Monitor.execute id untidyJob ((Script.descent (2 ^ 32)).work untidyJob.name (.ok ""))
      {} keeping).2.2.journal.toList, ∃ report tree, entry.report? = some report ∧
      report.tree = some tree ∧ ∃ h n, tree.get? h = some n ∧ n.closed = false := by
  have mode : (keeping.prepare {} untidyJob).1 = .topLevel true := by decide +kernel
  have begun : ((keeping.prepare {} untidyJob).2.1.start
      (keeping.prepare {} untidyJob).2.2.profiler "deeper").1.Descended
      ((keeping.prepare {} untidyJob).2.1.start
        (keeping.prepare {} untidyJob).2.2.profiler "deeper").2 2
      { signature := "job", children := [⟨1, 0⟩] } :=
    CallStack.descended_of_slots (r := ⟨⟨#[⟨0, some { signature := "job", children := [⟨1, 0⟩] }⟩,
      ⟨0, some { signature := "deeper", parent := some ⟨0, 0⟩ }⟩], [], ⟨0, 0⟩⟩, ⟨1, 0⟩⟩)
      (by decide +kernel) "deeper" 0 ⟨0, 0⟩ (by decide +kernel)
  have whole : (keeping.prepare {} untidyJob).2.2.config.minExecutionTimePercent ≤ 0.0 := by
    decide +kernel
  have admitted : ((keeping.prepare {} untidyJob).2.2.policy.shouldReport
      (keeping.prepare {} untidyJob).2.2.now untidyJob.operationType).1 = true := by
    decide +kernel
  have keeper : "keeper" ∈ (keeping.prepare {} untidyJob).2.2.reporters.map (·.name) := by
    decide +kernel
  obtain ⟨k, last, most⟩ : ∃ k, 2 + k = 2 ^ 32 ∧ 2 ^ 32 = k + 1 + 1 := ⟨2 ^ 32 - 2, by omega, by omega⟩
  rw [most]
  have prepared : keeping.prepare {} untidyJob = (.topLevel true,
      (keeping.prepare {} untidyJob).2.1, (keeping.prepare {} untidyJob).2.2) :=
    Prod.ext mode rfl
  exact ⟨Script.activates_descent _,
    Monitor.execute_descent prepared begun last rfl whole admitted keeper⟩

end CallProfiler
