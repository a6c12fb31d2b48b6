import CallProfiler.Proofs.Monitor.Tally
import CallProfiler.Proofs.Script.Carriers

/-!
# Proofs.Script.Executions: the executions of a program

`Script.executions` lists the executions of a run in the order in which they end, each with the mode in
which it was handled and with what became known of it. All that the monitor tells hooks, the sink and
reporters in a run is told of these executions, one after the other (`Script.exec_calls`), and metrics
in memory add up what is told of them (`Script.exec_metrics`).

`LifecycleOrder.exec` takes what holds from step to step of the lifecycle to whole programs. It is used
here for the metrics.

What is told of an execution depends on its mode, and the mode of an execution depends on whether its
stack recorded when it began: `Monitor.prepare_mode`.
-/

namespace CallProfiler

/-! ## Executions that have ended -/

/-- An execution that has ended, however it was handled. -/
structure Deed where
  execution : Execution
  info : ExecutionInfo
  /-- Whether it ran inside another execution on the same stack. -/
  inner : Bool

/-- An execution that has ended, and how it was handled. -/
structure Ended extends Deed where
  /-- Whether its stack recorded when it began. -/
  live : Bool
  mode : Mode
  /-- The tree that was recorded for it. -/
  tree : Option CallTree
  /-- The reporters that are asked about it, if it is to be reported. -/
  asked : List String

/-- The reporters that are asked about reports of a type. -/
def Outline.asked (o : Outline) (t : OperationType) : List String :=
  if (o.policy.shouldReport o.profiler.now t).1 then o.reporters else []

/-- A report is offered to those reporters that are asked whether they want it. -/
theorem Outline.offers_asked (o : Outline) (report : ExecutionReport) :
    o.offers report = (o.asked report.info.operationType).map fun name => .gate name report := by
  unfold offers asked
  split <;> rfl

/-- What a finished execution adds to the metrics, if it is counted. -/
def ExecutionInfo.counting (info : ExecutionInfo) : List MetricsUpdate :=
  [info.name, aggregateName].flatMap fun key =>
    .timer key info.duration :: if info.failed then [.error key] else []

namespace Ended

/-- Whether the execution is counted in the metrics. -/
def counted (x : Ended) : Bool :=
  match x.mode with
  | .bare => false
  | .nested _ forwardable => forwardable
  | .topLevel _ => true

/-- The questions to reporters about the execution, if it is to be reported. -/
def offers (x : Ended) : List Call := x.asked.map fun name => .gate name ⟨x.info, x.tree⟩

/-- What is told of the execution when it has ended. -/
def calls (x : Ended) : List Call :=
  match x.mode with
  | .bare => []
  | .nested _ forwardable =>
    x.execution.hook.calls x.info ++ if forwardable then x.info.updates else []
  | .topLevel _ => x.execution.hook.calls x.info ++ (x.info.updates ++ x.offers)

/-- What the execution adds to the metrics. -/
def updates (x : Ended) : List MetricsUpdate := if x.counted then x.info.counting else []

end Ended

namespace Monitor

/-- The execution whose work ran from `started` on and has left `stack`. -/
def endedOf (m : Monitor) (inner live : Bool) (stack : CallStack) (mode : Mode) (e : Execution)
    (started : Reading) (failure : Option String) : Ended where
  execution := e
  info := m.infoOf e started failure
  inner := inner
  live := live
  mode := mode
  tree := m.reportedTree stack mode
  asked := m.outline.asked e.operationType

/-- The end of a monitored execution is told as its mode says, and nothing else is told. -/
theorem conclude_ended (m : Monitor) (inner live : Bool) (stack : CallStack) {mode : Mode}
    (monitored : mode ≠ .bare) (e : Execution) (started : Reading) (failure : Option String) :
    (m.conclude stack mode e started failure).2.calls =
      m.calls ++ (m.endedOf inner live stack mode e started failure).calls := by
  rw [conclude_calls]
  cases mode with
  | bare => exact absurd rfl monitored
  | nested depth forwardable => rfl
  | topLevel recorded =>
    let info := m.infoOf e started failure
    exact congrArg (fun offers => m.calls ++ (e.hook.calls info ++ (info.updates ++ offers)))
      (m.outline.offers_asked ⟨info, m.reportedTree stack (.topLevel recorded)⟩)

/-- While monitoring is on and the warmup is over, an execution is nested if its stack records when it
begins, and a top-level one otherwise. -/
theorem prepare_mode {m : Monitor} (awake : m.Awake) (stack : CallStack) (e : Execution) :
    (stack.isActive = true ∧ (m.prepare stack e).1 = .nested stack.depth e.forwardable) ∨
    (stack.isActive = false ∧ ∃ recorded, (m.prepare stack e).1 = .topLevel recorded) := by
  unfold prepare
  rw [if_neg (by simp [awake.active])]
  cases active : stack.isActive with
  | true => exact .inl ⟨rfl, rfl⟩
  | false =>
    refine .inr ⟨rfl, ?_⟩
    dsimp only
    rw [if_neg Bool.false_ne_true, if_neg (by simp [awake.warm m.now])]
    split
    · exact ⟨false, rfl⟩
    · split
      · exact ⟨true, rfl⟩
      · exact ⟨false, rfl⟩

end Monitor

namespace Script

/-- The executions of a run in the order in which they end. -/
def executions (inner : Bool) : Script → CallStack → Monitor → List Ended
  | .done, _, _ => []
  | .move step next, s, m =>
    let (answer, s, profiler) := step.apply s m.profiler
    next.executions inner s ({ m with profiler := profiler }.stepped step.label answer (some s))
  | .monitor step next, s, m =>
    let (answer, m) := step.apply m
    next.executions inner s (m.stepped step.label answer (some s))
  | .scope signature body next, s, m =>
    let (armed, s, profiler) := s.enter m.profiler signature
    let m := { m with profiler := profiler }.stepped "scope" .nothing (some s)
    let inside := body.executions inner s m
    let (result, s, m) := body.exec s m
    let (s, profiler) := s.leave m.profiler armed
    let m := { m with profiler := profiler }
    inside ++ match result with
      | .error _ => []
      | .ok _ => next.executions inner s (m.stepped "scope_end" .nothing (some s))
  | .protect body next, s, m =>
    let inside := body.executions inner s m
    let (result, s, m) := body.exec s m
    inside ++ next.executions inner s (m.stepped "catch" (caughtAnswer result) (some s))
  | .raise _, _, _ => []
  | .run e body ending next, s, m =>
    let (mode, opened, ready) := m.prepare s e
    let inside := body.executions true opened (ready.stepped "work" (.name e.name) (some opened))
    let (outcome, left, ended) := body.work e.name ending opened ready
    let own := ended.endedOf inner s.isActive left mode e ready.now (outcome.failure? id)
    let (outcome, s, m) := Monitor.execute id e (body.work e.name ending) s m
    inside ++ own :: match outcome with
      | .panicked _ => []
      | outcome => next.executions inner s (m.stepped "run" (.outcome outcome) (some s))

end Script

/-! ## From step to step of a program -/

/-- Steps on a stack change at most the pool. -/
theorem StackMove.apply_terms (step : StackMove) (s : CallStack) (p : Profiler) :
    p.SameTerms (step.apply s p).2.2 := by
  cases step with
  | activate signature => exact (s.activate_moved p signature).terms
  | start signature => exact (s.start_goesOn p signature).terms
  | stop => exact ((s.stopWith_goesOn p none).recycle? _).terms
  | stopAs signature => exact ((s.stopWith_goesOn p (some signature)).recycle? _).terms
  | rename signature => exact .refl p
  | io description duration => exact (s.addIoCall_goesOn p description duration).terms
  | deactivate => exact (s.deactivate_goesOn p).terms
  | showTree | render _ | showState => exact .refl p

namespace LifecycleOrder

variable {Q : Monitor → Monitor → Prop} (order : LifecycleOrder Q)

include order

theorem stepped {m m' : Monitor} (h : Q m m') (label : String) (answer : Answer)
    (stack : Option CallStack) : Q m (m'.stepped label answer stack) :=
  order.trans h (order.enter _ (.step label answer _) rfl)

/-- What each part of the lifecycle keeps is kept by an execution, if its work keeps it. -/
theorem execute {ε α : Type} (describe : ε → String) (e : Execution)
    {work : CallStack → Monitor → Outcome ε α × CallStack × Monitor}
    (worked : ∀ s m, Q m (work s m).2.2) (s : CallStack) (m : Monitor) :
    Q m (Monitor.execute describe e work s m).2.2 := by
  have ran := order.trans (order.prepare m s e) (worked (m.prepare s e).2.1 (m.prepare s e).2.2)
  unfold Monitor.execute
  dsimp only
  split
  · exact ran
  · exact order.trans ran (order.conclude ..)

/-- What holds around the work of executions and for single steps holds for programs. -/
theorem exec (moved : ∀ (step : MonitorMove) m, Q m (step.apply m).2) (program : Script)
    (s : CallStack) (m : Monitor) : Q m (program.exec s m).2.2 := by
  induction program generalizing s m with
  | done => exact order.refl m
  | move step next ih =>
    have done := order.withProfiler m _ (step.apply_terms s m.profiler)
    exact order.trans (order.stepped done _ _ _) (ih _ _)
  | monitor step next ih =>
    exact order.trans (order.stepped (moved step m) _ _ _) (ih _ _)
  | scope signature body next ihBody ihNext =>
    have entered := order.stepped (order.withProfiler m _ (s.enter_goesOn m.profiler signature).terms)
      "scope" .nothing (some (s.enter m.profiler signature).2.1)
    have ran := order.trans entered (ihBody (s.enter m.profiler signature).2.1 _)
    unfold Script.exec
    dsimp only
    generalize body.exec _ _ = result at ran ⊢
    rcases result with ⟨result, left, ended⟩
    have closed := order.trans ran (order.withProfiler ended _
      (left.leave_goesOn ended.profiler (s.enter m.profiler signature).1).terms)
    cases result with
    | error payload => exact closed
    | ok _ => exact order.trans (order.stepped closed _ _ _) (ihNext _ _)
  | protect body next ihBody ihNext =>
    exact order.trans (order.stepped (ihBody s m) _ _ _) (ihNext _ _)
  | raise payload => exact order.refl m
  | run e body ending next ihBody ihNext =>
    have worked (s : CallStack) (m : Monitor) : Q m (body.work e.name ending s m).2.2 :=
      order.trans (order.stepped (order.refl m) _ _ _) (ihBody s _)
    have ran := order.execute id e worked s m
    rw [Script.exec_run]
    generalize Monitor.execute id e _ s m = result at ran ⊢
    rcases result with ⟨outcome, left, ended⟩
    cases outcome with
    | panicked payload => exact ran
    | ok value => exact order.trans (order.stepped ran _ _ _) (ihNext _ _)
    | error error => exact order.trans (order.stepped ran _ _ _) (ihNext _ _)

end LifecycleOrder

/-! ## What is told in a run -/

/-- A reload passes nothing to hooks, sink or reporters. -/
theorem Monitor.reload_calls (m : Monitor) (next : ProfilerConfig) :
    (m.reload next).2.calls = m.calls := by
  rcases m.reload_cases next with refused | silent | ⟨message, announced⟩
  · rw [refused]
  · rw [silent]
    rfl
  · rw [announced]
    exact congrArg Outline.calls (outline_logged _ _ _)

/-- A step on the monitor that passes nothing to the sink. -/
def MonitorMove.SparesSink : MonitorMove → Prop
  | .countError _ => False
  | _ => True

/-- A step on the monitor that spares the sink passes nothing to hooks or reporters either. -/
theorem MonitorMove.apply_calls {step : MonitorMove} (spares : step.SparesSink) (m : Monitor) :
    (step.apply m).2.calls = m.calls := by
  cases step with
  | countError name => exact spares.elim
  | reload next =>
    rw [apply_reload]
    exact m.reload_calls next
  | _ => rfl

theorem Monitor.calls_stepped (m : Monitor) (label : String) (answer : Answer)
    (stack : Option CallStack) : (m.stepped label answer stack).calls = m.calls :=
  congrArg Outline.calls (outline_stepped m label answer stack)

namespace Script

variable {s : CallStack} {m : Monitor}

/-- Around the calls of its work an execution adds the calls about itself. -/
theorem execute_calls {body : Script} (inner live : Bool) (e : Execution) (ending : Outcome String String)
    {inside : List Call}
    (worked : (body.work e.name ending (m.prepare s e).2.1 (m.prepare s e).2.2).2.2.calls =
      m.calls ++ inside) :
    let prepared := m.prepare s e
    let work := body.work e.name ending prepared.2.1 prepared.2.2
    (Monitor.execute id e (body.work e.name ending) s m).2.2.calls = m.calls ++ (inside ++
      (work.2.2.endedOf inner live work.2.1 prepared.1 e prepared.2.2.now (work.1.failure? id)).calls) := by
  intro prepared work
  unfold Monitor.execute
  dsimp only
  split
  · next bare =>
    rw [worked]
    unfold Ended.calls Monitor.endedOf
    rw [show prepared.1 = .bare from bare]
    simp
  · next monitored => rw [Monitor.conclude_ended _ inner live _ monitored, worked, List.append_assoc]

/-- All that is told in a run is told of its executions, one after the other. -/
theorem exec_calls (program : Script) (spares : program.Moves MonitorMove.SparesSink) (inner : Bool)
    (s : CallStack) (m : Monitor) :
    (program.exec s m).2.2.calls =
      m.calls ++ (program.executions inner s m).flatMap Ended.calls := by
  induction program generalizing inner s m with
  | done => exact (List.append_nil _).symm
  | move step next ih =>
    unfold exec executions
    rw [ih spares inner, Monitor.calls_stepped]
    rfl
  | monitor step next ih =>
    unfold exec executions
    rw [ih spares.2 inner, Monitor.calls_stepped, MonitorMove.apply_calls spares.1]
  | scope signature body next ihBody ihNext =>
    unfold exec executions
    rcases s.enter m.profiler signature with ⟨armed, opened, p⟩
    dsimp only
    have inside := ihBody spares.1 inner opened
      (({ m with profiler := p } : Monitor).stepped "scope" .nothing opened)
    rw [Monitor.calls_stepped] at inside
    rcases hb : body.exec opened (({ m with profiler := p } : Monitor).stepped "scope" .nothing opened)
      with ⟨result, left, ended⟩
    rw [hb] at inside
    cases result with
    | error payload =>
      dsimp only
      rw [List.append_nil]
      exact inside
    | ok _ =>
      dsimp only
      rw [ihNext spares.2 inner, Monitor.calls_stepped, List.flatMap_append, ← List.append_assoc]
      exact congrArg (· ++ _) inside
  | protect body next ihBody ihNext =>
    unfold exec executions
    dsimp only
    rw [ihNext spares.2 inner, Monitor.calls_stepped, ihBody spares.1 inner, List.flatMap_append,
      List.append_assoc]
  | raise payload => exact (List.append_nil _).symm
  | run e body ending next ihBody ihNext =>
    rw [exec_run]
    unfold executions
    have worked := ihBody spares.1 true (m.prepare s e).2.1
      ((m.prepare s e).2.2.stepped "work" (.name e.name) (some (m.prepare s e).2.1))
    rw [Monitor.calls_stepped, Monitor.prepare_calls] at worked
    have done := execute_calls inner s.isActive e ending worked
    dsimp only at done ⊢
    rcases hr : Monitor.execute id e (body.work e.name ending) s m with ⟨outcome, left, ended⟩
    rw [hr] at done
    cases outcome with
    | panicked payload =>
      rw [List.flatMap_append, List.flatMap_singleton]
      exact done
    | ok value =>
      dsimp only
      rw [ihNext spares.2 inner, Monitor.calls_stepped, List.flatMap_append, List.flatMap_cons, done,
        List.append_assoc, List.append_assoc]
    | error error =>
      dsimp only
      rw [ihNext spares.2 inner, Monitor.calls_stepped, List.flatMap_append, List.flatMap_cons, done,
        List.append_assoc, List.append_assoc]

end Script

/-- On a task the same is told. -/
theorem Script.onTask_calls (program : Script) (s : CallStack) (t : Task) (m : Monitor) :
    (program.onTask.exec (t.enterScope s) m).2.2.calls = (program.exec s m).2.2.calls := by
  rcases program.exec_carries congruence_outline s t m m rfl with ⟨-, -, same⟩
  exact (congrArg Outline.calls same).symm

/-! ## What is counted in a run -/

/-- What a finished execution updates in the metrics is what it is counted as. -/
theorem ExecutionInfo.updates_counting (info : ExecutionInfo) :
    info.updates = info.counting.map .update := by
  unfold updates counting
  split <;> rfl

/-- The updates among the calls about an execution. -/
theorem Ended.updates_of_calls (x : Ended) : x.calls.filterMap Call.update? = x.updates := by
  have hook : (x.execution.hook.calls x.info).filterMap Call.update? = [] := by
    unfold Hook.calls
    split <;> rfl
  have counting : x.info.updates.filterMap Call.update? = x.info.counting := by
    rw [ExecutionInfo.updates_counting, List.filterMap_map]
    exact List.filterMap_some
  have offers : x.offers.filterMap Call.update? = [] := by
    unfold Ended.offers
    rw [List.filterMap_map]
    exact List.filterMap_eq_nil_iff.mpr fun _ _ => rfl
  unfold calls updates counted
  cases x.mode with
  | bare => rfl
  | nested depth forwardable =>
    dsimp only
    rw [List.filterMap_append, hook]
    cases forwardable with
    | false => rfl
    | true => exact counting
  | topLevel recorded =>
    dsimp only
    rw [List.filterMap_append, List.filterMap_append, hook, counting, offers, List.append_nil]
    rfl

/-- The updates of a run are those of the executions in it, one after the other. -/
theorem Script.exec_updates (program : Script) (spares : program.Moves MonitorMove.SparesSink)
    (inner : Bool) (s : CallStack) (m : Monitor) :
    (program.exec s m).2.2.updates =
      m.updates ++ (program.executions inner s m).flatMap Ended.updates := by
  unfold Monitor.updates
  rw [program.exec_calls spares inner, List.filterMap_append, List.filterMap_flatMap]
  simp only [Ended.updates_of_calls]

/-- Metrics in memory add up what the executions are counted with. -/
theorem Script.exec_metrics (program : Script) (spares : program.Moves MonitorMove.SparesSink)
    (inner : Bool) (s : CallStack) {m : Monitor} (inMemory : m.sink = .inMemory) :
    (program.exec s m).2.2.metrics =
      ((program.executions inner s m).flatMap Ended.updates).foldl Metrics.apply m.metrics := by
  have tallies := Monitor.order_tallies.exec Monitor.moved_tallies program s m
  obtain ⟨made, updates, metrics⟩ := tallies.metrics inMemory
  rw [program.exec_updates spares inner] at updates
  rw [metrics, List.append_cancel_left updates]

/-- On a task the same is counted. -/
theorem Script.onTask_metrics (program : Script) (s : CallStack) (t : Task) {m : Monitor}
    (inMemory : m.sink = .inMemory) :
    (program.onTask.exec (t.enterScope s) m).2.2.metrics = (program.exec s m).2.2.metrics := by
  have start : m.SameTally m := ⟨rfl, inMemory, inMemory, rfl⟩
  rcases program.exec_carries Monitor.congruence_tally s t m m start with
    ⟨-, -, same⟩
  exact same.metrics.symm

end CallProfiler
