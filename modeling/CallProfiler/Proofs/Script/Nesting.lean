import Mathlib.Data.List.Basic
import CallProfiler.Proofs.Script.Executions

/-!
# Proofs.Script.Nesting: nested executions and sampling

Which executions are recorded is decided by limits and intervals. A program cannot see these
decisions: two runs on monitors that agree about nothing but the time go through the same executions,
each with the same ending and the same duration (`Script.exec_level`).

The decisions show in what is told of the executions. An execution is taken for a nested one if its
stack records when it begins (`Ended.Handled`), so one that runs inside an execution that was not chosen
for recording is counted and reported as if it ran on its own, forwardable or not. Where no execution is
mistaken in this way (`Ended.Placed`), what is counted is known from the executions alone:
`Ended.updates_due`.
-/

namespace CallProfiler

namespace Deed

/-- Whether an execution is to be counted: inside another one only if it is forwardable. -/
def due (d : Deed) : Bool := !d.inner || d.execution.forwardable

/-- What an execution is to add to the metrics. -/
def updates (d : Deed) : List MetricsUpdate := if d.due then d.info.counting else []

end Deed

namespace Ended

/-- An execution was handled as a nested one if its stack recorded when it began, and as a top-level
one otherwise. -/
structure Handled (x : Ended) : Prop where
  nested : x.live = true → ∃ depth, x.mode = .nested depth x.execution.forwardable
  topLevel : x.live = false → ∃ recorded, x.mode = .topLevel recorded

variable {x : Ended}

/-- An execution is counted if its stack did not record when it began, or if it is forwardable. -/
theorem Handled.counted (handled : x.Handled) :
    x.counted = (!x.live || x.execution.forwardable) := by
  unfold Ended.counted
  cases live : x.live with
  | true =>
    rcases handled.nested live with ⟨depth, mode⟩
    rw [mode]
    rfl
  | false =>
    rcases handled.topLevel live with ⟨recorded, mode⟩
    rw [mode]
    rfl

/-- What is told of an execution: a nested one is counted at most, and any other is counted and offered
to the reporters. -/
theorem Handled.calls (handled : x.Handled) :
    x.calls = x.execution.hook.calls x.info ++
      if x.live then (if x.execution.forwardable then x.info.updates else [])
      else x.info.updates ++ x.offers := by
  unfold Ended.calls
  cases live : x.live with
  | true =>
    rcases handled.nested live with ⟨depth, mode⟩
    rw [mode]
    rfl
  | false =>
    rcases handled.topLevel live with ⟨recorded, mode⟩
    rw [mode]
    rfl

/-- An execution is not mistaken: unless it is counted anyway, its stack recorded exactly if it ran
inside another execution. -/
def Placed (x : Ended) : Prop := x.execution.forwardable = false → x.live = x.inner

/-- An execution that is not mistaken is counted if and only if it is due. -/
theorem Handled.due (handled : x.Handled) (placed : x.Placed) : x.counted = x.due := by
  rw [handled.counted]
  unfold Deed.due
  cases forwardable : x.execution.forwardable with
  | true => rw [Bool.or_true, Bool.or_true]
  | false => rw [placed forwardable]

/-- A nested execution that is not forwarded is told to its hook and to nobody else. -/
theorem Handled.calls_inner (handled : x.Handled) (placed : x.Placed) (inner : x.inner = true)
    (plain : x.execution.forwardable = false) : x.calls = x.execution.hook.calls x.info := by
  rw [handled.calls, placed plain, inner, plain]
  exact List.append_nil _

/-- Where no execution is mistaken, the metrics are updated by those that are due. -/
theorem updates_due {past : List Ended} (handled : ∀ x ∈ past, x.Handled)
    (placed : ∀ x ∈ past, x.Placed) :
    past.flatMap Ended.updates = (past.map Ended.toDeed).flatMap Deed.updates := by
  rw [List.flatMap_map]
  refine List.flatMap_congr fun x there => ?_
  unfold Ended.updates Deed.updates
  rw [(handled x there).due (placed x there)]

end Ended

/-! ## Monitors that agree about the time -/

/-- A step on the monitor that does not turn monitoring off. -/
def MonitorMove.SparesSwitch : MonitorMove → Prop
  | .reload next => next.monitoringActive = true
  | _ => True

namespace Monitor

variable {m m' n n' : Monitor}

/-- Two monitors that are awake and agree about the time. -/
structure Level (m m' : Monitor) : Prop where
  now : m.now = m'.now
  left : m.Awake
  right : m'.Awake

/-- Monitors stay level if both stay awake. -/
theorem Level.stays (h : m.Level m') (left : m.StaysAwake n) (right : m'.StaysAwake n') :
    n.Level n' :=
  ⟨left.now.trans (h.now.trans right.now.symm), left.awake h.left, right.awake h.right⟩

/-- What is traced of a step has no part in being level. -/
theorem Level.stepped (h : m.Level m') (label : String) (answer answer' : Answer)
    (stack stack' : Option CallStack) :
    (m.stepped label answer stack).Level (m'.stepped label answer' stack') :=
  h.stays (order_awake.enter m _ rfl) (order_awake.enter m' _ rfl)

/-- Monitors stay level when something is done with their profilers that takes no time. -/
theorem Level.withProfiler (h : m.Level m') {p q : Profiler} (same : p.now = m.now)
    (same' : q.now = m'.now) :
    ({ m with profiler := p } : Monitor).Level { m' with profiler := q } :=
  h.stays ⟨same, fun awake => ⟨awake.active, awake.warm⟩⟩
    ⟨same', fun awake => ⟨awake.active, awake.warm⟩⟩

/-- A reload that leaves monitoring on leaves an awake monitor awake, taken over or refused. -/
theorem reload_awake (m : Monitor) {next : ProfilerConfig} (on : next.monitoringActive = true) :
    m.StaysAwake (m.reload next).2 := by
  have taken : m.StaysAwake (m.taking next) := ⟨rfl, fun awake => ⟨on, awake.warm⟩⟩
  rcases m.reload_cases next with refused | silent | ⟨message, announced⟩
  · rw [refused]
    exact order_awake.refl m
  · rw [silent]
    exact taken
  · rw [announced]
    exact order_awake.trans taken (order_awake.enter _ (.note _) rfl)

/-- A step on the monitor moves both clocks alike. -/
theorem Level.moved (h : m.Level m') {step : MonitorMove} (spares : step.SparesSwitch) :
    (step.apply m).2.Level (step.apply m').2 := by
  cases step with
  | clock step => exact ⟨congrArg step.apply h.now, ⟨h.left.active, h.left.warm⟩,
      ⟨h.right.active, h.right.warm⟩⟩
  | setThreshold nanos =>
    exact h.withProfiler (p := { m.profiler with threshold := nanos })
      (q := { m'.profiler with threshold := nanos }) rfl rfl
  | reload next =>
    rw [MonitorMove.apply_reload, MonitorMove.apply_reload]
    exact h.stays (m.reload_awake spares) (m'.reload_awake spares)
  | showConfig | showMetrics => exact h
  | addReporter reporter =>
    exact ⟨h.now, ⟨h.left.active, h.left.warm⟩, ⟨h.right.active, h.right.warm⟩⟩
  | countError name => exact h.stays (order_awake.updateMetrics m _) (order_awake.updateMetrics m' _)
  | askReport t =>
    exact h.stays
      (order_awake.withPolicy m _ (m.policy.shouldReport_asked m.now t))
      (order_awake.withPolicy m' _ (m'.policy.shouldReport_asked m'.now t))

/-! ## Executions on both sides -/

/-- An awake monitor monitors every execution. -/
theorem Awake.monitored (awake : m.Awake) (stack : CallStack) (e : Execution) :
    (m.prepare stack e).1 ≠ .bare := by
  rcases prepare_mode awake stack e with ⟨-, mode⟩ | ⟨-, recorded, mode⟩ <;> rw [mode] <;> simp

/-- An awake monitor handles every execution as its stack says. -/
theorem Awake.handled (awake : m.Awake) (inner : Bool) (stack left : CallStack) (n : Monitor)
    (e : Execution) (started : Reading) (failure : Option String) :
    (n.endedOf inner stack.isActive left (m.prepare stack e).1 e started failure).Handled := by
  rcases prepare_mode awake stack e with ⟨active, mode⟩ | ⟨idle, recorded, mode⟩
  · exact ⟨fun _ => ⟨_, mode⟩, fun live => nomatch active.symm.trans live⟩
  · exact ⟨fun live => (nomatch idle.symm.trans live), fun _ => ⟨recorded, mode⟩⟩

/-- What is known of an execution, however it was handled, depends on the time and its ending. -/
theorem Level.deed (ended : n.Level n') (inner : Bool) {live live' : Bool} {left left' : CallStack}
    {mode mode' : Mode} (e : Execution) {started started' : Reading} (same : started = started')
    {failure failure' : Option String} (alike : failure = failure') :
    (n.endedOf inner live left mode e started failure).toDeed =
      (n'.endedOf inner live' left' mode' e started' failure').toDeed := by
  unfold endedOf infoOf
  rw [ended.now, same, alike]

/-- Two stacks may lead to different modes, but then only what is told is different. -/
theorem execute_level {ε α : Type} (describe : ε → String) (e : Execution)
    {work work' : CallStack → Monitor → Outcome ε α × CallStack × Monitor}
    (worked : ∀ s s' m m', m.Level m' →
      (work s m).1 = (work' s' m').1 ∧ (work s m).2.2.Level (work' s' m').2.2)
    (h : m.Level m') (s s' : CallStack) :
    (execute describe e work s m).1 = (execute describe e work' s' m').1 ∧
    (execute describe e work s m).2.2.Level (execute describe e work' s' m').2.2 := by
  have ready := h.stays (order_awake.prepare m s e) (order_awake.prepare m' s' e)
  rcases worked (m.prepare s e).2.1 (m'.prepare s' e).2.1 _ _ ready with ⟨outcome, ran⟩
  unfold execute
  dsimp only
  rw [if_neg (h.left.monitored s e), if_neg (h.right.monitored s' e)]
  exact ⟨outcome, ran.stays (order_awake.conclude ..) (order_awake.conclude ..)⟩

end Monitor

namespace Script

variable {m m' : Monitor}

/-- What two runs have in common that differ only in what is recorded, and how the executions of the
first one were handled. -/
structure SameCourse (ran ran' : Except Payload Unit × CallStack × Monitor) (past past' : List Ended) :
    Prop where
  result : ran.1 = ran'.1
  level : ran.2.2.Level ran'.2.2
  deeds : past.map Ended.toDeed = past'.map Ended.toDeed
  handled : ∀ x ∈ past, x.Handled

/-- A run that goes on after another one. -/
theorem SameCourse.append {ran ran' next next' : Except Payload Unit × CallStack × Monitor}
    {past past' later later' : List Ended} (h : SameCourse ran ran' past past')
    (h' : SameCourse next next' later later') :
    SameCourse next next' (past ++ later) (past' ++ later') := by
  refine ⟨h'.result, h'.level, ?_, List.forall_mem_append.mpr ⟨h.handled, h'.handled⟩⟩
  rw [List.map_append, List.map_append, h.deeds, h'.deeds]

/-- Two runs that agree about the first execution and about the rest take the same course. -/
theorem SameCourse.cons {ran ran' : Except Payload Unit × CallStack × Monitor} {x x' : Ended}
    {later later' : List Ended} (deed : x.toDeed = x'.toDeed) (handled : x.Handled)
    (h : SameCourse ran ran' later later') : SameCourse ran ran' (x :: later) (x' :: later') := by
  refine ⟨h.result, h.level, ?_, List.forall_mem_cons.mpr ⟨handled, h.handled⟩⟩
  rw [List.map_cons, List.map_cons, deed, h.deeds]

/-- Runs without executions take the same course if they end alike. -/
theorem SameCourse.nil {ran ran' : Except Payload Unit × CallStack × Monitor}
    (result : ran.1 = ran'.1) (level : ran.2.2.Level ran'.2.2) : SameCourse ran ran' [] [] :=
  ⟨result, level, rfl, fun _ there => nomatch there⟩

/-- Monitors that agree about the time go through the same executions, whatever is recorded. -/
theorem exec_level (program : Script) (spares : program.Moves MonitorMove.SparesSwitch)
    (inner : Bool) (s s' : CallStack) {m m' : Monitor} (h : m.Level m') :
    SameCourse (program.exec s m) (program.exec s' m') (program.executions inner s m)
      (program.executions inner s' m') := by
  induction program generalizing inner s s' m m' with
  | done => exact .nil rfl h
  | move step next ih =>
    have done := h.withProfiler (step.apply_terms s m.profiler).now
      (step.apply_terms s' m'.profiler).now
    exact ih spares inner _ _ (done.stepped ..)
  | monitor step next ih => exact ih spares.2 inner s s' ((h.moved spares.1).stepped ..)
  | scope signature body next ihBody ihNext =>
    have entered := h.withProfiler (s.enter_goesOn m.profiler signature).terms.now
      (s'.enter_goesOn m'.profiler signature).terms.now
    have inside := ihBody spares.1 inner (s.enter m.profiler signature).2.1
      (s'.enter m'.profiler signature).2.1 (entered.stepped "scope" .nothing .nothing
        (some (s.enter m.profiler signature).2.1) (some (s'.enter m'.profiler signature).2.1))
    unfold exec executions
    dsimp only
    generalize body.exec _ _ = ran at inside ⊢
    generalize body.exec _ _ = ran' at inside ⊢
    rcases ran with ⟨result, left, ended⟩
    rcases ran' with ⟨result', left', ended'⟩
    obtain rfl : result = result' := inside.result
    have closed := inside.level.withProfiler
      (left.leave_goesOn ended.profiler (s.enter m.profiler signature).1).terms.now
      (left'.leave_goesOn ended'.profiler (s'.enter m'.profiler signature).1).terms.now
    cases result with
    | error payload => exact inside.append (.nil rfl closed)
    | ok _ => exact inside.append (ihNext spares.2 inner _ _ (closed.stepped ..))
  | protect body next ihBody ihNext =>
    have inside := ihBody spares.1 inner s s' h
    exact inside.append (ihNext spares.2 inner _ _ (inside.level.stepped ..))
  | raise payload => exact .nil rfl h
  | run e body ending next ihBody ihNext =>
    have worked (s s' : CallStack) (m m' : Monitor) (h : m.Level m') :=
      ihBody spares.1 true s s' (h.stepped "work" (.name e.name) (.name e.name) (some s) (some s'))
    have settled (s s' : CallStack) (m m' : Monitor) (h : m.Level m') :
        (body.work e.name ending s m).1 = (body.work e.name ending s' m').1 ∧
        (body.work e.name ending s m).2.2.Level (body.work e.name ending s' m').2.2 :=
      ⟨congrArg (settle · ending) (worked s s' m m' h).result, (worked s s' m m' h).level⟩
    have ready := h.stays (Monitor.order_awake.prepare m s e) (Monitor.order_awake.prepare m' s' e)
    have inside := worked (m.prepare s e).2.1 (m'.prepare s' e).2.1 _ _ ready
    rcases settled (m.prepare s e).2.1 (m'.prepare s' e).2.1 _ _ ready with ⟨outcome, ended⟩
    have failure := congrArg (Outcome.failure? id) outcome
    rcases Monitor.execute_level id e settled h s s' with ⟨result, after⟩
    rw [exec_run, exec_run]
    unfold executions
    dsimp only
    generalize Monitor.execute id e _ s m = ran at result after ⊢
    generalize Monitor.execute id e _ s' m' = ran' at result after ⊢
    rcases ran with ⟨outcome, left, n⟩
    rcases ran' with ⟨outcome', left', n'⟩
    obtain rfl : outcome = outcome' := result
    -- the execution comes after those in its work, and before those that follow it
    cases outcome with
    | panicked payload =>
      exact inside.append (.cons (ended.deed inner e ready.now failure) (h.left.handled inner s ..)
        (.nil rfl after))
    | ok value =>
      exact inside.append (.cons (ended.deed inner e ready.now failure) (h.left.handled inner s ..)
        (ihNext spares.2 inner _ _ (after.stepped ..)))
    | error error =>
      exact inside.append (.cons (ended.deed inner e ready.now failure) (h.left.handled inner s ..)
        (ihNext spares.2 inner _ _ (after.stepped ..)))

end Script

end CallProfiler
