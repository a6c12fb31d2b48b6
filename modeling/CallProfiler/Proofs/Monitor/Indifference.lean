import CallProfiler.Proofs.Monitor.Outline
import CallProfiler.Script.Async

/-!
# Proofs.Monitor.Indifference: programs do not feel what is replied

Hooks, the metrics sink and reporters may fail. `Script.faultless`, `TaskScript.faultless` and
`Monitor.faultless` are the same program and the same monitor where none of them ever does. They have
the same outline, and programs nest executions to any depth, so the comparison is an induction over
programs that is carried by equal outlines: `Indifferent` says of two pieces of work that they keep
outlines equal, and `execute_indifferent` that monitoring such works gives such works again.
-/

namespace CallProfiler

/-! ## The same without failures -/

/-- The hook that is told the same and does not panic. -/
def Hook.faultless : Hook → Hook
  | .panicking => .noted
  | hook => hook

/-- The execution with a hook that does not panic. -/
def Execution.faultless (e : Execution) : Execution := { e with hook := e.hook.faultless }

/-- The reporter whose gate wants nothing instead of panicking, and that takes every report. -/
def Reporter.faultless (r : Reporter) : Reporter where
  name := r.name
  gate := fun journal config report =>
    match r.gate journal config report with
    | .panicked => .unwanted
    | gate => gate
  deliver := fun journal config report => ((r.deliver journal config report).1, .accepted)

/-- The monitor with a sink that takes everything, and with reporters that do not fail. -/
def Monitor.faultless (m : Monitor) : Monitor :=
  { m with sink := .inMemory, reporters := m.reporters.map Reporter.faultless }

/-- The step, where a reporter that is added does not fail. -/
def MonitorMove.faultless : MonitorMove → MonitorMove
  | .addReporter reporter => .addReporter reporter.faultless
  | step => step

/-- The program with hooks that do not panic and reporters that do not fail. -/
def Script.faultless : Script → Script
  | .done => .done
  | .move step next => .move step next.faultless
  | .monitor step next => .monitor step.faultless next.faultless
  | .scope signature body next => .scope signature body.faultless next.faultless
  | .protect body next => .protect body.faultless next.faultless
  | .raise payload => .raise payload
  | .run execution body ending next =>
    .run execution.faultless body.faultless ending next.faultless

/-- The program with hooks that do not panic and reporters that do not fail. -/
def TaskScript.faultless : TaskScript → TaskScript
  | .done => .done
  | .move step next => .move step next.faultless
  | .monitor step next => .monitor step.faultless next.faultless
  | .enter signature body next => .enter signature body.faultless next.faultless
  | .protect body next => .protect body.faultless next.faultless
  | .raise payload => .raise payload
  | .onTaken body next => .onTaken body.faultless next.faultless
  | .withStack body next => .withStack body.faultless next.faultless
  | .scope activate body after next =>
    .scope activate body.faultless after.faultless next.faultless
  | .run execution body ending next =>
    .run execution.faultless body.faultless ending next.faultless

/-- A hook without faults is called like the one with them. -/
theorem Hook.faultless_calls (hook : Hook) (info : ExecutionInfo) :
    hook.faultless.calls info = hook.calls info := by
  cases hook <;> rfl

/-- A monitor without faults has the outline of the one with them. -/
theorem Monitor.faultless_outline (m : Monitor) : m.faultless.outline = m.outline := by
  simp [outline, faultless, calls, List.map_map, Function.comp_def, Reporter.faultless]

/-! ## Work that goes on alike -/

section Alike

variable {σ τ ρ ε α : Type}

/-- Two ends of a piece of work: the same result, the same stack or task, and monitors with the same
outline. -/
def Agree (a b : ρ × σ × Monitor) : Prop :=
  a.1 = b.1 ∧ a.2.1 = b.2.1 ∧ a.2.2.outline = b.2.2.outline

/-- Two runs that agree have equal results and states, and monitors with equal outlines. -/
theorem Agree.parts {r r' : ρ} {s s' : σ} {m m' : Monitor} (h : Agree (r, s, m) (r', s', m')) :
    r = r' ∧ s = s' ∧ m.outline = m'.outline := h

/-- Two pieces of work that agree on monitors with the same outline. -/
def Indifferent (work work' : σ → Monitor → ρ × σ × Monitor) : Prop :=
  ∀ s m m', m.outline = m'.outline → Agree (work s m) (work' s m')

namespace Monitor

variable {m m' : Monitor} (describe : ε → String)

/-- Monitoring keeps work indifferent to replies. -/
theorem execute_indifferent (e : Execution)
    {work work' : CallStack → Monitor → Outcome ε α × CallStack × Monitor}
    (alike : Indifferent work work') :
    Indifferent (execute describe e work) (execute describe e.faultless work') := by
  intro stack m m' h
  have prepared := prepare_alike h stack e e.faultless rfl rfl
  rcases hp : m.prepare stack e with ⟨mode, opened, ready⟩
  rcases hp' : m'.prepare stack e.faultless with ⟨mode', opened', ready'⟩
  rw [hp, hp'] at prepared
  obtain ⟨rfl, rfl, same⟩ := prepared
  have worked := alike opened ready ready' same
  unfold execute
  rw [hp, hp']
  dsimp only
  split
  · exact worked
  rcases hw : work opened ready with ⟨outcome, left, ended⟩
  rcases hw' : work' opened ready' with ⟨outcome', left', ended'⟩
  rw [hw, hw'] at worked
  obtain ⟨rfl, rfl, same'⟩ := worked.parts
  dsimp only
  rw [now_of_outline same]
  exact ⟨rfl, conclude_alike same' left mode e e.faultless rfl rfl
    (fun info => (e.hook.faultless_calls info).symm) ready'.now (outcome.failure? describe)⟩

/-- An asynchronous execution leads to the same with faults and without, if its work does. -/
theorem executeAsync_alike (e : Execution)
    {work work' : Task → Monitor → Outcome ε α × Task × Monitor} (alike : Indifferent work work')
    (stack : CallStack) (task : Task) (h : m.outline = m'.outline) :
    (executeAsync describe e work stack task m).1 =
      (executeAsync describe e.faultless work' stack task m').1 ∧
    Agree (executeAsync describe e work stack task m).2
      (executeAsync describe e.faultless work' stack task m').2 := by
  have prepared := prepare_alike h stack e e.faultless rfl rfl
  rcases hp : m.prepare stack e with ⟨mode, opened, ready⟩
  rcases hp' : m'.prepare stack e.faultless with ⟨mode', opened', ready'⟩
  rw [hp, hp'] at prepared
  obtain ⟨rfl, rfl, same⟩ := prepared
  have worked := alike (task.enterScope opened) ready ready' same
  rcases hw : work (task.enterScope opened) ready with ⟨outcome, inner, ended⟩
  rcases hw' : work' (task.enterScope opened) ready' with ⟨outcome', inner', ended'⟩
  rw [hw, hw'] at worked
  obtain ⟨rfl, rfl, same'⟩ := worked.parts
  unfold executeAsync
  rw [hp, hp']
  dsimp only
  rw [hw, hw', profiler_of_outline same]
  dsimp only
  split
  · exact ⟨rfl, rfl, rfl, same'⟩
  rw [now_of_outline same]
  rcases conclude_alike same' (inner.leaveScope ready'.profiler.stack).1 mode e e.faultless rfl rfl
    (fun info => (e.hook.faultless_calls info).symm) ready'.now (outcome.failure? describe)
    with ⟨sameStack, sameOutline⟩
  exact ⟨rfl, sameStack, rfl, sameOutline⟩

/-- So does an execution on the stack of a task. -/
theorem executeInTask_indifferent (e : Execution)
    {work work' : Task → Monitor → Outcome ε α × Task × Monitor} (alike : Indifferent work work') :
    Indifferent (executeInTask describe e work) (executeInTask describe e.faultless work') := by
  intro task m m' h
  unfold executeInTask
  split
  next outer hs =>
    have done := executeAsync_alike describe e alike m.profiler.stack outer h
    rw [profiler_of_outline h] at done ⊢
    rcases done with ⟨outcome, stack, task, ended⟩
    refine ⟨outcome, task, ?_⟩
    dsimp only [dropStack]
    rw [stack, profiler_of_outline ended]
    exact outline_withProfiler ended _
  next stack outer hs =>
    rcases executeAsync_alike describe e alike stack outer h with
      ⟨outcome, stack, task, ended⟩
    dsimp only
    rw [stack, task, profiler_of_outline ended]
    exact ⟨outcome, rfl, outline_withProfiler ended _⟩

end Monitor

/-! ## Programs -/

/-- A scope with a stack of its own, and the rest of the program. -/
def TaskScript.execScope (body : TaskScript) (after : Script) (next : TaskScript) (stack : CallStack)
    (p : Profiler) (t : Task) (m : Monitor) : Except Payload Unit × Task × Monitor :=
  match body.exec (t.enterScope stack) { m with profiler := p } with
  | (.error payload, t, m) =>
    let (t, m) := t.abandonScope m
    (.error payload, t, m)
  | (.ok _, t, m) =>
    let (stack, t) := t.leaveScope p.stack
    let (result, stack, m) := after.exec stack (m.stepped "task_end" .nothing (some stack))
    let m := m.dropStack stack
    match result with
    | .error payload => (.error payload, t, m)
    | .ok _ => next.exec t (m.stepped "task_dropped" .nothing t.stack?)

/-- A scope on a task, unfolded once. -/
theorem TaskScript.exec_scope (activate : Option String) (body : TaskScript) (after : Script)
    (next : TaskScript) (t : Task) (m : Monitor) :
    (TaskScript.scope activate body after next).exec t m =
      let (stack, p) := match activate with
        | some signature => (m.profiler.stack.activate m.profiler signature).2
        | none => (m.profiler.stack, m.profiler)
      body.execScope after next stack p t m := rfl

/-- The work of an execution in a program: its body, with an ending of its own. -/
def Script.work (body : Script) (name : String) (ending : Outcome String String) (s : CallStack)
    (m : Monitor) : Outcome String String × CallStack × Monitor :=
  let (result, s, m) := body.exec s (m.stepped "work" (.name name) (some s))
  (settle result ending, s, m)

/-- A nested execution in a program, unfolded once: a panic ends the program. -/
theorem Script.exec_run (e : Execution) (body next : Script) (ending : Outcome String String)
    (s : CallStack) (m : Monitor) :
    (Script.run e body ending next).exec s m =
      let (outcome, s, m) := Monitor.execute id e (body.work e.name ending) s m
      match outcome with
      | .panicked payload => (.error payload, s, m)
      | outcome => next.exec s (m.stepped "run" (.outcome outcome) (some s)) := rfl

/-- The work of an execution in a program on a task. -/
def TaskScript.work (body : TaskScript) (name : String) (ending : Outcome String String) (t : Task)
    (m : Monitor) : Outcome String String × Task × Monitor :=
  let (result, t, m) := body.exec t (m.stepped "work" (.name name) t.stack?)
  (settle result ending, t, m)

/-- The same on a task. -/
theorem TaskScript.exec_run (e : Execution) (body next : TaskScript)
    (ending : Outcome String String) (t : Task) (m : Monitor) :
    (TaskScript.run e body ending next).exec t m =
      let (outcome, t, m) := Monitor.executeInTask id e (body.work e.name ending) t m
      match outcome with
      | .panicked payload => (.error payload, t, m)
      | outcome => next.exec t (m.stepped "run" (.outcome outcome) t.stack?) := rfl

/-- A new configuration has the same effect on monitors with equal outlines. -/
theorem Monitor.reload_alike {m m' : Monitor} (h : m.outline = m'.outline) (next : ProfilerConfig) :
    (m.reload next).2.outline = (m'.reload next).2.outline := by
  obtain ⟨profiler, policy, config, sink, metrics, reporters, announces, journal⟩ := m
  obtain ⟨_, _, _, sink', metrics', reporters', _, journal'⟩ := m'
  obtain ⟨rfl, rfl, rfl, rfl, names, calls⟩ := Outline.mk.inj h
  have taken (p : Profiler) (q : SamplingPolicy) (c : ProfilerConfig) :
      (⟨p, q, c, sink, metrics, reporters, announces, journal⟩ : Monitor).outline =
        (⟨p, q, c, sink', metrics', reporters', announces, journal'⟩ : Monitor).outline :=
    congrArg (fun o : Outline => { o with profiler := p, policy := q, config := c }) h
  unfold reload reconfigure
  dsimp only
  cases next.validate with
  | error e => exact h
  | ok _ =>
    dsimp only [now]
    rcases config.replace next with ⟨result, config'⟩
    cases result with
    | error e => exact taken _ _ config'
    | ok _ =>
      dsimp only
      split
      · rw [outline_logged, outline_logged]
        exact taken _ _ config'
      · exact taken _ _ config'

/-- A reporter is added behind the others. -/
theorem Monitor.outline_addReporter (m : Monitor) (reporter : Reporter) :
    (m.addReporter reporter).outline =
      { m.outline with reporters := m.outline.reporters ++ [reporter.name] } := by
  simp [addReporter, outline, calls]

/-- So has every other step. -/
theorem MonitorMove.apply_alike (step : MonitorMove) {m m' : Monitor} (h : m.outline = m'.outline) :
    (step.apply m).2.outline = (step.faultless.apply m').2.outline := by
  have profiler := Monitor.profiler_of_outline h
  cases step with
  | clock step =>
    unfold apply faultless
    dsimp only
    rw [profiler]
    exact Monitor.outline_withProfiler h _
  | setThreshold nanos =>
    unfold apply faultless
    dsimp only
    rw [profiler]
    exact Monitor.outline_withProfiler h _
  | reload next =>
    show _ = ((reload next).apply m').2.outline
    rw [apply_reload, apply_reload]
    exact Monitor.reload_alike h next
  | showConfig => exact h
  | showMetrics => exact h
  | addReporter reporter =>
    show (m.addReporter reporter).outline = (m'.addReporter reporter.faultless).outline
    rw [Monitor.outline_addReporter, Monitor.outline_addReporter, h]
    rfl
  | countError name =>
    show (m.updateMetrics _).2.outline = (m'.updateMetrics _).2.outline
    rw [Monitor.outline_updateMetrics, Monitor.outline_updateMetrics, h]
  | askReport t =>
    unfold apply faultless
    dsimp only
    rw [Monitor.policy_of_outline h, Monitor.now_of_outline h]
    exact Monitor.outline_withPolicy h _

/-- The work of an execution is indifferent to faults if its program is. -/
theorem Script.work_indifferent {body body' : Script} (alike : Indifferent body.exec body'.exec)
    (name : String) (ending : Outcome String String) :
    Indifferent (body.work name ending) (body'.work name ending) := by
  intro s m m' h
  rcases alike s _ _ (Monitor.stepped_alike h "work" (.name name) (some s)) with ⟨result, left, ended⟩
  exact ⟨congrArg (settle · ending) result, left, ended⟩

/-- Programs are indifferent to faults, by induction over the program. -/
theorem Script.exec_indifferent (program : Script) :
    Indifferent program.exec program.faultless.exec := by
  induction program with
  | done => exact fun _ _ _ h => ⟨rfl, rfl, h⟩
  | move step next ih =>
    intro s m m' h
    unfold exec
    rw [Monitor.profiler_of_outline h]
    exact ih _ _ _ (Monitor.stepped_alike (Monitor.outline_withProfiler h _) ..)
  | monitor step next ih =>
    intro s m m' h
    unfold exec
    apply ih
    rw [Monitor.outline_stepped, Monitor.outline_stepped]
    exact step.apply_alike h
  | scope signature body next ihBody ihNext =>
    intro s m m' h
    unfold faultless exec
    rw [Monitor.profiler_of_outline h]
    rcases s.enter m'.profiler signature with ⟨armed, s, p⟩
    dsimp only
    have inner := ihBody s _ _
      (Monitor.stepped_alike (Monitor.outline_withProfiler h p) "scope" .nothing s)
    rcases hb : body.exec s (({ m with profiler := p } : Monitor).stepped "scope" .nothing s) with
      ⟨result, left, ended⟩
    rcases hb' : body.faultless.exec s
      (({ m' with profiler := p } : Monitor).stepped "scope" .nothing s) with ⟨result', left', ended'⟩
    rw [hb, hb'] at inner
    obtain ⟨rfl, rfl, same⟩ := inner.parts
    dsimp only
    -- the guard closes its call on the way out, with or without a panic
    rw [Monitor.profiler_of_outline same]
    have closed := Monitor.outline_withProfiler same (left.leave ended'.profiler armed).2
    cases result with
    | error payload => exact ⟨rfl, rfl, closed⟩
    | ok _ => exact ihNext _ _ _ (Monitor.stepped_alike closed ..)
  | protect body next ihBody ihNext =>
    intro s m m' h
    have inner := ihBody s m m' h
    rcases hb : body.exec s m with ⟨result, left, ended⟩
    rcases hb' : body.faultless.exec s m' with ⟨result', left', ended'⟩
    rw [hb, hb'] at inner
    obtain ⟨rfl, rfl, same⟩ := inner.parts
    unfold exec faultless
    rw [hb]
    dsimp only
    rw [hb']
    exact ihNext _ _ _ (Monitor.stepped_alike same ..)
  | raise payload => exact fun _ _ _ h => ⟨rfl, rfl, h⟩
  | run e body ending next ihBody ihNext =>
    intro s m m' h
    have works : Indifferent (body.work e.name ending) (body.faultless.work e.name ending) :=
      work_indifferent ihBody e.name ending
    have done := Monitor.execute_indifferent id e works s m m' h
    rcases hr : Monitor.execute id e (body.work e.name ending) s m with ⟨outcome, left, ended⟩
    rcases hr' : Monitor.execute id e.faultless (body.faultless.work e.name ending) s m' with
      ⟨outcome', left', ended'⟩
    rw [hr, hr'] at done
    obtain ⟨rfl, rfl, same⟩ := done.parts
    -- only a panic keeps the rest of the program from running, and both sides panic alike
    have later := Monitor.stepped_alike same "run" (.outcome outcome) (some left)
    show Agree ((run e body ending next).exec s m)
      ((run e.faultless body.faultless ending next.faultless).exec s m')
    rw [exec_run, exec_run, hr, show e.faultless.name = e.name from rfl, hr']
    cases outcome with
    | ok value => exact ihNext left _ _ later
    | error error => exact ihNext left _ _ later
    | panicked payload => exact ⟨rfl, rfl, same⟩

/-- To drop a stack does the same to monitors with the same outline. -/
theorem Monitor.dropStack_alike {m m' : Monitor} (h : m.outline = m'.outline) (stack : CallStack) :
    (m.dropStack stack).outline = (m'.dropStack stack).outline := by
  unfold dropStack
  rw [profiler_of_outline h]
  exact outline_withProfiler h _

theorem TaskScript.work_indifferent {body body' : TaskScript}
    (alike : Indifferent body.exec body'.exec) (name : String) (ending : Outcome String String) :
    Indifferent (body.work name ending) (body'.work name ending) := by
  intro t m m' h
  rcases alike t _ _ (Monitor.stepped_alike h "work" (.name name) t.stack?) with ⟨result, left, ended⟩
  exact ⟨congrArg (settle · ending) result, left, ended⟩

/-- So are steps on a stack that was taken from its task. -/
theorem Task.execOnTaken_alike (body : Script) (t : Task) {m m' : Monitor}
    (h : m.outline = m'.outline) :
    Agree (t.execOnTaken m body) (t.execOnTaken m' body.faultless) := by
  unfold execOnTaken
  cases t.taken with
  | nil => exact ⟨rfl, rfl, h⟩
  | cons stack taken =>
    rcases body.exec_indifferent stack m m' h with ⟨result, left, ended⟩
    dsimp only
    rw [result, left]
    exact ⟨rfl, rfl, ended⟩

/-- So are steps on the stack in the slot of a task. -/
theorem Task.execOnSlot_alike (body : Script) (t : Task) {m m' : Monitor}
    (h : m.outline = m'.outline) :
    Agree (t.execOnSlot m body) (t.execOnSlot m' body.faultless) := by
  unfold execOnSlot
  cases t.stack? with
  | none => exact ⟨rfl, rfl, h⟩
  | some stack =>
    rcases body.exec_indifferent stack m m' h with ⟨result, left, ended⟩
    dsimp only
    rw [result, left]
    exact ⟨rfl, rfl, ended⟩

/-- To abandon a scope does the same to monitors with the same outline. -/
theorem Task.abandonScope_alike (t : Task) {m m' : Monitor} (h : m.outline = m'.outline) :
    (t.abandonScope m).2.outline = (t.abandonScope m').2.outline := by
  unfold abandonScope
  dsimp only
  cases t.stack? with
  | none => exact h
  | some stack => exact Monitor.dropStack_alike h stack

/-- So are scopes on a task, if what runs in and after them is. -/
theorem TaskScript.execScope_alike {body body' next next' : TaskScript} (after : Script)
    (alike : Indifferent body.exec body'.exec) (alikeNext : Indifferent next.exec next'.exec)
    (stack : CallStack) (p : Profiler) (t : Task) {m m' : Monitor} (h : m.outline = m'.outline) :
    Agree (body.execScope after next stack p t m)
      (body'.execScope after.faultless next' stack p t m') := by
  have inner := alike (t.enterScope stack) _ _ (Monitor.outline_withProfiler h p)
  unfold execScope
  rcases hb : body.exec (t.enterScope stack) { m with profiler := p } with ⟨result, left, ended⟩
  rcases hb' : body'.exec (t.enterScope stack) { m' with profiler := p } with
    ⟨result', left', ended'⟩
  rw [hb, hb'] at inner
  obtain ⟨rfl, rfl, same⟩ := inner.parts
  cases result with
  | error payload => exact ⟨rfl, rfl, left.abandonScope_alike same⟩
  | ok _ =>
    dsimp only
    rcases left.leaveScope p.stack with ⟨kept, outer⟩
    have last := after.exec_indifferent kept _ _
      (Monitor.stepped_alike same "task_end" .nothing (some kept))
    rcases ha : after.exec kept (ended.stepped "task_end" .nothing (some kept)) with
      ⟨result, stack, finished⟩
    rcases ha' : after.faultless.exec kept (ended'.stepped "task_end" .nothing (some kept)) with
      ⟨result', stack', finished'⟩
    rw [ha, ha'] at last
    obtain ⟨rfl, rfl, same'⟩ := last.parts
    have dropped := Monitor.dropStack_alike same' stack
    cases result with
    | error payload => exact ⟨rfl, rfl, dropped⟩
    | ok _ => exact alikeNext outer _ _ (Monitor.stepped_alike dropped ..)

/-- Programs on tasks are indifferent to faults, by induction over the program. -/
theorem TaskScript.exec_indifferent (program : TaskScript) :
    Indifferent program.exec program.faultless.exec := by
  induction program with
  | done => exact fun _ _ _ h => ⟨rfl, rfl, h⟩
  | move step next ih =>
    intro t m m' h
    unfold faultless exec
    rw [Monitor.profiler_of_outline h]
    exact ih _ _ _ (Monitor.stepped_alike (Monitor.outline_withProfiler h _) ..)
  | monitor step next ih =>
    intro t m m' h
    unfold faultless exec
    apply ih
    rw [Monitor.outline_stepped, Monitor.outline_stepped]
    exact step.apply_alike h
  | enter signature body next ihBody ihNext =>
    intro t m m' h
    unfold faultless exec
    rw [Monitor.profiler_of_outline h]
    rcases t.enter m'.profiler signature with ⟨armed, t, p⟩
    dsimp only
    have inner := ihBody t _ _
      (Monitor.stepped_alike (Monitor.outline_withProfiler h p) "enter" .nothing t.stack?)
    rcases hb : body.exec t (({ m with profiler := p } : Monitor).stepped "enter" .nothing t.stack?)
      with ⟨result, left, ended⟩
    rcases hb' : body.faultless.exec t
      (({ m' with profiler := p } : Monitor).stepped "enter" .nothing t.stack?) with
      ⟨result', left', ended'⟩
    rw [hb, hb'] at inner
    obtain ⟨rfl, rfl, same⟩ := inner.parts
    dsimp only
    rw [Monitor.profiler_of_outline same]
    have closed := Monitor.outline_withProfiler same (left.leave ended'.profiler armed).2
    cases result with
    | error payload => exact ⟨rfl, rfl, closed⟩
    | ok _ => exact ihNext _ _ _ (Monitor.stepped_alike closed ..)
  | protect body next ihBody ihNext =>
    intro t m m' h
    have inner := ihBody t m m' h
    rcases hb : body.exec t m with ⟨result, left, ended⟩
    rcases hb' : body.faultless.exec t m' with ⟨result', left', ended'⟩
    rw [hb, hb'] at inner
    obtain ⟨rfl, rfl, same⟩ := inner.parts
    unfold exec faultless
    rw [hb]
    dsimp only
    rw [hb']
    exact ihNext _ _ _ (Monitor.stepped_alike same ..)
  | raise payload => exact fun _ _ _ h => ⟨rfl, rfl, h⟩
  | onTaken body next ih =>
    intro t m m' h
    have inner := Task.execOnTaken_alike body t h
    unfold faultless exec
    rcases hb : t.execOnTaken m body with ⟨result, left, ended⟩
    rcases hb' : t.execOnTaken m' body.faultless with ⟨result', left', ended'⟩
    rw [hb, hb'] at inner
    obtain ⟨rfl, rfl, same⟩ := inner.parts
    have later := Monitor.stepped_alike same "on_taken" (.flag result.isSome) left.stack?
    rcases result with _ | _ | _
    · exact ih left _ _ later
    · exact ⟨rfl, rfl, same⟩
    · exact ih left _ _ later
  | withStack body next ih =>
    intro t m m' h
    have inner := Task.execOnSlot_alike body t h
    unfold faultless exec
    rcases hb : t.execOnSlot m body with ⟨result, left, ended⟩
    rcases hb' : t.execOnSlot m' body.faultless with ⟨result', left', ended'⟩
    rw [hb, hb'] at inner
    obtain ⟨rfl, rfl, same⟩ := inner.parts
    have later := Monitor.stepped_alike same "with" (.flag result.isSome) left.stack?
    rcases result with _ | _ | _
    · exact ih left _ _ later
    · exact ⟨rfl, rfl, same⟩
    · exact ih left _ _ later
  | scope activate body after next ihBody ihNext =>
    intro t m m' h
    unfold faultless
    rw [exec_scope, exec_scope, Monitor.profiler_of_outline h]
    exact execScope_alike after ihBody ihNext _ _ t h
  | run e body ending next ihBody ihNext =>
    intro t m m' h
    have works : Indifferent (body.work e.name ending) (body.faultless.work e.name ending) :=
      work_indifferent ihBody e.name ending
    have done := Monitor.executeInTask_indifferent id e works t m m' h
    rcases hr : Monitor.executeInTask id e (body.work e.name ending) t m with ⟨outcome, left, ended⟩
    rcases hr' : Monitor.executeInTask id e.faultless (body.faultless.work e.name ending) t m' with
      ⟨outcome', left', ended'⟩
    rw [hr, hr'] at done
    obtain ⟨rfl, rfl, same⟩ := done.parts
    have later := Monitor.stepped_alike same "run" (.outcome outcome) left.stack?
    show Agree ((run e body ending next).exec t m)
      ((run e.faultless body.faultless ending next.faultless).exec t m')
    rw [exec_run, exec_run, hr, show e.faultless.name = e.name from rfl, hr']
    cases outcome with
    | ok value => exact ihNext left _ _ later
    | error error => exact ihNext left _ _ later
    | panicked payload => exact ⟨rfl, rfl, same⟩

end Alike

end CallProfiler
