import CallProfiler.Proofs.Monitor.Retelling

/-!
# Proofs.Script.Carriers: the same program on a stack and on a task

`Script.onTask` is a program on a stack, written for a task whose slot holds that stack. What can be
said in both ways is said in the way of the task; other steps on the stack go through its slot. All
along the run the stack is where it is expected (`Carries`): in the slot while a program runs, in the
hands of the monitor around the work of an execution, and in the slot of a new scope during the work.

The proof is one induction over programs, `Script.exec_carries`, for any relation of monitors that
programs respect. `async_monitoring_agrees` uses it twice: for the calls of the monitor, and for
everything that there is to see.
-/

namespace CallProfiler

/-! ## Programs for a task -/

/-- A step on a stack and the rest of the program, for a task whose slot holds the stack. -/
def StackMove.onTask (step : StackMove) (next : TaskScript) : TaskScript :=
  match step with
  | .start signature => .move (.start signature) next
  | .stop => .move .stop next
  | .io description duration => .move (.io description duration) next
  | step => .withStack (.move step .done) next

namespace Script

/-- The program, for a task whose slot holds the stack. -/
def onTask : Script → TaskScript
  | .done => .done
  | .move step next => step.onTask next.onTask
  | .monitor step next => .monitor step next.onTask
  | .scope signature body next => .enter signature body.onTask next.onTask
  | .protect body next => .protect body.onTask next.onTask
  | .raise payload => .raise payload
  | .run execution body ending next => .run execution body.onTask ending next.onTask

/-- All steps on the monitor are of some kind. -/
def Moves (Fair : MonitorMove → Prop) : Script → Prop
  | .done => True
  | .move _ next => next.Moves Fair
  | .monitor step next => Fair step ∧ next.Moves Fair
  | .scope _ body next => body.Moves Fair ∧ next.Moves Fair
  | .protect body next => body.Moves Fair ∧ next.Moves Fair
  | .raise _ => True
  | .run _ body _ next => body.Moves Fair ∧ next.Moves Fair

end Script

/-! ## Work that is carried over -/

section Carries

variable {ρ ε α : Type} {R : Monitor → Monitor → Prop}

/-- With the stack in the slot, `work'` does what `work` does with the stack itself, and leaves the
stack in the slot. -/
def Carries (R : Monitor → Monitor → Prop) (work : CallStack → Monitor → ρ × CallStack × Monitor)
    (work' : Task → Monitor → ρ × Task × Monitor) : Prop :=
  ∀ (s : CallStack) (t : Task) (m m' : Monitor), R m m' →
    (work' (t.enterScope s) m').1 = (work s m).1 ∧
    (work' (t.enterScope s) m').2.1 = t.enterScope (work s m).2.1 ∧
    R (work s m).2.2 (work' (t.enterScope s) m').2.2

namespace Monitor

variable (describe : ε → String) (e : Execution)
  {work : CallStack → Monitor → Outcome ε α × CallStack × Monitor}
  {work' : Task → Monitor → Outcome ε α × Task × Monitor}

/-- Suspendable work is monitored as other work is, and the task is as it was. -/
theorem executeAsync_carries (fair : MonitorCongruence R) (carries : Carries R work work')
    (s : CallStack) (t : Task) {m m' : Monitor} (h : R m m') :
    (executeAsync describe e work' s t m').1 = (execute describe e work s m).1 ∧
    (executeAsync describe e work' s t m').2.1 = (execute describe e work s m).2.1 ∧
    (executeAsync describe e work' s t m').2.2.1 = t ∧
    R (execute describe e work s m).2.2 (executeAsync describe e work' s t m').2.2.2 := by
  have prepared := fair.prepared h s e
  rcases hp : m.prepare s e with ⟨mode, opened, ready⟩
  rcases hp' : m'.prepare s e with ⟨mode', opened', ready'⟩
  rw [hp, hp'] at prepared
  obtain ⟨rfl, rfl, same⟩ := prepared
  rcases carries opened t ready ready' same with ⟨outcome, inner, after⟩
  unfold execute executeAsync
  rw [hp, hp']
  dsimp only
  rw [outcome, inner]
  split
  · exact ⟨rfl, rfl, rfl, after⟩
  · -- the scope gives back the stack that the work has left in its slot
    have started : ready'.now = ready.now := congrArg Profiler.now (fair.profiler same).symm
    rw [started]
    rcases fair.concluded after (work opened ready).2.1 mode e ready.now
      ((work opened ready).1.failure? describe) with ⟨stack, concluded⟩
    exact ⟨rfl, stack.symm, rfl, concluded⟩

/-- An execution inside suspendable work takes the stack out of the slot and puts it back. -/
theorem executeInTask_carries (fair : MonitorCongruence R) (carries : Carries R work work') :
    Carries R (execute describe e work) (executeInTask describe e work') := by
  intro s t m m' h
  rcases executeAsync_carries describe e fair carries s { t with slots := none :: t.slots } h with
    ⟨outcome, stack, task, after⟩
  -- the emptied slot waits below the scope of the work, so nothing is displaced when it is filled
  have back : executeInTask describe e work' (t.enterScope s) m' =
      let result := executeAsync describe e work' s { t with slots := none :: t.slots } m'
      let restored := result.2.2.1.restoreStack result.2.2.2.profiler result.2.1
      (result.1, restored.1, { result.2.2.2 with profiler := restored.2 }) := rfl
  rw [back]
  dsimp only
  rw [outcome, stack, task]
  exact ⟨rfl, rfl, after⟩

end Monitor

/-! ## Programs -/

/-- In a scope of its own a guard begins a call on the stack of the scope. -/
theorem Task.enter_onTask (t : Task) (s : CallStack) (p : Profiler) (signature : String) :
    (t.enterScope s).enter p signature =
      ((s.enter p signature).1, t.enterScope (s.enter p signature).2.1, (s.enter p signature).2.2) :=
  rfl

/-- In a scope of its own a guard ends a call on the stack of the scope. -/
theorem Task.leave_onTask (t : Task) (s : CallStack) (p : Profiler) (armed : Bool) :
    (t.enterScope s).leave p armed = (t.enterScope (s.leave p armed).1, (s.leave p armed).2) := by
  cases armed <;> rfl

variable {program body next : Script}

/-- A move on the stack and the same move on a task that carries it go on alike if the rest does. -/
theorem StackMove.onTask_carries (fair : MonitorCongruence R) (step : StackMove)
    {next' : TaskScript} (carries : Carries R next.exec next'.exec) :
    Carries R (Script.move step next).exec (step.onTask next').exec := by
  intro s t m m' h
  have profiler := fair.profiler h
  have told (answer : Answer) (left : CallStack) (p : Profiler) :=
    carries left t _ _
      (fair.stepped step.label step.label (fair.withProfiler h p) rfl answer (some left))
  have reached (answer : Answer) (left : CallStack) (p : Profiler) (flag : Answer) :=
    carries left t _ _
      (fair.unseen "with"
        (fair.stepped step.label step.label (fair.withProfiler h p) rfl answer (some left)) rfl flag
        (some left))
  unfold Script.exec
  rw [profiler]
  cases step with
  | start signature => exact told _ _ _
  | stop => exact told _ _ _
  | io description duration => exact told _ _ _
  | activate _ | stopAs _ | rename _ | deactivate | showTree | render _ | showState =>
    exact reached _ _ _ _

/-- The work of an execution is carried along if its body is. -/
theorem Script.work_carries (fair : MonitorCongruence R) {body' : TaskScript}
    (carries : Carries R body.exec body'.exec) (name : String) (ending : Outcome String String) :
    Carries R (body.work name ending) (body'.work name ending) := by
  intro s t m m' h
  rcases carries s t _ _ (fair.stepped "work" "work" h rfl (.name name) (some s)) with ⟨result, left, after⟩
  exact ⟨congrArg (settle · ending) result, left, after⟩

/-- A program on a task does what it does on the stack in its slot. -/
theorem Script.exec_carries (fair : MonitorCongruence R) (program : Script) :
    Carries R program.exec program.onTask.exec := by
  induction program with
  | done => exact fun s t m m' h => ⟨rfl, rfl, h⟩
  | move step next ih => exact step.onTask_carries fair ih
  | monitor step next ih =>
    intro s t m m' h
    exact ih s t _ _ (fair.moved h step step.label (some s))
  | scope signature body next ihBody ihNext =>
    intro s t m m' h
    rcases entered : s.enter m.profiler signature with ⟨armed, opened, p⟩
    have entered' : (t.enterScope s).enter m'.profiler signature = (armed, t.enterScope opened, p) := by
      rw [← fair.profiler h, t.enter_onTask, entered]
    have inside := fair.stepped "scope" "enter" (fair.withProfiler h p) rfl .nothing (some opened)
    have ran := ihBody opened t _ _ inside
    unfold onTask exec TaskScript.exec
    rw [entered, entered']
    dsimp only
    rw [show (t.enterScope opened).stack? = some opened from rfl]
    generalize body.exec opened _ = sync at ran ⊢
    generalize body.onTask.exec (t.enterScope opened) _ = async at ran ⊢
    rcases sync with ⟨result, left, m₁⟩
    rcases async with ⟨result', left', m₁'⟩
    obtain ⟨rfl, rfl, after⟩ : result' = result ∧ left' = t.enterScope left ∧ R m₁ m₁' := ran
    dsimp only
    -- the guard closes its call on the way out, with or without a panic
    rw [← fair.profiler after, t.leave_onTask]
    rcases left.leave m₁.profiler armed with ⟨left, p⟩
    have closed := fair.withProfiler after p
    cases result' with
    | error payload => exact ⟨rfl, rfl, closed⟩
    | ok _ =>
      exact ihNext left t _ _
        (fair.stepped "scope_end" "enter_end" closed rfl .nothing (some left))
  | protect body next ihBody ihNext =>
    intro s t m m' h
    rcases ihBody s t m m' h with ⟨result, left, after⟩
    unfold onTask exec TaskScript.exec
    dsimp only
    rw [result, left]
    exact ihNext _ t _ _ (fair.stepped "catch" "catch" after rfl _ _)
  | raise payload => exact fun s t m m' h => ⟨rfl, rfl, h⟩
  | run e body ending next ihBody ihNext =>
    intro s t m m' h
    have ran := Monitor.executeInTask_carries id e fair
      (work_carries fair ihBody e.name ending) s t m m' h
    show _ ∧ _ ∧ _
    unfold onTask
    rw [exec_run, TaskScript.exec_run]
    generalize Monitor.execute id e _ s m = sync at ran ⊢
    generalize Monitor.executeInTask id e _ (t.enterScope s) m' = async at ran ⊢
    rcases sync with ⟨outcome, left, m₁⟩
    rcases async with ⟨outcome', left', m₁'⟩
    obtain ⟨rfl, rfl, after⟩ : outcome' = outcome ∧ left' = t.enterScope left ∧ R m₁ m₁' := ran
    have told := fair.stepped "run" "run" after rfl (.outcome outcome') (some left)
    cases outcome' with
    | ok value => exact ihNext left t _ _ told
    | error error => exact ihNext left t _ _ told
    | panicked payload => exact ⟨rfl, rfl, after⟩

end Carries

/-! ## Both ways of monitoring -/

/-- An execution whose work is written for a stack, on a stack of the caller, and the same execution
with suspendable work: on a stack of the caller, and inside of other suspendable work. It ends in the
same way, and afterwards the stack and the pool are the same, with the same calls to hooks, to the sink
and to reporters, each with the same values and in the same order, whatever is replied to them. The
task is as it was, with the stack back in its slot. Nothing else is different either, but for the names
of steps in the journal. -/
theorem async_monitoring_agrees (e : Execution) (body : Script) (ending : Outcome String String)
    (s : CallStack) (t : Task) (m : Monitor) :
    let sync := Monitor.execute id e (body.work e.name ending) s m
    let async := Monitor.executeAsync id e (body.onTask.work e.name ending) s t m
    let inTask := Monitor.executeInTask id e (body.onTask.work e.name ending) (t.enterScope s) m
    (async.1 = sync.1 ∧ async.2.1 = sync.2.1 ∧ async.2.2.1 = t ∧
      async.2.2.2.outline = sync.2.2.outline) ∧
    (inTask.1 = sync.1 ∧ inTask.2.1 = t.enterScope sync.2.1 ∧
      inTask.2.2.outline = sync.2.2.outline) ∧
    (async.2.2.2.retold = sync.2.2.retold ∧ inTask.2.2.retold = sync.2.2.retold) := by
  intro sync async inTask
  have calls := Script.work_carries congruence_outline (body.exec_carries congruence_outline)
    e.name ending
  rcases Monitor.executeAsync_carries id e congruence_outline calls s t rfl with
    ⟨outcome, stack, task, outline⟩
  rcases Monitor.executeInTask_carries id e congruence_outline calls s t m m rfl with
    ⟨outcome', task', outline'⟩
  refine ⟨⟨outcome, stack, task, outline.symm⟩, ⟨outcome', task', outline'.symm⟩, ?_⟩
  have told := Script.work_carries congruence_retold (body.exec_carries congruence_retold)
    e.name ending
  rcases Monitor.executeAsync_carries id e congruence_retold told s t rfl with ⟨-, -, -, same⟩
  rcases Monitor.executeInTask_carries id e congruence_retold told s t m m rfl with ⟨-, -, same'⟩
  exact ⟨same.symm, same'.symm⟩

/-- Work with a guard and a nested execution whose panic leaves a call open. -/
def handedWork : Script :=
  .scope "load" (.monitor (.clock (.advance 5)) <| .move (.io "disk" 7) .done) <|
  .protect
    (.run { name := "child", forwardable := true, hook := .panicking }
      (.move (.start "open") <| .monitor (.addReporter .log) <| .raise (.text "broken")) (.ok "") .done) <|
  .move .showTree .done

/-- An execution whose work is handed over. -/
def handedJob : Execution := { name := "job" }

theorem handed_work_agrees :
    let m := (Monitor.start { groupInterval := some 1 } .inMemory 0).addReporter .log
    let sync := Monitor.execute id handedJob (handedWork.work handedJob.name (.ok "")) {} m
    let inTask := Monitor.executeInTask id handedJob
      (handedWork.onTask.work handedJob.name (.ok "")) (Task.enterScope {} {}) m
    inTask.2.1 = Task.enterScope {} sync.2.1 ∧ inTask.2.2.retold = sync.2.2.retold := by
  intro m
  have agrees := async_monitoring_agrees handedJob handedWork (.ok "") {} {} m
  exact ⟨agrees.2.1.2.1, agrees.2.2.2⟩

end CallProfiler
