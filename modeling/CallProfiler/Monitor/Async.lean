import CallProfiler.Monitor.Lifecycle
import CallProfiler.Task

/-!
# Monitor.Async: running suspendable work under monitoring

The stack is moved into a scope of the task while the work runs, and comes back from the slot of that
scope. All else is as for other work. An execution inside such work has no stack of its own at hand:
it takes the one in the task's slot and puts it back afterwards, however it ends.
-/

namespace CallProfiler.Monitor

/-- Runs suspendable work under monitoring, with a stack that belongs to the caller. -/
def executeAsync {ε α : Type} (describe : ε → String) (e : Execution)
    (work : Task → Monitor → Outcome ε α × Task × Monitor)
    (stack : CallStack) (task : Task) (m : Monitor) :
    Outcome ε α × CallStack × Task × Monitor :=
  let (mode, stack, m) := m.prepare stack e
  let started := m.now
  -- for the case that the work takes the stack out of its slot and keeps it
  let fallback := m.profiler.stack
  let (outcome, task, m) := work (task.enterScope stack) m
  let (stack, task) := task.leaveScope fallback
  if mode = .bare then (outcome, stack, task, m)
  else
    let (stack, m) := m.conclude stack mode e started (outcome.failure? describe)
    (outcome, stack, task, m)

/-- Runs suspendable work under monitoring with the stack in the task's slot, or with a stack of its
own if there is none. -/
def executeInTask {ε α : Type} (describe : ε → String) (e : Execution)
    (work : Task → Monitor → Outcome ε α × Task × Monitor)
    (task : Task) (m : Monitor) : Outcome ε α × Task × Monitor :=
  match task.takeStack with
  | (none, task) =>
    let (outcome, stack, task, m) := executeAsync describe e work m.profiler.stack task m
    (outcome, task, m.dropStack stack)
  | (some stack, task) =>
    let (outcome, stack, task, m) := executeAsync describe e work stack task m
    let (task, profiler) := task.restoreStack m.profiler stack
    (outcome, task, { m with profiler := profiler })

end CallProfiler.Monitor
