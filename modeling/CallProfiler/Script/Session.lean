import CallProfiler.Script.Async

/-!
# Script.Session: programs on several stacks

A session numbers its stacks and works through commands. A command runs a program on one of the
stacks, or a program on a task, or makes, moves and drops stacks. A panic that reaches a command ends
it; the session goes on with the next one.
-/

namespace CallProfiler

/-- A command of a session; `k` numbers a stack. -/
inductive Command where
  | on (k : Nat) (script : Script)
  | runAsync (k : Nat) (execution : Execution) (body : TaskScript) (ending : Outcome String String)
  | async (k : Nat) (body : TaskScript)
  | newStack
  | takeStack (k : Nat)
  | dropStack (k : Nat)

/-- The stacks of a session, and the stacks that its tasks have taken out. -/
structure Session where
  monitor : Monitor
  cursors : Array CallStack
  taken : List CallStack := []

namespace Session

/-- A session with one stack. -/
def start (m : Monitor) : Session := { monitor := m, cursors := #[m.profiler.stack] }

/-- The stack with a number. -/
def stack (s : Session) (k : Nat) : CallStack := (s.cursors[k]?).getD s.monitor.profiler.stack

/-- Stores what a command leaves of a stack and of the monitor. -/
def update (s : Session) (k : Nat) (stack : CallStack) (m : Monitor) : Session :=
  { s with monitor := m, cursors := s.cursors.setIfInBounds k stack }

/-- Works through one command. -/
def exec (s : Session) : Command → Session
  | .on k script =>
    match script.exec (s.stack k) s.monitor with
    | (.ok _, stack, m) => s.update k stack m
    | (.error payload, stack, m) =>
      s.update k stack (m.stepped script.label (.outcome (.panicked payload)) (some stack))
  | .runAsync k execution body ending =>
    let work := fun t (m : Monitor) =>
      let (result, t, m) := body.exec t (m.stepped "work" (.name execution.name) t.stack?)
      (settle result ending, t, m)
    let (outcome, stack, task, m) :=
      s.monitor.executeAsync id execution work (s.stack k) { taken := s.taken }
    { s.update k stack (m.stepped "run_async" (.outcome outcome) (some stack)) with
      taken := task.taken }
  | .async k body =>
    let (result, task, m) := body.exec { taken := s.taken } s.monitor
    let stack := s.stack k
    { s.update k stack (m.stepped "async" (caughtAnswer result) (some stack)) with
      taken := task.taken }
  | .newStack =>
    let stack := s.monitor.profiler.stack
    { s with
      monitor := s.monitor.stepped "new_stack" (.count s.cursors.size) (some stack)
      cursors := s.cursors.push stack }
  | .takeStack k =>
    let (moved, left) := (s.stack k).take
    let answer := Answer.status (.of (some moved) s.monitor.profiler.pool)
    let s := s.update k left (s.monitor.stepped "take_stack" answer (some left))
    { s with cursors := s.cursors.push moved }
  | .dropStack k =>
    let m := s.monitor.dropStack (s.stack k)
    let stack := m.profiler.stack
    s.update k stack (m.stepped "drop_stack" .nothing (some stack))

/-- Drops all stacks. -/
def close (s : Session) : Monitor :=
  (s.cursors.toList.foldl Monitor.dropStack s.monitor).stepped "end" .nothing none

/-- Works through commands one after the other, and drops all stacks. -/
def run (m : Monitor) (commands : List Command) : Monitor :=
  (commands.foldl exec (start m)).close

/-- Runs one program on a task, and drops the stacks that it has taken out. -/
def runTask (m : Monitor) (body : TaskScript) : Monitor :=
  let (result, task, m) := body.exec {} m
  (task.taken.foldl Monitor.dropStack m).stepped "end" (caughtAnswer result) none

end Session

end CallProfiler
