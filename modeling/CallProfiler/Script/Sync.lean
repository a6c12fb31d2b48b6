import CallProfiler.Script.Move

/-!
# Script.Sync: programs on one stack

A program goes on from step to step. Its blocks are guarded scopes, blocks that catch panics, and
monitored executions, whose work is a program on the same stack with an ending of its own. A panic
leaves the blocks around it until it is caught; guards close their calls on the way.
-/

namespace CallProfiler

/-- A program on one stack. -/
inductive Script where
  | done
  | move (step : StackMove) (next : Script)
  | monitor (step : MonitorMove) (next : Script)
  | scope (signature : String) (body next : Script)
  | protect (body next : Script)
  | raise (payload : Payload)
  | run (execution : Execution) (body : Script) (ending : Outcome String String) (next : Script)

/-- How the work of an execution ends: as it was meant to, unless a panic came first. -/
def settle (result : Except Payload Unit) (ending : Outcome String String) : Outcome String String :=
  match result with
  | .error payload => .panicked payload
  | .ok _ => ending

/-- The answer of a block that catches panics. -/
def caughtAnswer : Except Payload Unit → Answer
  | .ok _ => .nothing
  | .error payload => .outcome (.panicked payload)

namespace Script

/-- The label of the first step. -/
def label : Script → String
  | .done => "done"
  | .move step _ => step.label
  | .monitor step _ => step.label
  | .scope _ _ _ => "scope"
  | .protect _ _ => "catch"
  | .raise _ => "panic"
  | .run _ _ _ _ => "run"

/-- Runs a program on a stack. -/
def exec : Script → CallStack → Monitor → Except Payload Unit × CallStack × Monitor
  | .done, s, m => (.ok (), s, m)
  | .move step next, s, m =>
    let (answer, s, profiler) := step.apply s m.profiler
    next.exec s ({ m with profiler := profiler }.stepped step.label answer (some s))
  | .monitor step next, s, m =>
    let (answer, m) := step.apply m
    next.exec s (m.stepped step.label answer (some s))
  | .scope signature body next, s, m =>
    let (armed, s, profiler) := s.enter m.profiler signature
    let m := { m with profiler := profiler }.stepped "scope" .nothing (some s)
    let (result, s, m) := body.exec s m
    let (s, profiler) := s.leave m.profiler armed
    let m := { m with profiler := profiler }
    match result with
    | .error payload => (.error payload, s, m)
    | .ok _ => next.exec s (m.stepped "scope_end" .nothing (some s))
  | .protect body next, s, m =>
    let (result, s, m) := body.exec s m
    next.exec s (m.stepped "catch" (caughtAnswer result) (some s))
  | .raise payload, s, m => (.error payload, s, m)
  | .run execution body ending next, s, m =>
    let work := fun s (m : Monitor) =>
      let (result, s, m) := body.exec s (m.stepped "work" (.name execution.name) (some s))
      (settle result ending, s, m)
    let (outcome, s, m) := Monitor.execute id execution work s m
    match outcome with
    | .panicked payload => (.error payload, s, m)
    | outcome => next.exec s (m.stepped "run" (.outcome outcome) (some s))

end Script

end CallProfiler
