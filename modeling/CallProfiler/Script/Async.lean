import CallProfiler.Monitor.Async
import CallProfiler.Script.Sync

/-!
# Script.Async: programs on a task

These programs reach their stack through the slot of their task. Besides guarded scopes, caught
panics and monitored executions they have blocks that run a program on the stack in the slot or on a
stack that was taken out, and scopes with a stack of their own.
-/

namespace CallProfiler

/-- A program on a task. -/
inductive TaskScript where
  | done
  | move (step : TaskMove) (next : TaskScript)
  | monitor (step : MonitorMove) (next : TaskScript)
  | enter (signature : String) (body next : TaskScript)
  | protect (body next : TaskScript)
  | raise (payload : Payload)
  | onTaken (body : Script) (next : TaskScript)
  | withStack (body : Script) (next : TaskScript)
  | scope (activate : Option String) (body : TaskScript) (after : Script) (next : TaskScript)
  | run (execution : Execution) (body : TaskScript) (ending : Outcome String String)
      (next : TaskScript)

namespace Task

/-- Runs a program on the stack that was taken out last, which stays taken out; `none` if there is
none. -/
def execOnTaken (t : Task) (m : Monitor) (body : Script) :
    Option (Except Payload Unit) × Task × Monitor :=
  match t.taken with
  | [] => (none, t, m)
  | stack :: taken =>
    let (result, stack, m) := body.exec stack m
    (some result, { t with taken := stack :: taken }, m)

/-- Runs a program on the stack in the innermost slot; `none` if there is none. -/
def execOnSlot (t : Task) (m : Monitor) (body : Script) :
    Option (Except Payload Unit) × Task × Monitor :=
  match t.stack? with
  | none => (none, t, m)
  | some stack =>
    let (result, stack, m) := body.exec stack m
    (some result, t.setSlot (some stack), m)

/-- Leaves a scope through which a panic passes: the stack in its slot is dropped. -/
def abandonScope (t : Task) (m : Monitor) : Task × Monitor :=
  ({ t with slots := t.slots.tail }, match t.stack? with
    | some stack => m.dropStack stack
    | none => m)

end Task

namespace TaskScript

/-- Runs a program on a task. -/
def exec : TaskScript → Task → Monitor → Except Payload Unit × Task × Monitor
  | .done, t, m => (.ok (), t, m)
  | .move step next, t, m =>
    let (answer, t, profiler) := step.apply t m.profiler
    next.exec t ({ m with profiler := profiler }.stepped step.label answer t.stack?)
  | .monitor step next, t, m =>
    let (answer, m) := step.apply m
    next.exec t (m.stepped step.label answer t.stack?)
  | .enter signature body next, t, m =>
    let (armed, t, profiler) := t.enter m.profiler signature
    let m := { m with profiler := profiler }.stepped "enter" .nothing t.stack?
    let (result, t, m) := body.exec t m
    let (t, profiler) := t.leave m.profiler armed
    let m := { m with profiler := profiler }
    match result with
    | .error payload => (.error payload, t, m)
    | .ok _ => next.exec t (m.stepped "enter_end" .nothing t.stack?)
  | .protect body next, t, m =>
    let (result, t, m) := body.exec t m
    next.exec t (m.stepped "catch" (caughtAnswer result) t.stack?)
  | .raise payload, t, m => (.error payload, t, m)
  | .onTaken body next, t, m =>
    match t.execOnTaken m body with
    | (some (.error payload), t, m) => (.error payload, t, m)
    | (result, t, m) => next.exec t (m.stepped "on_taken" (.flag result.isSome) t.stack?)
  | .withStack body next, t, m =>
    match t.execOnSlot m body with
    | (some (.error payload), t, m) => (.error payload, t, m)
    | (result, t, m) => next.exec t (m.stepped "with" (.flag result.isSome) t.stack?)
  | .scope activate body after next, t, m =>
    let (stack, profiler) := match activate with
      | some signature => (m.profiler.stack.activate m.profiler signature).2
      | none => (m.profiler.stack, m.profiler)
    let m := { m with profiler := profiler }
    let fallback := m.profiler.stack
    match body.exec (t.enterScope stack) m with
    -- a panic leaves the scope: nobody gets the stack back
    | (.error payload, t, m) =>
      let (t, m) := t.abandonScope m
      (.error payload, t, m)
    | (.ok _, t, m) =>
      let (stack, t) := t.leaveScope fallback
      let (result, stack, m) := after.exec stack (m.stepped "task_end" .nothing (some stack))
      let m := m.dropStack stack
      match result with
      | .error payload => (.error payload, t, m)
      | .ok _ => next.exec t (m.stepped "task_dropped" .nothing t.stack?)
  | .run execution body ending next, t, m =>
    let work := fun t (m : Monitor) =>
      let (result, t, m) := body.exec t (m.stepped "work" (.name execution.name) t.stack?)
      (settle result ending, t, m)
    let (outcome, t, m) := Monitor.executeInTask id execution work t m
    match outcome with
    | .panicked payload => (.error payload, t, m)
    | outcome => next.exec t (m.stepped "run" (.outcome outcome) t.stack?)

end TaskScript

end CallProfiler
