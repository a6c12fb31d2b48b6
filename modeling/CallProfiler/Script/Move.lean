import CallProfiler.Monitor.Lifecycle
import CallProfiler.Task

/-!
# Script.Move: the single steps of programs

A program is made of steps on a stack, on a task, or on the monitor, and of blocks that hold further
steps. The steps without blocks are listed here, with their labels in the journal and their answers.
-/

namespace CallProfiler

/-! ## Steps on the monitor -/

/-- A step that needs no stack. -/
inductive MonitorMove where
  | clock (step : ClockStep)
  | setThreshold (nanos : UInt64)
  | reload (config : ProfilerConfig)
  | showConfig
  | showMetrics
  | addReporter (reporter : Reporter)
  | countError (name : String)
  | askReport (operationType : OperationType)

/-- The label of a movement of the clock. -/
def ClockStep.label : ClockStep → String
  | .advance _ => "advance"
  | .advanceMillis _ => "advance_ms"
  | .advanceBy _ => "advance_duration"
  | .set _ => "set"
  | .read => "now"

namespace MonitorMove

/-- The label of the step. -/
def label : MonitorMove → String
  | .clock step => step.label
  | .setThreshold _ => "set_min"
  | .reload _ => "reconfigure"
  | .showConfig => "config"
  | .showMetrics => "metrics"
  | .addReporter _ => "add_reporter"
  | .countError _ => "sink_direct"
  | .askReport _ => "policy_report"

/-- Makes the step. -/
def apply (m : Monitor) : MonitorMove → Answer × Monitor
  | .clock step =>
    let m := { m with profiler := m.profiler.tick step }
    (.reading m.now, m)
  | .setThreshold nanos =>
    (.reading nanos, { m with profiler := { m.profiler with threshold := nanos } })
  | .reload config =>
    match m.reload config with
    | (.ok (), m) => (.done, m)
    | (.error e, m) => (.invalid e, m)
  | .showConfig => (.config m.config, m)
  | .showMetrics => (.metrics m.metrics, m)
  | .addReporter reporter =>
    let m := m.addReporter reporter
    (.count m.reporters.length, m)
  | .countError name =>
    let (reply, m) := m.updateMetrics (.error name)
    (.reply reply, m)
  | .askReport t =>
    let (admitted, policy) := m.policy.shouldReport m.now t
    (.flag admitted, { m with policy := policy })

/-- The answer of a reload does not matter to the monitor. -/
theorem apply_reload (next : ProfilerConfig) (m : Monitor) :
    ((MonitorMove.reload next).apply m).2 = (m.reload next).2 := by
  unfold apply
  dsimp only
  split <;> rename_i h <;> rw [h]

end MonitorMove

/-! ## Steps on a stack -/

/-- A step on a stack. -/
inductive StackMove where
  | activate (signature : String)
  | start (signature : String)
  | stop
  | stopAs (signature : String)
  | rename (signature : String)
  | io (description : String) (duration : UInt64)
  | deactivate
  | showTree
  | render (ascii : Bool)
  | showState
  deriving DecidableEq, Repr

namespace StackMove

/-- The label of the step. -/
def label : StackMove → String
  | .activate _ => "activate"
  | .start _ => "start"
  | .stop => "stop"
  | .stopAs _ => "stop_as"
  | .rename _ => "rename"
  | .io _ _ => "io"
  | .deactivate => "deactivate"
  | .showTree => "tree"
  | .render _ => "render"
  | .showState => "state"

/-- Makes the step. A tree that is finished by it is shown and given back. -/
def apply (s : CallStack) (p : Profiler) : StackMove → Answer × CallStack × Profiler
  | .activate signature =>
    let (result, s, p) := s.activate p signature
    (match result with
      | .ok root => .handle root
      | .error e => .refused e, s, p)
  | .start signature => (.nothing, s.start p signature)
  | .stop =>
    let (tree, s, p) := s.stop p
    (.ofTree tree, s, p.recycle? tree)
  | .stopAs signature =>
    let (tree, s, p) := s.stopWith p (some signature)
    (.ofTree tree, s, p.recycle? tree)
  | .rename signature =>
    let (result, s) := s.setCurrentSignature signature
    (match result with
      | .ok _ => .done
      | .error e => .refused e, s, p)
  | .io description duration => (.nothing, s.addIoCall p description duration)
  | .deactivate => (.nothing, s.deactivate p)
  | .showTree => (match s.tree? with
      | some tree => .snapshot tree.snapshot
      | none => .nothing, s, p)
  | .render ascii => (match s.tree? with
      | some tree => .text (TreeStyle.render ⟨ascii⟩ tree)
      | none => .nothing, s, p)
  | .showState => (.nothing, s, p)

end StackMove

/-! ## Steps on a task -/

/-- A step on a task. -/
inductive TaskMove where
  | start (signature : String)
  | stop
  | io (description : String) (duration : UInt64)
  | askActive
  | suspend
  | take
  | restore
  deriving DecidableEq, Repr

namespace TaskMove

/-- The label of the step. -/
def label : TaskMove → String
  | .start _ => "start"
  | .stop => "stop"
  | .io _ _ => "io"
  | .askActive => "active"
  | .suspend => "yield"
  | .take => "take"
  | .restore => "restore"

/-- Makes the step. A tree that is finished by it is shown and given back. -/
def apply (t : Task) (p : Profiler) : TaskMove → Answer × Task × Profiler
  | .start signature => (.nothing, t.start p signature)
  | .stop =>
    let (tree, t, p) := t.stop p
    (.ofTree tree, t, p.recycle? tree)
  | .io description duration => (.nothing, t.addIoCall p description duration)
  | .askActive => (.flag t.isActive, t, p)
  | .suspend => (.nothing, t, p)
  | .take =>
    match t.takeStack with
    | (some stack, t) =>
      (.status (.of (some stack) p.pool), { t with taken := stack :: t.taken }, p)
    | (none, t) => (.status (.of none p.pool), t, p)
  | .restore =>
    match t.taken with
    | [] => (.flag false, t, p)
    | stack :: taken => (.flag true, { t with taken := taken }.restoreStack p stack)

end TaskMove

end CallProfiler
