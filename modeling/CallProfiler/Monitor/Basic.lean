import CallProfiler.Journal
import CallProfiler.Sampling.Policy

/-!
# Monitor.Basic: the monitor and what it talks to

The monitor owns the profiler, the sampling policy and the shared configuration, hands durations and
errors to a metrics sink, and finished executions to reporters. Sinks and reporters may do anything:
their replies are functions of all that has been heard before (`Journal.heard`).
-/

namespace CallProfiler

/-- A consumer of finished executions. -/
structure Reporter where
  name : String
  /-- Whether a report is wanted, given what has been heard and the shared configuration. -/
  gate : Journal → ProfilerConfig → ExecutionReport → Gate
  /-- What happens to a wanted report: what is added to the journal, and the reply. -/
  deliver : Journal → ProfilerConfig → ExecutionReport → List Note × Reply ReportError

namespace Reporter

/-- The reporter that writes trees to the log. Whether it does, and how trees are drawn, follows the
shared configuration. -/
def log : Reporter where
  name := "log"
  gate := fun _ config report =>
    if report.tree.isSome && config.logCallStacks then .wanted else .unwanted
  deliver := fun _ config report =>
    (((report.logText ⟨config.asciiCallTree⟩).map (Note.log .info)).toList, .accepted)

end Reporter

/-- A destination of durations and error counts. -/
structure MetricsSink where
  /-- The reply to an update, given what has been heard before. -/
  reply : Journal → MetricsUpdate → Reply MetricsError

namespace MetricsSink

/-- The sink that takes everything. -/
def inMemory : MetricsSink := ⟨fun _ _ => .accepted⟩

end MetricsSink

/-- The monitor and all that it has seen. -/
structure Monitor where
  profiler : Profiler
  policy : SamplingPolicy
  /-- The shared configuration. -/
  config : ProfilerConfig
  sink : MetricsSink := .inMemory
  /-- The updates that the sink has accepted. -/
  metrics : Metrics := .empty
  reporters : List Reporter := []
  /-- Whether it is logged that a new configuration was taken over. -/
  announcesReloads : Bool := false
  journal : Journal := #[]

namespace Monitor

/-- A monitor for a configuration, which is not checked. -/
def start (config : ProfilerConfig) (sink : MetricsSink) (now : Reading) : Monitor where
  profiler := .start now config.poolingEnabled config.minExecutionTimeNanos
  policy := .start config now
  config := config
  sink := sink

/-- The reading of the clock. -/
def now (m : Monitor) : Reading := m.profiler.now

/-- Adds to the journal. -/
def enter (m : Monitor) (entry : Entry) : Monitor := { m with journal := m.journal.push entry }

/-- Logs a message. -/
def logged (m : Monitor) (level : LogLevel) (message : String) : Monitor :=
  m.enter (.note (.log level message))

/-- Adds a step with what can be seen after it. -/
def stepped (m : Monitor) (label : String) (answer : Answer) (stack : Option CallStack) : Monitor :=
  m.enter (.step label answer (.of stack m.profiler.pool))

/-- Drops a stack. -/
def dropStack (m : Monitor) (stack : CallStack) : Monitor :=
  { m with profiler := stack.drop m.profiler }

/-- Registers a reporter behind the present ones. -/
def addReporter (m : Monitor) (reporter : Reporter) : Monitor :=
  { m with reporters := m.reporters ++ [reporter] }

/-- Takes over a new configuration: the limits, the threshold of recordings to come, and the shared
configuration. An invalid one is refused before anything is changed. -/
def reconfigure (m : Monitor) (next : ProfilerConfig) : Except ConfigError Unit × Monitor :=
  match next.validate with
  | .error e => (.error e, m)
  | .ok () =>
    let m := { m with
      policy := m.policy.reconfigure m.now next
      profiler := { m.profiler with threshold := next.minExecutionTimeNanos } }
    let (result, config) := m.config.replace next
    (result, { m with config := config })

/-- Takes over a new configuration, and logs it where that is asked for. -/
def reload (m : Monitor) (next : ProfilerConfig) : Except ConfigError Unit × Monitor :=
  match m.reconfigure next with
  | (.ok (), m) =>
    (.ok (), if m.announcesReloads then m.logged .info "Profiler configuration reloaded" else m)
  | (.error e, m) => (.error e, m)

/-- Passes an update to the sink; the reply goes to the journal. -/
def updateMetrics (m : Monitor) (update : MetricsUpdate) : Reply MetricsError × Monitor :=
  let reply := m.sink.reply m.journal.heard update
  let metrics := match reply with
    | .accepted => m.metrics.apply update
    | _ => m.metrics
  (reply, { m with metrics := metrics }.enter (.update update reply))

end Monitor

end CallProfiler
