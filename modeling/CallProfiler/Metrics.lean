import CallProfiler.Clock
import CallProfiler.Json.Text
import CallProfiler.NameMap

/-!
# Metrics: timers and error counters by name

Every update of a timer adds one duration to its statistics; every failure adds one to an error
counter. Durations are cut at the greatest 64-bit number, and so is their total. All executions
together are kept under the name `aggregateName`.
-/

namespace CallProfiler

/-- The name under which all executions are counted together. -/
def aggregateName : String := "All"

/-- The durations of one name. -/
structure TimerStats where
  count : UInt64
  total : UInt64
  fastest : UInt64
  slowest : UInt64
  deriving DecidableEq, Repr

namespace TimerStats

/-- The statistics of a single duration. -/
def first (nanos : UInt64) : TimerStats := ⟨1, nanos, nanos, nanos⟩

/-- Adds a duration. -/
def record (s : TimerStats) (nanos : UInt64) : TimerStats where
  count := s.count + 1
  total := saturatingAdd s.total nanos
  fastest := min s.fastest nanos
  slowest := max s.slowest nanos

/-- The mean duration, rounded down; zero without a duration. -/
def mean (s : TimerStats) : UInt64 := if s.count = 0 then 0 else s.total / s.count

/-- The statistics as a document. -/
def write (s : TimerStats) : List Char :=
  Json.object [
    Json.member "count" (Json.natural s.count.toNat),
    Json.member "totalNanos" (Json.natural s.total.toNat),
    Json.member "minNanos" (Json.natural s.fastest.toNat),
    Json.member "maxNanos" (Json.natural s.slowest.toNat)]

end TimerStats

/-- All timers and error counters, by name. -/
structure Metrics where
  timers : NameMap TimerStats := .empty
  errors : NameMap UInt64 := .empty
  deriving DecidableEq, Repr

/-- An update of the metrics. -/
inductive MetricsUpdate where
  | timer (name : String) (elapsed : Duration)
  | error (name : String)
  deriving DecidableEq, Repr

namespace Metrics

/-- No timers and no counters. -/
def empty : Metrics := {}

/-- The timer of a name, if it was ever updated. -/
def timer? (m : Metrics) (name : String) : Option TimerStats := m.timers.get? name

/-- The error counter of a name. -/
def errorCount (m : Metrics) (name : String) : UInt64 := (m.errors.get? name).getD 0

/-- Adds a duration to the timer of a name. -/
def updateTimer (m : Metrics) (name : String) (elapsed : Duration) : Metrics :=
  { m with timers := m.timers.alter name fun
      | some stats => stats.record elapsed.capped
      | none => .first elapsed.capped }

/-- Adds one to the error counter of a name. -/
def incrementErrors (m : Metrics) (name : String) : Metrics :=
  { m with errors := m.errors.alter name fun count => count.getD 0 + 1 }

/-- Makes an update. -/
def apply (m : Metrics) : MetricsUpdate → Metrics
  | .timer name elapsed => m.updateTimer name elapsed
  | .error name => m.incrementErrors name

/-- The metrics as a document, ordered by name. -/
def toJson (m : Metrics) : String :=
  String.ofList (Json.object [
    Json.member "timers" (Json.object (m.timers.entries.map fun (name, stats) =>
      Json.member name stats.write)),
    Json.member "errors" (Json.object (m.errors.entries.map fun (name, count) =>
      Json.member name (Json.natural count.toNat)))])

end Metrics

end CallProfiler
