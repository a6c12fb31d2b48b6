import CallProfiler.OperationType

/-!
# Config.Basic: the settings of the profiler

`ProfilerConfig` holds every setting. A `Settings` value holds those that someone has chosen;
`Settings.build` fills in the defaults and checks nothing.
-/

namespace CallProfiler

/-- Rate limits from here on admit everything. -/
def unlimitedRatePerMinute : Float := 1000000.0

/-- All settings. -/
structure ProfilerConfig where
  /-- Whether executions are monitored at all. -/
  monitoringActive : Bool := true
  /-- Nested calls faster than this are dropped while they are recorded. -/
  minExecutionTimeNanos : UInt64 := 100000
  /-- Calls faster than this share of the root's time are trimmed before a report; zero trims
  nothing. -/
  minExecutionTimePercent : Float := 0.0
  /-- How many executions after the start are never monitored. -/
  warmupRequests : UInt64 := 0
  /-- For how many seconds after the start nothing is monitored. -/
  warmupSeconds : UInt64 := 0
  /-- Record every so-manieth execution of a name, in place of a rate limit. -/
  groupInterval : Option Int64 := none
  /-- How many executions are recorded per minute. -/
  profilerRatePerMinute : Float := unlimitedRatePerMinute
  /-- How many trees are reported per minute, for the types with a limit of their own. -/
  reportingRates : ByType Float := .empty
  /-- Whether nodes are used again. -/
  poolingEnabled : Bool := true
  /-- Whether recorded trees are written to the log. -/
  logCallStacks : Bool := true
  /-- Whether trees are drawn with plain characters. -/
  asciiCallTree : Bool := true
  deriving BEq, Repr, Inhabited

namespace ProfilerConfig

/-- The settings of someone who has chosen nothing. -/
def default : ProfilerConfig := {}

/-- The reporting limit in force for a type; a type without a limit of its own is not limited. -/
def reportingRate (config : ProfilerConfig) (t : OperationType) : Float :=
  (config.reportingRates.get? t).getD unlimitedRatePerMinute

end ProfilerConfig

/-- Some chosen settings; the others are left open. -/
structure Settings where
  monitoringActive : Option Bool := none
  minExecutionTimeNanos : Option UInt64 := none
  minExecutionTimePercent : Option Float := none
  warmupRequests : Option UInt64 := none
  warmupSeconds : Option UInt64 := none
  groupInterval : Option Int64 := none
  profilerRatePerMinute : Option Float := none
  reportingRates : ByType Float := .empty
  poolingEnabled : Option Bool := none
  logCallStacks : Option Bool := none
  asciiCallTree : Option Bool := none
  deriving Repr, Inhabited

/-- The chosen settings with defaults for all others. -/
def Settings.build (chosen : Settings) : ProfilerConfig :=
  let base := ProfilerConfig.default
  { monitoringActive := chosen.monitoringActive.getD base.monitoringActive
    minExecutionTimeNanos := chosen.minExecutionTimeNanos.getD base.minExecutionTimeNanos
    minExecutionTimePercent := chosen.minExecutionTimePercent.getD base.minExecutionTimePercent
    warmupRequests := chosen.warmupRequests.getD base.warmupRequests
    warmupSeconds := chosen.warmupSeconds.getD base.warmupSeconds
    groupInterval := chosen.groupInterval <|> base.groupInterval
    profilerRatePerMinute := chosen.profilerRatePerMinute.getD base.profilerRatePerMinute
    reportingRates := chosen.reportingRates
    poolingEnabled := chosen.poolingEnabled.getD base.poolingEnabled
    logCallStacks := chosen.logCallStacks.getD base.logCallStacks
    asciiCallTree := chosen.asciiCallTree.getD base.asciiCallTree }

end CallProfiler
