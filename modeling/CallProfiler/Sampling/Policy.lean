import CallProfiler.NameMap
import CallProfiler.Sampling.RateLimit
import CallProfiler.Sampling.Warmup

/-!
# Sampling.Policy: which executions are monitored, recorded and reported

Three kinds of gates that do not touch each other:

* the warmup window, which is fixed at the start;
* the gate for recording: with a group interval of at least two, every so-manieth execution of a name
  is recorded; an interval of one records everything and a smaller one nothing; without an interval
  the profiler's rate limit decides;
* the gates for reporting, one per operation type with a limit.

A new configuration rebuilds the limits with full buckets. It keeps the warmup window and the counts
per name.
-/

namespace CallProfiler

/-- The limits that a configuration sets. -/
structure Limits where
  groupInterval : Option Int64
  profiler : RateLimit
  reporting : ByType RateLimit
  deriving Repr

/-- The limits of a configuration, with full buckets. -/
def Limits.ofConfig (config : ProfilerConfig) (now : Reading) : Limits where
  groupInterval := config.groupInterval
  profiler := .perMinute config.profilerRatePerMinute now
  reporting := config.reportingRates.map fun rate => .perMinute rate now

/-- The gates and what they remember. -/
structure SamplingPolicy where
  warmup : Warmup
  limits : Limits
  /-- How many executions of each name were counted while executions were grouped. -/
  counts : NameMap UInt64 := .empty
  deriving Repr

namespace SamplingPolicy

/-- The gates of a configuration; the warmup window starts now. -/
def start (config : ProfilerConfig) (now : Reading) : SamplingPolicy where
  warmup := .start config.warmupRequests (.ofParts config.warmupSeconds 0) now
  limits := .ofConfig config now

/-- Counts one execution against the warmup window. -/
def checkWarm (policy : SamplingPolicy) (now : Reading) : Bool × SamplingPolicy :=
  let (ended, warmup) := policy.warmup.check now
  (ended, { policy with warmup := warmup })

/-- How many executions of a name were counted. -/
def countOf (policy : SamplingPolicy) (name : String) : UInt64 := (policy.counts.get? name).getD 0

/-- Counts one execution of a name, and says whether its number is divisible by the interval. -/
def countGrouped (policy : SamplingPolicy) (name : String) (interval : UInt64) :
    Bool × SamplingPolicy :=
  (policy.countOf name % interval == 0,
    { policy with counts := policy.counts.alter name fun count => count.getD 0 + 1 })

/-- Whether an execution of a name is recorded. -/
def shouldProfile (policy : SamplingPolicy) (now : Reading) (name : String) :
    Bool × SamplingPolicy :=
  match policy.limits.groupInterval with
  | some interval =>
    -- an interval below two counts nothing
    if interval = 1 then (true, policy)
    else if interval < 1 then (false, policy)
    else policy.countGrouped name interval.toUInt64
  | none =>
    let (admitted, limit) := policy.limits.profiler.request now
    (admitted, { policy with limits := { policy.limits with profiler := limit } })

/-- Whether a finished execution of a type is reported. -/
def shouldReport (policy : SamplingPolicy) (now : Reading) (t : OperationType) :
    Bool × SamplingPolicy :=
  match policy.limits.reporting.get? t with
  | none => (true, policy)
  | some limit =>
    let (admitted, limit) := limit.request now
    (admitted, { policy with limits :=
      { policy.limits with reporting := policy.limits.reporting.set t limit } })

/-- Takes over the limits of a new configuration. -/
def reconfigure (policy : SamplingPolicy) (now : Reading) (config : ProfilerConfig) :
    SamplingPolicy :=
  { policy with limits := .ofConfig config now }

/-! ## What does not touch the warmup window -/

@[simp] theorem warmup_shouldProfile (policy : SamplingPolicy) (now : Reading) (name : String) :
    (policy.shouldProfile now name).2.warmup = policy.warmup := by
  unfold shouldProfile
  split
  · split
    · rfl
    · split <;> rfl
  · rfl

@[simp] theorem warmup_shouldReport (policy : SamplingPolicy) (now : Reading) (t : OperationType) :
    (policy.shouldReport now t).2.warmup = policy.warmup := by
  unfold shouldReport
  split <;> rfl

end SamplingPolicy

end CallProfiler
