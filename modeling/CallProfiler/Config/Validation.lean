import CallProfiler.Config.Basic
import CallProfiler.Decimal.Notation

/-!
# Config.Validation: which settings the profiler can work with

A percentage lies between 0 and 100 and a rate is not negative; neither is NaN. The first setting
that is out of range is named in the error, in the order percentage, profiler rate, reporting rates.
A configuration that is shared by running code is only ever replaced by a valid one.
-/

namespace CallProfiler

/-- Why a configuration is refused. -/
inductive ConfigError where
  /-- A percentage is not between 0 and 100. -/
  | percentOutOfRange (value : Float)
  /-- A rate, given by the name of its setting, is negative or NaN. -/
  | negativeRate (setting : String) (value : Float)
  /-- The document could not be read. -/
  | unreadable (fault : Json.Fault)
  deriving Repr

/-- The text about a setting that is out of range, from what is wrong with it. -/
def invalidValueMessage (detail : String) : String := "Invalid configuration: " ++ detail

/-- The text of the error. -/
def ConfigError.message : ConfigError → String
  | .percentOutOfRange value => invalidValueMessage
    ("min_execution_time_percent must be within 0..=100, got " ++
      Decimal.FloatNotation.plain.write value)
  | .negativeRate setting value => invalidValueMessage
    (setting ++ " must be a non-negative number, got " ++ Decimal.FloatNotation.plain.write value)
  | .unreadable _ => "Failed to parse configuration"

namespace ProfilerConfig

/-- Whether a percentage is in range. -/
def percentInRange (percent : Float) : Bool := 0.0 ≤ percent && percent ≤ 100.0

/-- Whether a rate is in range; there is no upper bound. -/
def rateInRange (rate : Float) : Bool := !(rate.isNaN || rate < 0.0)

/-- The setting that holds the reporting rate of a type. -/
def reportingRateSetting (t : OperationType) : String :=
  "reporting_rate_limit_per_minute_per_operation_type." ++ t.name

/-- The named rates in the order in which they are checked. -/
def namedRates (config : ProfilerConfig) : List (String × Float) :=
  ("profiler_rate_limit_per_minute", config.profilerRatePerMinute) ::
    config.reportingRates.toList.map fun (t, rate) => (reportingRateSetting t, rate)

/-- The first setting that is out of range. -/
def fault? (config : ProfilerConfig) : Option ConfigError :=
  if !percentInRange config.minExecutionTimePercent then
    some (.percentOutOfRange config.minExecutionTimePercent)
  else (config.namedRates.find? fun (_, rate) => !rateInRange rate).map
    fun (setting, rate) => .negativeRate setting rate

/-- Accepts a configuration whose settings are all in range. -/
def validate (config : ProfilerConfig) : Except ConfigError Unit :=
  match config.fault? with
  | some e => .error e
  | none => .ok ()

/-- Replaces a shared configuration by a valid one; an invalid one is refused and the present one
stays. -/
def replace (current next : ProfilerConfig) : Except ConfigError Unit × ProfilerConfig :=
  match next.validate with
  | .ok () => (.ok (), next)
  | .error e => (.error e, current)

end ProfilerConfig

end CallProfiler
