import CallProfiler.Config.Validation

/-!
# Config.Json: configurations as documents

A document gives some settings by name; the others keep their defaults, and names that are no
setting are skipped. A configuration is written with all its settings in a fixed order. Reading
checks the settings only after the whole document is read.
-/

namespace CallProfiler

/-- The settings, in the order in which they are written. -/
inductive ConfigField where
  | monitoringActive
  | minExecutionTimeNanos
  | minExecutionTimePercent
  | warmupRequests
  | warmupSeconds
  | groupInterval
  | profilerRate
  | reportingRates
  | poolingEnabled
  | logCallStacks
  | asciiCallTree
  deriving DecidableEq, Repr

namespace ConfigField

/-- All settings in their order. -/
def all : List ConfigField :=
  [.monitoringActive, .minExecutionTimeNanos, .minExecutionTimePercent, .warmupRequests,
    .warmupSeconds, .groupInterval, .profilerRate, .reportingRates, .poolingEnabled,
    .logCallStacks, .asciiCallTree]

/-- The name of a setting in documents. -/
def name : ConfigField → String
  | .monitoringActive => "monitoring_active"
  | .minExecutionTimeNanos => "min_execution_time_nanos"
  | .minExecutionTimePercent => "min_execution_time_percent"
  | .warmupRequests => "warmup_requests"
  | .warmupSeconds => "warmup_seconds"
  | .groupInterval => "call_stack_every_x_requests_to_group"
  | .profilerRate => "profiler_rate_limit_per_minute"
  | .reportingRates => "reporting_rate_limit_per_minute_per_operation_type"
  | .poolingEnabled => "pooling_enabled"
  | .logCallStacks => "log_call_stacks"
  | .asciiCallTree => "ascii_call_tree"

/-- The rates of some operation types; of a type that occurs twice the last rate counts. -/
def readRates (depth : Nat) : Json.Reader (ByType Float) :=
  Json.readObject depth (fun rates name input =>
    match OperationType.ofName? name with
    | none => .error .mismatched
    | some t => do
      let (rate, rest) ← Json.readFloat (← Json.expectColon input)
      .ok (rates.set t rate, rest)) .empty

/-- Reads the value of a setting into a configuration; `depth` brackets may be opened in it. -/
def read (depth : Nat) (field : ConfigField) (config : ProfilerConfig) : Json.Reader ProfilerConfig :=
  fun input => match field with
    | .monitoringActive => (Json.readBool input).map fun (v, rest) =>
      ({ config with monitoringActive := v }, rest)
    | .minExecutionTimeNanos => (Json.readUInt64 input).map fun (v, rest) =>
      ({ config with minExecutionTimeNanos := v }, rest)
    | .minExecutionTimePercent => (Json.readFloat input).map fun (v, rest) =>
      ({ config with minExecutionTimePercent := v }, rest)
    | .warmupRequests => (Json.readUInt64 input).map fun (v, rest) =>
      ({ config with warmupRequests := v }, rest)
    | .warmupSeconds => (Json.readUInt64 input).map fun (v, rest) =>
      ({ config with warmupSeconds := v }, rest)
    | .groupInterval => (Json.readOptional Json.readInt64 input).map fun (v, rest) =>
      ({ config with groupInterval := v }, rest)
    | .profilerRate => (Json.readFloat input).map fun (v, rest) =>
      ({ config with profilerRatePerMinute := v }, rest)
    | .reportingRates => (readRates depth input).map fun (v, rest) =>
      ({ config with reportingRates := v }, rest)
    | .poolingEnabled => (Json.readBool input).map fun (v, rest) =>
      ({ config with poolingEnabled := v }, rest)
    | .logCallStacks => (Json.readBool input).map fun (v, rest) =>
      ({ config with logCallStacks := v }, rest)
    | .asciiCallTree => (Json.readBool input).map fun (v, rest) =>
      ({ config with asciiCallTree := v }, rest)

/-- The value of a setting as a document. -/
def write (config : ProfilerConfig) : ConfigField → List Char
  | .monitoringActive => Json.boolean config.monitoringActive
  | .minExecutionTimeNanos => Json.natural config.minExecutionTimeNanos.toNat
  | .minExecutionTimePercent => Json.float config.minExecutionTimePercent
  | .warmupRequests => Json.natural config.warmupRequests.toNat
  | .warmupSeconds => Json.natural config.warmupSeconds.toNat
  | .groupInterval => match config.groupInterval with
    | none => Json.null
    | some interval => Json.integer interval.toInt
  | .profilerRate => Json.float config.profilerRatePerMinute
  | .reportingRates => Json.object
    (config.reportingRates.toList.map fun (t, rate) => Json.member t.name (Json.float rate))
  | .poolingEnabled => Json.boolean config.poolingEnabled
  | .logCallStacks => Json.boolean config.logCallStacks
  | .asciiCallTree => Json.boolean config.asciiCallTree

/-- How configurations are read: every setting may be left out. -/
def shape (depth : Nat) : Json.RecordShape ConfigField ProfilerConfig where
  fields := all
  name := name
  required := fun _ => false
  read := read depth

end ConfigField

namespace ProfilerConfig

/-- The configuration as a document. -/
def toJson (config : ProfilerConfig) : String :=
  String.ofList (Json.object (ConfigField.all.map fun field =>
    Json.member field.name (field.write config)))

/-- Reads a document without checking the settings. -/
def parse (text : String) : Except Json.Fault ProfilerConfig :=
  Json.readDocument ((ConfigField.shape (Json.depthLimit - 1)).reader Json.depthLimit .default) text

/-- Reads a document and checks the settings. -/
def ofJson (text : String) : Except ConfigError ProfilerConfig :=
  match parse text with
  | .error fault => .error (.unreadable fault)
  | .ok config => config.validate.map fun _ => config

end ProfilerConfig

end CallProfiler
