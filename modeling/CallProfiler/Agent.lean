import CallProfiler.Config.Json
import CallProfiler.Monitor.Lifecycle

/-!
# Agent: a monitor that is ready to use

An agent is a monitor for a valid configuration, with metrics in memory and trees written to the log.
Its configuration can come from a document or from a file.
-/

namespace CallProfiler

/-- Why an agent cannot be made from a file. -/
inductive AgentError where
  /-- There is no such file. -/
  | notFound (path : String)
  /-- The file holds no valid configuration. -/
  | invalid (path : String) (cause : ConfigError)
  deriving Repr

/-- The text of the error, without its cause. -/
def AgentError.message : AgentError → String
  | .notFound path => "failed to read profiler config " ++ path
  | .invalid path _ => "invalid profiler config " ++ path

namespace Agent

/-- An agent for a configuration, which has to be valid. -/
def start (config : ProfilerConfig) (now : Reading) : Except ConfigError Monitor :=
  match config.validate with
  | .error e => .error e
  | .ok _ =>
    .ok { (Monitor.start config .inMemory now).addReporter .log with announcesReloads := true }

/-- An agent for the configuration in a document. -/
def ofJson (text : String) (now : Reading) : Except ConfigError Monitor :=
  match ProfilerConfig.ofJson text with
  | .error e => .error e
  | .ok config => start config now

/-- An agent for the configuration in a file, given the content of the file if there is one; it is
logged that the configuration was loaded. -/
def ofFile (path : String) (content : Option String) (now : Reading) : Except AgentError Monitor :=
  match content with
  | none => .error (.notFound path)
  | some text =>
    match ofJson text now with
    | .error e => .error (.invalid path e)
    | .ok agent => .ok (agent.logged .info ("Loaded profiler config from " ++ path))

end Agent

end CallProfiler
