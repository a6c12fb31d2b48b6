import CallProfiler.Config.Validation
import CallProfiler.Metrics
import CallProfiler.Report
import CallProfiler.Stack

/-!
# Journal: everything that happens, in order

A journal lists the steps of a program with their answers, the messages that are logged, and every
call that the monitor makes to hooks, to the metrics sink and to reporters, with its reply. The steps
are a trace of the program for those who look at its journal afterwards; `Journal.heard` leaves them
out, and is all that the sink and the reporters get.
-/

namespace CallProfiler

/-- The importance of a message. -/
inductive LogLevel where
  | info
  | warning
  deriving DecidableEq, Repr

/-- Why a metrics sink refuses an update. -/
inductive MetricsError where
  | rejected (name reason : String)
  | other (text : String)
  deriving DecidableEq, Repr

/-- The text of the error. -/
def MetricsError.message : MetricsError → String
  | .rejected name reason => "Metrics sink rejected update for " ++ name ++ ": " ++ reason
  | .other text => text

/-- Why a reporter does not take a report. -/
inductive ReportError where
  | failed (reporter reason : String)
  | io (text : String)
  | other (text : String)
  deriving DecidableEq, Repr

/-- The text of the error. -/
def ReportError.message : ReportError → String
  | .failed reporter reason => "Reporter " ++ reporter ++ " failed: " ++ reason
  | .io text => "IO error: " ++ text
  | .other text => text

/-- The reply of something that may refuse or panic. -/
inductive Reply (ε : Type) where
  | accepted
  | refused (error : ε)
  | panicked
  deriving DecidableEq, Repr

/-- Whether a reporter wants a report. -/
inductive Gate where
  | wanted
  | unwanted
  | panicked
  deriving DecidableEq, Repr

/-- What can be seen of a stack and of the pool. -/
structure Status where
  /-- The state of the stack; `none` if no stack is at hand. -/
  state : Option StackState
  depth : Nat
  signature : Option String
  allocated : UInt64
  reused : UInt64
  available : Nat
  deriving DecidableEq, Repr

/-- What can be seen of a stack, if one is at hand, and of the pool. -/
def Status.of (stack : Option CallStack) (pool : NodePool) : Status where
  state := stack.map CallStack.state
  depth := (stack.map CallStack.depth).getD 0
  signature := stack.bind CallStack.currentSignature
  allocated := pool.allocated
  reused := pool.reused
  available := pool.available

/-- The answer to a step. -/
inductive Answer where
  | nothing
  | done
  | name (text : String)
  | text (text : String)
  | flag (value : Bool)
  | count (value : Nat)
  | reading (value : UInt64)
  | handle (node : NodeRef)
  | refused (error : RecordError)
  | invalid (error : ConfigError)
  | snapshot (tree : Option Snapshot)
  | finished (tree : Option Snapshot) (size : Nat)
  | status (status : Status)
  | config (config : ProfilerConfig)
  | metrics (metrics : Metrics)
  | outcome (outcome : Outcome String String)
  | reply (reply : Reply MetricsError)
  deriving Repr

/-- The answer that hands over a tree, if one was finished. -/
def Answer.ofTree : Option CallTree → Answer
  | some tree => .finished tree.snapshot tree.size
  | none => .nothing

/-- What a reporter may add to a journal. -/
inductive Note where
  | log (level : LogLevel) (message : String)
  | received (reporter : String) (report : ExecutionReport)
  deriving DecidableEq, Repr

/-- Something that happened. -/
inductive Entry where
  | step (label : String) (answer : Answer) (status : Status)
  | note (note : Note)
  | hook (info : ExecutionInfo)
  | update (update : MetricsUpdate) (reply : Reply MetricsError)
  | gate (reporter : String) (report : ExecutionReport) (gate : Gate)
  | delivery (reporter : String) (report : ExecutionReport) (reply : Reply ReportError)
  deriving Repr

/-- Whether an entry is a step of the program. -/
def Entry.isStep : Entry → Bool
  | .step _ _ _ => true
  | _ => false

/-- Everything that happened, the first first. -/
abbrev Journal := Array Entry

/-- What those who are called by the monitor can know of: all but the steps of the program. -/
def Journal.heard (journal : Journal) : Journal := journal.filter fun entry => !entry.isStep

end CallProfiler
