import CallProfiler.Clock
import CallProfiler.OperationType

/-!
# Execution: monitored work and how it ends

Work is a piece of a program that is run under monitoring. It ends with a value, with an error or with
a panic; the monitor passes the ending on as it is and only looks at it to describe failures.
-/

namespace CallProfiler

/-- What a panic carries. -/
inductive Payload where
  | text (message : String)
  | number (value : Int)
  deriving DecidableEq, Repr

/-- The description of a panic: its text, or a fixed word if it carries something else. -/
def Payload.message : Payload → String
  | .text message => message
  | .number _ => "panic"

/-- How work ends. -/
inductive Outcome (ε α : Type) where
  | ok (value : α)
  | error (error : ε)
  | panicked (payload : Payload)
  deriving DecidableEq, Repr

/-- The description of a failure; `none` if the work did not fail. -/
def Outcome.failure? {ε α : Type} (describe : ε → String) : Outcome ε α → Option String
  | .ok _ => none
  | .error e => some (describe e)
  | .panicked payload => some payload.message

/-- What happens when work has ended: nothing, a notice, or a notice and then a panic. -/
inductive Hook where
  | silent
  | noted
  | panicking
  deriving DecidableEq, Repr

/-- What the monitor knows of an execution before it runs. -/
structure Execution where
  name : String
  operationType : OperationType := .server
  /-- Whether the execution is counted also inside another one. -/
  forwardable : Bool := false
  hook : Hook := .silent
  deriving DecidableEq, Repr

/-- What the monitor knows of an execution after it ran. -/
structure ExecutionInfo where
  name : String
  operationType : OperationType
  duration : Duration
  failed : Bool
  message : Option String
  deriving DecidableEq, Repr

/-- An execution that ran for some time and failed if there is a description of the failure. -/
def Execution.info (e : Execution) (duration : Duration) (failure : Option String) :
    ExecutionInfo where
  name := e.name
  operationType := e.operationType
  duration := duration
  failed := failure.isSome
  message := failure

end CallProfiler
