import CallProfiler.Execution
import CallProfiler.Tree.Render
import CallProfiler.Tree.Snapshot

/-!
# Report: what is told about a finished execution

A report joins what is known of an execution with its tree, if one was recorded. It can be written as
a document or as text for a log.
-/

namespace CallProfiler

/-- A finished execution and its tree. -/
structure ExecutionReport where
  info : ExecutionInfo
  tree : Option CallTree
  deriving DecidableEq, Repr

namespace ExecutionReport

/-- The identifier without any digit but zero. -/
def nilId : String := "00000000-0000-0000-0000-000000000000"

/-- The report as a document. A message and a tree are left out if there is none. -/
def toJson (r : ExecutionReport) (id : String) : String :=
  String.ofList (Json.object (
    [Json.member "id" (Json.quote id),
      Json.member "name" (Json.quote r.info.name),
      Json.member "operationType" r.info.operationType.toJson,
      Json.member "durationNanos" (Json.natural r.info.duration.capped.toNat),
      Json.member "error" (Json.boolean r.info.failed)] ++
    (r.info.message.map fun message => Json.member "errorMessage" (Json.quote message)).toList ++
    ((r.tree.bind CallTree.snapshot).map fun s => Json.member "callTree" s.write).toList))

/-- The report as text for a log; there is none without a tree. -/
def logText (r : ExecutionReport) (style : TreeStyle) : Option String :=
  r.tree.map fun tree =>
    "########## PROFILER ##########\n" ++ r.info.name ++ " (" ++ toString r.info.duration.millis ++
      " ms" ++ (if r.info.failed then ", failed" else "") ++ ")\n" ++ style.render tree

end ExecutionReport

end CallProfiler
