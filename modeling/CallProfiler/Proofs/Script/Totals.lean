import Mathlib.Data.List.Basic
import CallProfiler.Proofs.Script.Executions

/-!
# Proofs.Script.Totals: what metrics in memory say of a run

Every execution that is counted is counted under two names, its own and that of the aggregate. So the
timer and the error counter of a name gain what the executions under that name bring, each as often as
one of its two names is that one: `aggregate_counts_executions`. For the aggregate this is each
execution once, unless an execution bears the name of the aggregate itself. Such an execution is
counted there twice.
-/

namespace CallProfiler

/-! ## One execution under one name -/

/-- What a finished execution adds to the metrics under a name. -/
def ExecutionInfo.countingUnder (info : ExecutionInfo) (key : String) : List MetricsUpdate :=
  .timer key info.duration :: if info.failed then [.error key] else []

namespace ExecutionInfo

variable (info : ExecutionInfo) (key name : String)

/-- An execution is timed once under its name, and not under any other. -/
theorem timed_countingUnder :
    (info.countingUnder key).filterMap (·.timed? name) =
      if key = name then [info.duration.capped] else [] := by
  have failures : (if info.failed then [MetricsUpdate.error key] else []).filterMap (·.timed? name) =
      [] := by
    split <;> rfl
  unfold countingUnder
  rw [List.filterMap_cons, failures]
  unfold MetricsUpdate.timed?
  by_cases own : key = name
  · simp [own]
  · simp [own]

/-- An execution that has failed is counted as an error once under its name. -/
theorem counts_countingUnder :
    (info.countingUnder key).countP (·.counts name) = if key = name ∧ info.failed then 1 else 0 := by
  unfold countingUnder
  cases info.failed with
  | false => simp [MetricsUpdate.counts]
  | true => simp [MetricsUpdate.counts]

end ExecutionInfo

/-! ## Executions under a name -/

namespace Ended

/-- The names under which the execution is counted. -/
def keys (x : Ended) : List String := if x.counted then [x.info.name, aggregateName] else []

/-- The executions that are counted under a name, each as often as it is. -/
def under (name : String) (past : List Ended) : List Ended :=
  past.flatMap fun x => x.keys.flatMap fun key => if key = name then [x] else []

/-- An execution updates the metrics under each of its names. -/
theorem updates_keys (x : Ended) : x.updates = x.keys.flatMap x.info.countingUnder := by
  unfold updates keys
  split <;> rfl

variable (name : String) (past : List Ended)

/-- The times under a name are those of the executions under it. -/
theorem timed_under :
    (past.flatMap updates).filterMap (·.timed? name) =
      (under name past).map (·.info.duration.capped) := by
  unfold under
  rw [List.filterMap_flatMap, List.map_flatMap]
  refine List.flatMap_congr fun x _ => ?_
  rw [updates_keys, List.filterMap_flatMap, List.map_flatMap]
  refine List.flatMap_congr fun key _ => ?_
  rw [ExecutionInfo.timed_countingUnder]
  split <;> rfl

/-- The errors under a name are those of the executions under it. -/
theorem counts_under :
    (past.flatMap updates).countP (·.counts name) = (under name past).countP (·.info.failed) := by
  have one (x : Ended) : x.updates.countP (·.counts name) =
      (x.keys.flatMap fun key => if key = name then [x] else []).countP (·.info.failed) := by
    rw [updates_keys, List.countP_flatMap, List.countP_flatMap]
    refine congrArg List.sum (List.map_congr_left fun key _ => ?_)
    dsimp only [Function.comp]
    rw [ExecutionInfo.counts_countingUnder]
    by_cases own : key = name
    · simp [own, List.countP_cons]
    · simp [own]
  unfold under
  rw [List.countP_flatMap, List.countP_flatMap]
  exact congrArg List.sum (List.map_congr_left fun x _ => one x)

/-- Unless one bears its name, the aggregate holds every execution that is counted once. -/
theorem under_aggregate (apart : ∀ x ∈ past, x.counted = true → x.info.name ≠ aggregateName) :
    under aggregateName past = past.filter counted := by
  induction past with
  | nil => rfl
  | cons x rest ih =>
    rcases List.forall_mem_cons.mp apart with ⟨here, later⟩
    unfold under at ih ⊢
    rw [List.flatMap_cons, ih later, List.filter_cons]
    unfold keys
    cases counted : x.counted with
    | false => rfl
    | true => simp [here counted]

end Ended

/-! ## Totals -/

/-- The timer and the error counter of a name have gained some executions. The total stops at the
greatest number that it can show. -/
structure Metrics.Gained (m m' : Metrics) (name : String) (past : List Ended) : Prop where
  count : m'.timerCount name = m.timerCount name + UInt64.ofNat past.length
  total : (m'.timerTotal name).toNat =
    min ((m.timerTotal name).toNat + (past.map fun x => x.info.duration.capped.toNat).sum)
      (2 ^ 64 - 1)
  errors : m'.errorCount name =
    m.errorCount name + UInt64.ofNat (past.countP fun x => x.info.failed)

/-- The metrics gain under each name what the executions under it bring. -/
theorem Metrics.gained_tally {m : Metrics} (ordered : m.Ordered) (past : List Ended) (name : String) :
    m.Gained ((past.flatMap Ended.updates).foldl Metrics.apply m) name (Ended.under name past) := by
  refine ⟨?_, ?_, ?_⟩
  · rw [timerCount_tally ordered, Ended.timed_under, List.length_map]
  · rw [timerTotal_tally ordered, Ended.timed_under, List.map_map]
    rfl
  · rw [errorCount_tally ordered, Ended.counts_under]

/-- What a run adds to metrics in memory, written for a stack or for a task, whatever they were filled
with before. Under each name there are the executions that were counted, as often as one of their two
names is that one. The aggregate gains every execution that was counted once, if none of them bears its
name. -/
theorem aggregate_counts_executions (program : Script)
    (quiet : program.Moves MonitorMove.SparesSink) (s : CallStack) (t : Task) (m : Monitor)
    (inMemory : m.sink = .inMemory) (made : List MetricsUpdate)
    (filled : m.metrics = made.foldl Metrics.apply .empty) :
    let past := program.executions false s m
    let after := (program.exec s m).2.2.metrics
    (program.exec s m).2.2.calls = m.calls ++ past.flatMap Ended.calls ∧
    (program.onTask.exec (t.enterScope s) m).2.2.metrics = after ∧
    (∀ name, m.metrics.Gained after name (Ended.under name past)) ∧
    ((∀ x ∈ past, x.counted = true → x.info.name ≠ aggregateName) →
      m.metrics.Gained after aggregateName (past.filter Ended.counted)) := by
  intro past after
  have ordered : m.metrics.Ordered := filled ▸ Metrics.ordered_tally made
  have gained (name : String) : m.metrics.Gained after name (Ended.under name past) := by
    show m.metrics.Gained (program.exec s m).2.2.metrics name _
    rw [program.exec_metrics quiet false s inMemory]
    exact Metrics.gained_tally ordered past name
  refine ⟨program.exec_calls quiet false s m, program.onTask_metrics s t inMemory, gained, ?_⟩
  intro apart
  rw [← Ended.under_aggregate past apart]
  exact gained aggregateName

/-- A monitor that counts executions and records none. -/
def tallying : Monitor := .start { groupInterval := some 0 } .inMemory 0

/-- An execution that succeeds though one inside of it fails, and one that panics. -/
def busyWork : Script :=
  .run { name := "load" }
    (.run { name := "read", forwardable := true } (.monitor (.clock (.advance 2)) .done)
      (.error "refused") .done) (.ok "") <|
  .protect
    (.run { name := "save" } (.monitor (.clock (.advance 4)) <| .raise (.text "broken")) (.ok "") .done)
  .done

theorem busy_work_counts :
    let past := busyWork.executions false {} tallying
    let after := (busyWork.exec {} tallying).2.2.metrics
    (∀ x ∈ past, x.counted = true → x.info.name ≠ aggregateName) ∧
    tallying.metrics.Gained after aggregateName (past.filter Ended.counted) ∧
    (past.filter Ended.counted).length = 3 := by
  intro past after
  have apart : ∀ x ∈ past, x.counted = true → x.info.name ≠ aggregateName := by decide +kernel
  have quiet : busyWork.Moves MonitorMove.SparesSink :=
    ⟨⟨⟨trivial, trivial⟩, trivial⟩, ⟨⟨trivial, trivial⟩, trivial⟩, trivial⟩
  have counts := aggregate_counts_executions busyWork quiet {} {} tallying rfl [] rfl
  have three : (past.filter Ended.counted).length = 3 := by decide +kernel
  exact ⟨apart, counts.2.2.2 apart, three⟩

/-- An execution that bears the name of the aggregate. -/
def namesakeWork : Script :=
  .run { name := aggregateName } (.monitor (.clock (.advance 5)) .done) (.ok "") .done

theorem namesake_counts_twice :
    let after := (namesakeWork.exec {} tallying).2.2.metrics
    ((namesakeWork.executions false {} tallying).filter Ended.counted).length = 1 ∧
    after.timerCount aggregateName = 2 ∧ after.timerTotal aggregateName = 10 := by
  decide +kernel

end CallProfiler
