import CallProfiler.Proofs.Script.Nesting
import CallProfiler.Proofs.Script.Steady

/-!
# Proofs.Script.Sampling: what sampling decides

Two runs of one program may differ in which executions are recorded. `nesting_follows_recording` says
what this changes and what it does not: the executions are the same, and so are the metrics, as long as
every execution inside another one finds its stack recording. Steady programs do that if all executions
that begin on an idle stack are recorded. Otherwise an execution that is not forwardable is counted
though it is a nested one: `unrecorded_nesting_is_counted`.
-/

namespace CallProfiler

/-- Two runs of a program with monitoring on and the warmup over, whatever the sampling policies
decide. They go through the same executions, and all that is told is told of these. An execution whose
stack records when it begins is told to its hook, and counted if it is forwardable; another one is
counted and offered to reporters, also if it runs inside an execution that is not recorded. If in
neither run an execution is mistaken in this way, then nested executions that are not forwardable add
nothing to the metrics and are not reported, and both runs count the same. No execution is mistaken in
a steady program if all executions that begin on an idle stack are chosen for recording. -/
theorem nesting_follows_recording (program : Script) (quiet : program.Moves MonitorMove.SparesSink)
    (on : program.Moves MonitorMove.SparesSwitch) (s s' : CallStack) (t : Task) (m m' : Monitor)
    (now : m.now = m'.now) (awake : m.Awake) (awake' : m'.Awake) :
    let past := program.executions false s m
    let past' := program.executions false s' m'
    ((program.exec s m).1 = (program.exec s' m').1 ∧
      past.map Ended.toDeed = past'.map Ended.toDeed) ∧
    ((program.exec s m).2.2.calls = m.calls ++ past.flatMap Ended.calls ∧
      (program.onTask.exec (t.enterScope s) m).2.2.calls = m.calls ++ past.flatMap Ended.calls) ∧
    (∀ x ∈ past, x.calls = x.execution.hook.calls x.info ++
      if x.live then (if x.execution.forwardable then x.info.updates else [])
      else x.info.updates ++ x.offers) ∧
    (program.AllChosen s m → ∀ x ∈ past, x.Placed) ∧
    ((∀ x ∈ past, x.Placed) → (∀ x ∈ past', x.Placed) →
      (∀ x ∈ past, x.inner = true → x.execution.forwardable = false →
        x.calls = x.execution.hook.calls x.info) ∧
      past.flatMap Ended.updates = past'.flatMap Ended.updates ∧
      (m.sink = .inMemory → m'.sink = .inMemory → m.metrics = m'.metrics →
        (program.exec s m).2.2.metrics = (program.exec s' m').2.2.metrics)) := by
  intro past past'
  have course := program.exec_level on false s s' ⟨now, awake, awake'⟩
  have course' := program.exec_level on false s' s ⟨now.symm, awake', awake⟩
  have told := program.exec_calls quiet false s m
  refine ⟨⟨course.result, course.deeds⟩, ⟨told, (program.onTask_calls s t m).trans told⟩,
    fun x there => (course.handled x there).calls, fun all x there _ => all.live x there, ?_⟩
  intro placed placed'
  have counted : past.flatMap Ended.updates = past'.flatMap Ended.updates := by
    rw [Ended.updates_due course.handled placed, Ended.updates_due course'.handled placed',
      course.deeds]
  refine ⟨fun x there => (course.handled x there).calls_inner (placed x there), counted, ?_⟩
  intro inMemory inMemory' same
  rw [program.exec_metrics quiet false s inMemory, program.exec_metrics quiet false s' inMemory',
    same, counted]

/-- A monitor that records every so-manieth execution of a name. -/
def every (interval : Int64) : Monitor := .start { groupInterval := some interval } .inMemory 0

/-- The monitors of these examples are awake. -/
theorem every_awake (interval : Int64) : (every interval).Awake := by
  have noWindow : Warmup.start 0 (.ofParts 0 0) 0 = ⟨0, 0, 0, false⟩ := by decide +kernel
  refine ⟨rfl, ?_⟩
  intro now
  show ((Warmup.start 0 (.ofParts 0 0) 0).check now).1 = true
  rw [noWindow]
  unfold Warmup.check
  simp

/-- An execution that is not forwardable inside of another one. -/
def nestedWork : Script :=
  .run { name := "outer" }
    (.run { name := "inner" } (.monitor (.clock (.advance 3)) .done) (.ok "") .done) (.ok "") .done

theorem recorded_nesting_counts_alike :
    (nestedWork.AllChosen {} (every 1) ∧ nestedWork.AllChosen {} (every 2)) ∧
    (nestedWork.exec {} (every 1)).2.2.metrics = (nestedWork.exec {} (every 2)).2.2.metrics := by
  have quiet : nestedWork.Moves MonitorMove.SparesSink := ⟨⟨⟨trivial, trivial⟩, trivial⟩, trivial⟩
  have on : nestedWork.Moves MonitorMove.SparesSwitch := ⟨⟨⟨trivial, trivial⟩, trivial⟩, trivial⟩
  have steady : nestedWork.Steady := ⟨⟨trivial, trivial⟩, trivial⟩
  have blank : NodePool.AllBlank (.used true []) := NodePool.allBlank_used true []
  have room : ∀ v ∈ nestedWork.visited {} (every 1), ∀ r ∈ v.recording,
      r.tree.slots.size < 2 ^ 32 := by decide +kernel
  have room' : ∀ v ∈ nestedWork.visited {} (every 2), ∀ r ∈ v.recording,
      r.tree.slots.size < 2 ^ 32 := by decide +kernel
  have all : nestedWork.AllChosen {} (every 1) := ⟨steady, rfl, blank, room, by decide +kernel⟩
  have all' : nestedWork.AllChosen {} (every 2) := ⟨steady, rfl, blank, room', by decide +kernel⟩
  have first := nesting_follows_recording nestedWork quiet on {} {} {} (every 1) (every 2) rfl
    (every_awake 1) (every_awake 2)
  have second := nesting_follows_recording nestedWork quiet on {} {} {} (every 2) (every 1) rfl
    (every_awake 2) (every_awake 1)
  have alike := first.2.2.2.2 (first.2.2.2.1 all) (second.2.2.2.1 all')
  exact ⟨⟨all, all'⟩, alike.2.2 rfl rfl rfl⟩

theorem unrecorded_nesting_is_counted :
    ((nestedWork.exec {} (every 1)).2.2.metrics.timer? "inner" = none ∧
      (nestedWork.exec {} (every 1)).2.2.metrics.timerCount aggregateName = 1) ∧
    ((nestedWork.exec {} (every 0)).2.2.metrics.timer? "inner" = some (.first 3) ∧
      (nestedWork.exec {} (every 0)).2.2.metrics.timerCount aggregateName = 2) := by
  have quiet : nestedWork.Moves MonitorMove.SparesSink := ⟨⟨⟨trivial, trivial⟩, trivial⟩, trivial⟩
  rw [nestedWork.exec_metrics quiet false {} (m := every 1) rfl]
  rw [nestedWork.exec_metrics quiet false {} (m := every 0) rfl]
  decide +kernel

end CallProfiler
