import CallProfiler.Proofs.Monitor.Deliveries
import CallProfiler.Proofs.Monitor.Indifference

/-!
# Proofs.Monitor.Transparency: monitoring changes nothing but what it adds

`monitoring_is_transparent`: monitored work runs once and its ending is passed on as it is, whatever
happens in hooks, in the metrics sink and in reporters. What these do has no influence on the calls
that are made to them: a program makes the same calls when none of them ever fails, and a report goes
to exactly those reporters that want it.
-/

namespace CallProfiler

/-! ## Reports in programs -/

/-- The report is arbitrary. -/
def AnyReport (_ : ExecutionReport) : Prop := True

namespace Monitor

variable {ε α : Type} (describe : ε → String)

/-- An execution delivers in order, if its work does. -/
theorem execute_serves (e : Execution)
    {work : CallStack → Monitor → Outcome ε α × CallStack × Monitor}
    (serves : ∀ s m, Monitor.Serves AnyReport m (work s m).2.2) (stack : CallStack) (m : Monitor) :
    m.Serves AnyReport (execute describe e work stack m).2.2 := by
  unfold execute
  have ready := (prepare_follows (R := AnyReport) m stack e).serves
  dsimp only
  split
  · exact ready.trans (serves _ _)
  · exact (ready.trans (serves _ _)).trans (conclude_follows _ _ _ _ _ _ trivial).serves

/-- So does an asynchronous one. -/
theorem executeAsync_serves (e : Execution) {work : Task → Monitor → Outcome ε α × Task × Monitor}
    (serves : ∀ t m, Monitor.Serves AnyReport m (work t m).2.2) (stack : CallStack) (task : Task)
    (m : Monitor) : m.Serves AnyReport (executeAsync describe e work stack task m).2.2.2 := by
  unfold executeAsync
  have ready := (prepare_follows (R := AnyReport) m stack e).serves
  dsimp only
  split
  · exact ready.trans (serves _ _)
  · exact (ready.trans (serves _ _)).trans (conclude_follows _ _ _ _ _ _ trivial).serves

/-- So does one on the stack of a task. -/
theorem executeInTask_serves (e : Execution) {work : Task → Monitor → Outcome ε α × Task × Monitor}
    (serves : ∀ t m, Monitor.Serves AnyReport m (work t m).2.2) (task : Task) (m : Monitor) :
    m.Serves AnyReport (executeInTask describe e work task m).2.2 := by
  unfold executeInTask
  split
  · exact (executeAsync_serves describe e serves _ _ m).trans (.of_journal_eq rfl)
  · exact (executeAsync_serves describe e serves _ _ m).trans (.of_journal_eq rfl)

end Monitor

/-- The work of an execution reports to whom it has to if its body does. -/
theorem Script.work_serves {body : Script}
    (serves : ∀ s m, Monitor.Serves AnyReport m (body.exec s m).2.2) (name : String)
    (ending : Outcome String String) (s : CallStack) (m : Monitor) :
    m.Serves AnyReport (body.work name ending s m).2.2 :=
  (Monitor.Serves.stepped _ _ _ _).trans (serves _ _)

/-- Programs deliver in order, by induction over the program. -/
theorem Script.exec_serves (program : Script) (s : CallStack) (m : Monitor) :
    m.Serves AnyReport (program.exec s m).2.2 := by
  induction program generalizing s m with
  | done => exact .refl m
  | move step next ih => exact (Monitor.Serves.moved ..).trans (ih _ _)
  | monitor step next ih =>
    exact ((step.apply_follows m).serves.trans (.stepped _ _ _ _)).trans (ih _ _)
  | scope signature body next ihBody ihNext =>
    unfold exec
    dsimp only
    split
    · exact ((Monitor.Serves.moved ..).trans (ihBody _ _)).trans (.of_journal_eq rfl)
    · exact (((Monitor.Serves.moved ..).trans (ihBody _ _)).trans (.moved ..)).trans (ihNext _ _)
  | protect body next ihBody ihNext =>
    exact ((ihBody s m).trans (.stepped _ _ _ _)).trans (ihNext _ _)
  | raise payload => exact .refl m
  | run e body ending next ihBody ihNext =>
    have done := Monitor.execute_serves id e (work_serves ihBody e.name ending) s m
    rw [exec_run]
    dsimp only
    split
    · exact done
    · exact (done.trans (.stepped _ _ _ _)).trans (ihNext _ _)

/-- A program on the stack taken from a task reports to whom it has to. -/
theorem Task.execOnTaken_serves (body : Script) (t : Task) (m : Monitor) :
    m.Serves AnyReport (t.execOnTaken m body).2.2 := by
  unfold execOnTaken
  split
  · exact .refl m
  · exact body.exec_serves _ m

/-- A program on the stack of a task reports to whom it has to. -/
theorem Task.execOnSlot_serves (body : Script) (t : Task) (m : Monitor) :
    m.Serves AnyReport (t.execOnSlot m body).2.2 := by
  unfold execOnSlot
  split
  · exact .refl m
  · exact body.exec_serves _ m

/-- A scope that is given up writes nothing down. -/
theorem Task.abandonScope_journal (t : Task) (m : Monitor) :
    (t.abandonScope m).2.journal = m.journal := by
  unfold abandonScope
  dsimp only
  split <;> rfl

/-- The work of an execution in a task reports to whom it has to if its body does. -/
theorem TaskScript.work_serves {body : TaskScript}
    (serves : ∀ t m, Monitor.Serves AnyReport m (body.exec t m).2.2) (name : String)
    (ending : Outcome String String) (t : Task) (m : Monitor) :
    m.Serves AnyReport (body.work name ending t m).2.2 :=
  (Monitor.Serves.stepped _ _ _ _).trans (serves _ _)

/-- Scopes on a task deliver in order, if what runs in and after them does. -/
theorem TaskScript.execScope_serves {body next : TaskScript} (after : Script)
    (serves : ∀ t m, Monitor.Serves AnyReport m (body.exec t m).2.2)
    (servesNext : ∀ t m, Monitor.Serves AnyReport m (next.exec t m).2.2) (stack : CallStack)
    (p : Profiler) (t : Task) (m : Monitor) :
    m.Serves AnyReport (body.execScope after next stack p t m).2.2 := by
  have inner := (Monitor.Serves.of_journal_eq rfl).trans
    (serves (t.enterScope stack) { m with profiler := p })
  unfold execScope
  rcases hb : body.exec (t.enterScope stack) { m with profiler := p } with ⟨result, left, ended⟩
  rw [hb] at inner
  cases result with
  | error payload => exact inner.trans (.of_journal_eq (left.abandonScope_journal ended))
  | ok _ =>
    dsimp only
    rcases left.leaveScope p.stack with ⟨kept, outer⟩
    have last := (inner.trans (.stepped ended "task_end" .nothing (some kept))).trans
      (after.exec_serves kept _)
    split
    · exact last.trans (.of_journal_eq rfl)
    · exact (last.trans (.moved ..)).trans (servesNext _ _)

/-- Programs on tasks deliver in order, by induction over the program. -/
theorem TaskScript.exec_serves (program : TaskScript) (t : Task) (m : Monitor) :
    m.Serves AnyReport (program.exec t m).2.2 := by
  induction program generalizing t m with
  | done => exact .refl m
  | move step next ih => exact (Monitor.Serves.moved ..).trans (ih _ _)
  | monitor step next ih =>
    exact ((step.apply_follows m).serves.trans (.stepped _ _ _ _)).trans (ih _ _)
  | enter signature body next ihBody ihNext =>
    unfold exec
    dsimp only
    split
    · exact ((Monitor.Serves.moved ..).trans (ihBody _ _)).trans (.of_journal_eq rfl)
    · exact (((Monitor.Serves.moved ..).trans (ihBody _ _)).trans (.moved ..)).trans (ihNext _ _)
  | protect body next ihBody ihNext =>
    exact ((ihBody t m).trans (.stepped _ _ _ _)).trans (ihNext _ _)
  | raise payload => exact .refl m
  | onTaken body next ih =>
    have done := t.execOnTaken_serves body m
    unfold exec
    split <;> rename_i h <;> rw [h] at done
    · exact done
    · exact (done.trans (.stepped _ _ _ _)).trans (ih _ _)
  | withStack body next ih =>
    have done := t.execOnSlot_serves body m
    unfold exec
    split <;> rename_i h <;> rw [h] at done
    · exact done
    · exact (done.trans (.stepped _ _ _ _)).trans (ih _ _)
  | scope activate body after next ihBody ihNext =>
    rw [exec_scope]
    exact execScope_serves after ihBody ihNext _ _ t m
  | run e body ending next ihBody ihNext =>
    have done := Monitor.executeInTask_serves id e
      (work_serves ihBody e.name ending) t m
    rw [exec_run]
    dsimp only
    split
    · exact done
    · exact (done.trans (.stepped _ _ _ _)).trans (ihNext _ _)

/-! ## One execution -/

/-- What the monitor adds to work that ran from `ready` to `ended` and left `stack`. -/
structure Surrounds (e : Execution) (mode : Mode) (failure : Option String) (stack : CallStack)
    (m ready ended after : Monitor) : Prop where
  /-- Before the work nothing is called and nothing reported. -/
  before : m.Follows (fun _ => False) ready ∧ ready.calls = m.calls
  /-- After bare work nothing happens at all. -/
  bare : mode = .bare → after = ended
  /-- After other work there are reports of this execution alone, and they go where they are wanted. -/
  reports : ended.Follows (·.info = ended.infoOf e ready.now failure) after
  /-- The calls after the work follow from how it went, not from what is replied to them. -/
  calls : mode ≠ .bare → after.calls = ended.calls ++
    (e.hook.calls (ended.infoOf e ready.now failure) ++
      ended.finishCalls stack (ended.infoOf e ready.now failure) mode)

section

variable {ε α : Type} (describe : ε → String) (e : Execution)

/-- An execution is its work and what the monitor does around it; the result is that of the work. -/
theorem execute_surrounds (work : CallStack → Monitor → Outcome ε α × CallStack × Monitor)
    (stack : CallStack) (m : Monitor) :
    let prepared := m.prepare stack e
    let worked := work prepared.2.1 prepared.2.2
    let result := Monitor.execute describe e work stack m
    result.1 = worked.1 ∧
    Surrounds e prepared.1 (worked.1.failure? describe) worked.2.1 m prepared.2.2 worked.2.2
      result.2.2 := by
  intro prepared worked result
  have before : m.Follows (fun _ => False) prepared.2.2 ∧ prepared.2.2.calls = m.calls :=
    ⟨m.prepare_follows stack e, m.prepare_calls stack e⟩
  -- bare work is all there is; other work is followed by `conclude`
  by_cases bare : prepared.1 = .bare
  · have same : result = worked := if_pos bare
    rw [same]
    exact ⟨rfl, before, fun _ => rfl, .refl _, fun h => absurd bare h⟩
  · have ended : result = (worked.1, worked.2.2.conclude worked.2.1 prepared.1 e prepared.2.2.now
        (worked.1.failure? describe)) := if_neg bare
    rw [ended]
    exact ⟨rfl, before, fun h => absurd h bare, Monitor.conclude_follows _ _ _ _ _ _ rfl,
      fun _ => Monitor.conclude_calls _ _ _ _ _ _⟩

/-- So is an asynchronous one. -/
theorem executeAsync_surrounds (work : Task → Monitor → Outcome ε α × Task × Monitor)
    (stack : CallStack) (task : Task) (m : Monitor) :
    let prepared := m.prepare stack e
    let worked := work (task.enterScope prepared.2.1) prepared.2.2
    let left := worked.2.1.leaveScope prepared.2.2.profiler.stack
    let result := Monitor.executeAsync describe e work stack task m
    result.1 = worked.1 ∧ result.2.2.1 = left.2 ∧
    Surrounds e prepared.1 (worked.1.failure? describe) left.1 m prepared.2.2 worked.2.2
      result.2.2.2 := by
  intro prepared worked left result
  have before : m.Follows (fun _ => False) prepared.2.2 ∧ prepared.2.2.calls = m.calls :=
    ⟨m.prepare_follows stack e, m.prepare_calls stack e⟩
  by_cases bare : prepared.1 = .bare
  · have same : result = (worked.1, left.1, left.2, worked.2.2) := if_pos bare
    rw [same]
    exact ⟨rfl, rfl, before, fun _ => rfl, .refl _, fun h => absurd bare h⟩
  · have ended : result =
        let concluded := worked.2.2.conclude left.1 prepared.1 e prepared.2.2.now
          (worked.1.failure? describe)
        (worked.1, concluded.1, left.2, concluded.2) := if_neg bare
    rw [ended]
    exact ⟨rfl, rfl, before, fun h => absurd h bare, Monitor.conclude_follows _ _ _ _ _ _ rfl,
      fun _ => Monitor.conclude_calls _ _ _ _ _ _⟩

/-- Monitoring passes the ending of the work on, and runs the work once, between two stretches of the
journal that have no step of the program in them. The calls to hooks, the sink and reporters are
those that the same program makes where none of them ever fails; so are its results and its stacks.
Whatever the reporters do, a report is handed to exactly those that want it. -/
theorem monitoring_is_transparent :
    (∀ work stack m,
      let prepared := m.prepare stack e
      let worked := work prepared.2.1 prepared.2.2
      let result := Monitor.execute (α := α) describe e work stack m
      result.1 = worked.1 ∧
      Surrounds e prepared.1 (worked.1.failure? describe) worked.2.1 m prepared.2.2 worked.2.2
        result.2.2) ∧
    (∀ work stack task m,
      let prepared := m.prepare stack e
      let worked := work (task.enterScope prepared.2.1) prepared.2.2
      let left := worked.2.1.leaveScope prepared.2.2.profiler.stack
      let result := Monitor.executeAsync (α := α) describe e work stack task m
      result.1 = worked.1 ∧ result.2.2.1 = left.2 ∧
      Surrounds e prepared.1 (worked.1.failure? describe) left.1 m prepared.2.2 worked.2.2
        result.2.2.2) ∧
    (∀ work work', Indifferent work work' → ∀ stack (m : Monitor),
      Agree (Monitor.execute (α := α) describe e work stack m)
        (Monitor.execute describe e.faultless work' stack m.faultless)) ∧
    (∀ work work', Indifferent work work' → ∀ stack task (m : Monitor),
      let result := Monitor.executeAsync (α := α) describe e work stack task m
      let faultless := Monitor.executeAsync describe e.faultless work' stack task m.faultless
      result.1 = faultless.1 ∧ Agree result.2 faultless.2) ∧
    (∀ (program : Script) stack m,
      Agree (program.exec stack m) (program.faultless.exec stack m.faultless) ∧
      m.Serves AnyReport (program.exec stack m).2.2) ∧
    (∀ (program : TaskScript) task m,
      Agree (program.exec task m) (program.faultless.exec task m.faultless) ∧
      m.Serves AnyReport (program.exec task m).2.2) := by
  refine ⟨execute_surrounds describe e, executeAsync_surrounds describe e, ?_, ?_, ?_, ?_⟩
  · intro work work' alike stack m
    exact Monitor.execute_indifferent describe e alike stack m m.faultless m.faultless_outline.symm
  · intro work work' alike stack task m
    exact Monitor.executeAsync_alike describe e alike stack task m.faultless_outline.symm
  · intro program stack m
    exact ⟨program.exec_indifferent stack m m.faultless m.faultless_outline.symm,
      program.exec_serves stack m⟩
  · intro program task m
    exact ⟨program.exec_indifferent task m m.faultless m.faultless_outline.symm,
      program.exec_serves task m⟩

end

end CallProfiler
