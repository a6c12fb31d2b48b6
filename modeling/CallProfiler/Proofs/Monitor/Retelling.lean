import CallProfiler.Proofs.Monitor.Order
import CallProfiler.Proofs.Monitor.Indifference

/-!
# Proofs.Monitor.Retelling: monitors that tell the same story

A program on a stack and a program on a task call some of their steps by different names, and the
latter has steps for the access to the slot of the task. `Monitor.retold` is the monitor with a
journal in which all steps have the names of a program on a stack. What sinks and reporters hear of
has no steps in it (`Journal.heard_retold`), so their replies are the same in both.

* `MonitorCongruence` — what a relation of monitors has to respect so that programs carry it along
* `congruence_outline` — equal outlines are such a relation
* `congruence_retold` — so are equal monitors up to the names of steps; then there is nothing else that
  may differ
-/

namespace CallProfiler

/-! ## Relations that programs carry along -/

/-- The name of a step in a program on a stack; the access to a slot is no step there. -/
def retoldLabel : String → Option String
  | "with" => none
  | "enter" => some "scope"
  | "enter_end" => some "scope_end"
  | label => some label

/-- A relation of monitors that all parts of a program respect. -/
structure MonitorCongruence (R : Monitor → Monitor → Prop) : Prop where
  profiler {m m' : Monitor} : R m m' → m.profiler = m'.profiler
  withProfiler {m m' : Monitor} : R m m' → ∀ p, R { m with profiler := p } { m' with profiler := p }
  stepped {m m' : Monitor} (label label' : String) : R m m' →
    retoldLabel label = retoldLabel label' →
    ∀ answer stack, R (m.stepped label answer stack) (m'.stepped label' answer stack)
  /-- The access to a slot may be told on one side only. -/
  unseen {m m' : Monitor} (label : String) : R m m' → retoldLabel label = none →
    ∀ answer stack, R m (m'.stepped label answer stack)
  /-- A step on the monitor may be answered differently if the answer is not told. -/
  moved {m m' : Monitor} : R m m' → ∀ (step : MonitorMove) label stack,
    R ((step.apply m).2.stepped label (step.apply m).1 stack)
      ((step.apply m').2.stepped label (step.apply m').1 stack)
  prepared {m m' : Monitor} : R m m' → ∀ stack e,
    (m.prepare stack e).1 = (m'.prepare stack e).1 ∧
    (m.prepare stack e).2.1 = (m'.prepare stack e).2.1 ∧
    R (m.prepare stack e).2.2 (m'.prepare stack e).2.2
  concluded {m m' : Monitor} : R m m' → ∀ stack mode e started failure,
    (m.conclude stack mode e started failure).1 = (m'.conclude stack mode e started failure).1 ∧
    R (m.conclude stack mode e started failure).2 (m'.conclude stack mode e started failure).2

/-- Whatever is replied to the monitor, programs keep outlines equal. -/
theorem congruence_outline : MonitorCongruence fun m m' => m.outline = m'.outline where
  profiler h := Monitor.profiler_of_outline h
  withProfiler h p := Monitor.outline_withProfiler h p
  stepped _ _ h _ answer stack := by rw [Monitor.outline_stepped, Monitor.outline_stepped, h]
  unseen _ h _ answer stack := h.trans (Monitor.outline_stepped ..).symm
  moved {m m'} h step label stack := by
    have here := step.apply_alike h
    have there := step.apply_alike (m := m') rfl
    rw [Monitor.outline_stepped, Monitor.outline_stepped, here, there]
  prepared h stack e := Monitor.prepare_alike h stack e e rfl rfl
  concluded h stack mode e started failure :=
    Monitor.conclude_alike h stack mode e e rfl rfl (fun _ => rfl) started failure

/-! ## The same story -/

/-- The entry as a program on a stack would tell it. -/
def Entry.retold? : Entry → Option Entry
  | .step label answer status => (retoldLabel label).map fun label => .step label answer status
  | entry => some entry

/-- The journal as a program on a stack would tell it. -/
def Journal.retold (journal : Journal) : Journal := journal.filterMap Entry.retold?

/-- The steps have no part in what the monitor says to others, whatever they are called. -/
theorem Journal.heard_retold (journal : Journal) : journal.retold.heard = journal.heard := by
  apply Array.ext'
  unfold heard retold
  rw [Array.toList_filter, Array.toList_filter, Array.toList_filterMap]
  induction journal.toList with
  | nil => rfl
  | cons entry rest ih =>
    cases entry with
    | step label answer status =>
      cases named : retoldLabel label with
      | none => simpa [Entry.retold?, Entry.isStep, named] using ih
      | some name => simpa [Entry.retold?, Entry.isStep, named] using ih
    | _ => simpa [Entry.retold?, Entry.isStep] using ih

namespace Monitor

/-- The monitor with the journal as a program on a stack would tell it. -/
def retold (m : Monitor) : Monitor := { m with journal := m.journal.retold }

variable {m m' : Monitor}

/-- An entry is retold in its place. -/
theorem retold_enter (m : Monitor) (entry : Entry) {entry' : Entry} (h : entry.retold? = some entry') :
    (m.enter entry).retold = m.retold.enter entry' := by
  unfold retold enter Journal.retold
  simp [h]

/-- An entry that is left out of the retelling leaves no gap. -/
theorem retold_enter_unseen (m : Monitor) {entry : Entry} (h : entry.retold? = none) :
    (m.enter entry).retold = m.retold := by
  unfold retold enter Journal.retold
  simp [h]

/-- A step whose label is kept in the retelling is told under the label it is given there. -/
theorem retold_stepped (m : Monitor) {label label' : String} (h : retoldLabel label = some label')
    (answer : Answer) (stack : Option CallStack) :
    (m.stepped label answer stack).retold = m.retold.stepped label' answer stack :=
  m.retold_enter _ (congrArg (Option.map _) h)

/-- A step without a label in the retelling is not told. -/
theorem retold_stepped_unseen (m : Monitor) {label : String} (h : retoldLabel label = none)
    (answer : Answer) (stack : Option CallStack) :
    (m.stepped label answer stack).retold = m.retold :=
  m.retold_enter_unseen (congrArg (Option.map _) h)

theorem retold_logged (m : Monitor) (level : LogLevel) (message : String) :
    (m.logged level message).retold = m.retold.logged level message := m.retold_enter _ rfl

theorem retold_enterNotes (m : Monitor) (notes : List Note) :
    (notes.foldl (fun m note => m.enter (.note note)) m).retold =
      notes.foldl (fun m note => m.enter (.note note)) m.retold := by
  induction notes generalizing m with
  | nil => rfl
  | cons note rest ih =>
    rw [List.foldl_cons, List.foldl_cons, ih, m.retold_enter _ rfl]

/-! ## What the monitor calls -/

/-- A hook is told the same in both tellings, since it hears no steps. -/
theorem retold_runHook (m : Monitor) (hook : Hook) (info : ExecutionInfo) :
    (m.runHook hook info).retold = m.retold.runHook hook info := by
  cases hook with
  | silent => rfl
  | noted => exact m.retold_enter _ rfl
  | panicking =>
    unfold runHook
    dsimp only
    rw [retold_logged, m.retold_enter _ rfl]

/-- A sink replies the same in both tellings, since it hears no steps. -/
theorem retold_updateMetrics (m : Monitor) (update : MetricsUpdate) :
    m.retold.updateMetrics update =
      ((m.updateMetrics update).1, (m.updateMetrics update).2.retold) := by
  have same : m.retold.sink.reply m.retold.journal.heard update =
      m.sink.reply m.journal.heard update :=
    congrArg (m.sink.reply · update) m.journal.heard_retold
  unfold updateMetrics
  rw [same]
  exact Prod.ext rfl (retold_enter { m with metrics := _ } _ rfl).symm

theorem retold_countTime (m : Monitor) (key : String) (info : ExecutionInfo) :
    (m.countTime key info).retold = m.retold.countTime key info := by
  unfold countTime
  rw [retold_updateMetrics]
  rcases m.updateMetrics (.timer key info.duration) with ⟨reply, after⟩
  cases reply with
  | accepted => rfl
  | refused e => exact retold_logged ..
  | panicked => exact retold_logged ..

theorem retold_countError (m : Monitor) (key : String) :
    (m.countError key).retold = m.retold.countError key := by
  unfold countError
  rw [retold_updateMetrics]
  rcases m.updateMetrics (.error key) with ⟨reply, after⟩
  cases reply with
  | accepted => rfl
  | refused e => exact retold_logged ..
  | panicked => exact retold_logged ..

theorem retold_countUnder (m : Monitor) (info : ExecutionInfo) (key : String) :
    (m.countUnder info key).retold = m.retold.countUnder info key := by
  unfold countUnder
  dsimp only
  rw [← retold_countTime]
  split
  · exact retold_countError _ key
  · rfl

/-- All updates are retold. -/
theorem retold_recordMetrics (m : Monitor) (info : ExecutionInfo) :
    (m.recordMetrics info).retold = m.retold.recordMetrics info := by
  unfold recordMetrics
  rw [retold_countUnder, retold_countUnder]

/-- A trim is the same in both tellings. -/
theorem retold_trim (m : Monitor) (tree : CallTree) :
    m.retold.trim tree = ((m.trim tree).1, (m.trim tree).2.retold) := by
  unfold trim
  dsimp only [retold]
  split <;> rfl

/-- A delivery is retold with its notes. -/
theorem retold_delivered (m : Monitor) (name : String) (report : ExecutionReport) (notes : List Note)
    (reply : Reply ReportError) :
    (m.delivered name report notes reply).retold = m.retold.delivered name report notes reply := by
  unfold delivered
  rw [retold_enter _ (.delivery name report reply) rfl, retold_enterNotes,
    m.retold_enter (.gate name report .wanted) rfl]

/-- A reporter that wants a report gets it, and a warning says what goes wrong. -/
theorem offer_wanted {report : ExecutionReport} {reporter : Reporter}
    (wanted : reporter.gate m.journal.heard m.config report = .wanted) :
    offer report m reporter =
      let answer := reporter.deliver (m.enter (.gate reporter.name report .wanted)).journal.heard
        m.config report
      let told := m.delivered reporter.name report answer.1 answer.2
      match answer.2 with
      | .accepted => told
      | .refused e => told.logged .warning
        ("Reporter " ++ reporter.name ++ " failed for " ++ report.info.name ++ ": " ++ e.message)
      | .panicked => told.logged .warning
        ("Reporter " ++ reporter.name ++ " panicked for " ++ report.info.name) := by
  unfold offer
  rw [wanted]
  rfl

/-- A reporter answers the same in both tellings, since it hears no steps. -/
theorem retold_offer (m : Monitor) (report : ExecutionReport) (reporter : Reporter) :
    (offer report m reporter).retold = offer report m.retold reporter := by
  have asked : reporter.gate m.retold.journal.heard m.retold.config report =
      reporter.gate m.journal.heard m.config report :=
    congrArg (reporter.gate · m.config report) m.journal.heard_retold
  cases gate : reporter.gate m.journal.heard m.config report with
  | unwanted =>
    unfold offer
    rw [asked, gate]
    exact m.retold_enter _ rfl
  | panicked =>
    unfold offer
    rw [asked, gate]
    exact (retold_logged ..).trans (congrArg (logged · _ _) (m.retold_enter _ rfl))
  | wanted =>
    have heard : (m.retold.enter (.gate reporter.name report .wanted)).journal.heard =
        (m.enter (.gate reporter.name report .wanted)).journal.heard := by
      rw [← m.retold_enter (.gate reporter.name report .wanted) rfl]
      exact Journal.heard_retold _
    rw [offer_wanted gate, offer_wanted (asked.trans gate), heard,
      show m.retold.config = m.config from rfl]
    dsimp only
    rw [← retold_delivered]
    split
    · rfl
    · exact retold_logged ..
    · exact retold_logged ..

/-- All offers are retold in their order. -/
theorem retold_offerAll (m : Monitor) (report : ExecutionReport) (reporters : List Reporter) :
    (reporters.foldl (offer report) m).retold = reporters.foldl (offer report) m.retold := by
  induction reporters generalizing m with
  | nil => rfl
  | cons reporter rest ih => rw [List.foldl_cons, List.foldl_cons, ih, retold_offer]

/-- A report is offered in both tellings or in neither. -/
theorem retold_publish (m : Monitor) (report : ExecutionReport) :
    (m.publish report).retold = m.retold.publish report := by
  unfold publish
  split
  · next nobody => exact (if_pos nobody).symm
  · next somebody =>
    refine Eq.trans ?_ (if_neg somebody).symm
    dsimp only
    split
    · next admitted => exact (retold_offerAll _ report m.reporters).trans (if_pos admitted).symm
    · next refused => exact (if_neg refused).symm

/-! ## Executions -/

/-- An execution finishes alike in both tellings. -/
theorem retold_finish (m : Monitor) (stack : CallStack) (mode : Mode) (info : ExecutionInfo) :
    m.retold.finish stack mode info =
      ((m.finish stack mode info).1, (m.finish stack mode info).2.retold) := by
  cases mode with
  | bare => rfl
  | nested depth forwardable =>
    cases forwardable with
    | false => rfl
    | true =>
      let unwound : Monitor := { m with profiler := (stack.unwindTo m.profiler depth).2 }
      exact Prod.ext rfl (retold_recordMetrics unwound info).symm
  | topLevel recorded =>
    unfold finish
    dsimp only
    rw [show m.retold.profiler = m.profiler from rfl]
    generalize (if recorded = true then _ else _ : Option CallTree × CallStack × Profiler) = closed
    obtain ⟨tree, stack, p⟩ := closed
    have counted : ({ m.retold with profiler := p } : Monitor).recordMetrics info =
      (({ m with profiler := p } : Monitor).recordMetrics info).retold :=
        (retold_recordMetrics { m with profiler := p } info).symm
    dsimp only
    rw [counted]
    generalize ({ m with profiler := p } : Monitor).recordMetrics info = n
    cases tree with
    | none => exact Prod.ext rfl (retold_publish n _).symm
    | some tree =>
      dsimp only
      rw [retold_trim]
      dsimp only
      rw [← retold_publish]
      rfl

/-- So does all that comes after its work. -/
theorem retold_conclude (m : Monitor) (stack : CallStack) (mode : Mode) (e : Execution)
    (started : Reading) (failure : Option String) :
    m.retold.conclude stack mode e started failure =
      ((m.conclude stack mode e started failure).1,
        (m.conclude stack mode e started failure).2.retold) := by
  unfold conclude
  dsimp only
  rw [← retold_finish, retold_runHook]
  rfl

/-- Nothing that is retold happens before the work. -/
theorem retold_prepare (m : Monitor) (stack : CallStack) (e : Execution) :
    m.retold.prepare stack e =
      ((m.prepare stack e).1, (m.prepare stack e).2.1, (m.prepare stack e).2.2.retold) := by
  unfold retold prepare
  dsimp only [now]
  split
  · rfl
  split
  · rfl
  split
  · rfl
  split
  · rfl
  rcases stack.activate m.profiler e.name with ⟨result, stack, p⟩
  cases result with
  | ok root => rfl
  | error error =>
    let policy := ((m.policy.checkWarm m.now).2.shouldProfile m.now e.name).2
    have warned := retold_logged { m with policy := policy, profiler := p } .warning
      ("Not profiling " ++ e.name ++ ": " ++ error.message)
    exact Prod.ext rfl (Prod.ext rfl warned.symm)

/-! ## Steps -/

/-- A new configuration is told alike. -/
theorem retold_reconfigure (m : Monitor) (next : ProfilerConfig) :
    m.retold.reconfigure next = ((m.reconfigure next).1, (m.reconfigure next).2.retold) := by
  unfold reconfigure
  cases next.validate with
  | error e => rfl
  | ok _ => rfl

/-- A new configuration is taken over or refused in both tellings. -/
theorem retold_reload (m : Monitor) (next : ProfilerConfig) :
    m.retold.reload next = ((m.reload next).1, (m.reload next).2.retold) := by
  unfold reload
  rw [retold_reconfigure]
  rcases m.reconfigure next with ⟨_ | _, after⟩
  · rfl
  dsimp only
  by_cases loud : after.announcesReloads = true
  · rw [if_pos loud, if_pos (show after.retold.announcesReloads = true from loud), retold_logged]
  · rw [if_neg loud, if_neg (show ¬ after.retold.announcesReloads = true from loud)]

/-- Every step has the same answer in both tellings. -/
theorem retold_move (m : Monitor) (step : MonitorMove) :
    step.apply m.retold = ((step.apply m).1, (step.apply m).2.retold) := by
  cases step with
  | reload next =>
    unfold MonitorMove.apply
    dsimp only
    rw [retold_reload]
    rcases m.reload next with ⟨_ | _, after⟩
    · rfl
    · rfl
  | countError name =>
    unfold MonitorMove.apply
    dsimp only
    rw [retold_updateMetrics]
  | _ => rfl

/-- Two tellings of one step, where both may leave it out. -/
theorem retold_stepped_alike {label label' : String} (h : m.retold = m'.retold)
    (named : retoldLabel label = retoldLabel label') (answer : Answer) (stack : Option CallStack) :
    (m.stepped label answer stack).retold = (m'.stepped label' answer stack).retold := by
  cases told : retoldLabel label with
  | none =>
    rw [retold_stepped_unseen m told, retold_stepped_unseen m' (named ▸ told)]
    exact h
  | some name => rw [retold_stepped m told, retold_stepped m' (named ▸ told), h]

end Monitor

/-- Programs keep monitors equal up to the names of steps. -/
theorem congruence_retold : MonitorCongruence fun m m' => m.retold = m'.retold where
  profiler {m m'} h := show m.retold.profiler = m'.retold.profiler from congrArg _ h
  withProfiler h p := congrArg (fun m : Monitor => { m with profiler := p }) h
  stepped _ _ h named answer stack := Monitor.retold_stepped_alike h named answer stack
  unseen _ h named _ _ := h.trans (Monitor.retold_stepped_unseen _ named ..).symm
  moved {m m'} h step label stack := by
    have here := Monitor.retold_move m step
    rw [h, Monitor.retold_move m' step] at here
    rcases Prod.mk.inj here with ⟨answer, same⟩
    rw [answer]
    exact Monitor.retold_stepped_alike same.symm rfl _ stack
  prepared {m m'} h stack e := by
    have here := Monitor.retold_prepare m stack e
    rw [h, Monitor.retold_prepare m'] at here
    rcases Prod.mk.inj here with ⟨mode, rest⟩
    rcases Prod.mk.inj rest with ⟨stack, same⟩
    exact ⟨mode.symm, stack.symm, same.symm⟩
  concluded {m m'} h stack mode e started failure := by
    have here := Monitor.retold_conclude m stack mode e started failure
    rw [h, Monitor.retold_conclude] at here
    rcases Prod.mk.inj here with ⟨stack, same⟩
    exact ⟨stack.symm, same.symm⟩

end CallProfiler
