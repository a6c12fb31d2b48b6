import CallProfiler.Monitor.Async
import CallProfiler.Proofs.Stack.Terms

/-!
# Proofs.Monitor.Outline: a monitor without what it was answered

The monitor calls hooks, the metrics sink and reporters, and whatever these reply is logged. The
`Outline` of a monitor keeps the calls and leaves the replies out, together with the sink, the
accepted updates and all of a reporter but its name.

`prepare_cases`, `offer_cases` and the two lemmas about `Noted` list what the functions that decide
something can do; what follows from these decisions is proved from the lists. For each function of
the lifecycle there is one lemma that says what it does to the outline. All of them use the outline
alone, so monitors with equal outlines go on alike: `prepare_alike`, `conclude_alike`.
`conclude_calls` lists the calls that follow the work.
-/

namespace CallProfiler

/-- A call that the monitor makes: to the hook of an execution, to the metrics sink, or to a reporter
that is asked whether it wants a report. -/
inductive Call where
  | hook (info : ExecutionInfo)
  | update (made : MetricsUpdate)
  | gate (reporter : String) (report : ExecutionReport)
  deriving DecidableEq, Repr

/-- The call that an entry records. -/
def Entry.call? : Entry → Option Call
  | .hook info => some (.hook info)
  | .update made _ => some (.update made)
  | .gate reporter report _ => some (.gate reporter report)
  | _ => none

/-- A monitor without its sink and its metrics, without its reporters but for their names, and
without the replies in its journal. -/
structure Outline where
  profiler : Profiler
  policy : SamplingPolicy
  config : ProfilerConfig
  announcesReloads : Bool
  reporters : List String
  calls : List Call

/-- The outline after further calls. -/
def Outline.calling (o : Outline) (calls : List Call) : Outline := { o with calls := o.calls ++ calls }

theorem Outline.calling_nil (o : Outline) : o.calling [] = o := by
  simp [Outline.calling]

/-- Calls are added one after the other. -/
theorem Outline.calling_calling (o : Outline) (calls calls' : List Call) :
    (o.calling calls).calling calls' = o.calling (calls ++ calls') := by
  simp [Outline.calling]

/-- The questions to reporters about a report, if the reporting limit admits them. -/
def Outline.offers (o : Outline) (report : ExecutionReport) : List Call :=
  if (o.policy.shouldReport o.profiler.now report.info.operationType).1 then
    o.reporters.map fun name => .gate name report
  else []

/-- The outline after a report was published. -/
def Outline.publish (o : Outline) (report : ExecutionReport) : Outline :=
  if o.reporters.isEmpty then o
  else
    { o with
      policy := (o.policy.shouldReport o.profiler.now report.info.operationType).2
      calls := o.calls ++ o.offers report }

/-- The calls that come from a report are its offers. -/
theorem Outline.publish_calls (o : Outline) (report : ExecutionReport) :
    (o.publish report).calls = o.calls ++ o.offers report := by
  unfold publish
  split
  · rename_i h
    simp [offers, List.isEmpty_iff.mp h]
  · rfl

/-- The calls to the sink for a finished execution: under its name and under the name of all. -/
def ExecutionInfo.updates (info : ExecutionInfo) : List Call :=
  [info.name, aggregateName].flatMap fun key =>
    .update (.timer key info.duration) :: if info.failed then [.update (.error key)] else []

/-- The calls to a hook. -/
def Hook.calls (hook : Hook) (info : ExecutionInfo) : List Call :=
  if hook = .silent then [] else [.hook info]

namespace Monitor

/-- The calls that a monitor has made. -/
def calls (m : Monitor) : List Call := m.journal.toList.filterMap Entry.call?

/-- The outline of a monitor. -/
def outline (m : Monitor) : Outline where
  profiler := m.profiler
  policy := m.policy
  config := m.config
  announcesReloads := m.announcesReloads
  reporters := m.reporters.map (·.name)
  calls := m.calls

variable {m m' : Monitor}

section Fields

variable (h : m.outline = m'.outline)

include h

/-- Equal outlines have equal profilers. -/
theorem profiler_of_outline : m.profiler = m'.profiler := congrArg Outline.profiler h

/-- Equal outlines have equal policies. -/
theorem policy_of_outline : m.policy = m'.policy := congrArg Outline.policy h

/-- Equal outlines have the same time. -/
theorem now_of_outline : m.now = m'.now := congrArg (·.profiler.now) h

theorem outline_withProfiler (p : Profiler) :
    ({ m with profiler := p } : Monitor).outline = ({ m' with profiler := p } : Monitor).outline :=
  congrArg (fun o : Outline => { o with profiler := p }) h

theorem outline_withPolicy (q : SamplingPolicy) :
    ({ m with policy := q } : Monitor).outline = ({ m' with policy := q } : Monitor).outline :=
  congrArg (fun o : Outline => { o with policy := q }) h

end Fields

/-! ## Entries -/

/-- An entry adds the call that it stands for, if it is one. -/
theorem calls_enter (m : Monitor) (entry : Entry) :
    (m.enter entry).calls = m.calls ++ entry.call?.toList := by
  show (m.journal.push entry).toList.filterMap _ = _
  rw [Array.toList_push, List.filterMap_append]
  cases h : entry.call? <;> simp [h, calls]

theorem outline_enter (m : Monitor) (entry : Entry) :
    (m.enter entry).outline = m.outline.calling entry.call?.toList := by
  show ({ m.outline with calls := (m.enter entry).calls } : Outline) = _
  rw [calls_enter]
  rfl

/-- Entries that are no calls do not show in the outline. -/
theorem outline_enter_silent (m : Monitor) {entry : Entry} (h : entry.call? = none) :
    (m.enter entry).outline = m.outline := by
  rw [outline_enter, h]
  exact Outline.calling_nil _

/-- Log messages do not show in the outline. -/
theorem outline_logged (m : Monitor) (level : LogLevel) (message : String) :
    (m.logged level message).outline = m.outline := outline_enter_silent m rfl

theorem outline_stepped (m : Monitor) (label : String) (answer : Answer)
    (stack : Option CallStack) : (m.stepped label answer stack).outline = m.outline :=
  outline_enter_silent m rfl

/-- Steps of programs may differ and leave outlines equal. -/
theorem stepped_alike (h : m.outline = m'.outline) (label : String) (answer : Answer)
    (stack : Option CallStack) :
    (m.stepped label answer stack).outline = (m'.stepped label answer stack).outline := by
  rw [outline_stepped, outline_stepped, h]

theorem outline_enterNotes (m : Monitor) (notes : List Note) :
    (notes.foldl (fun m note => m.enter (.note note)) m).outline = m.outline := by
  induction notes generalizing m with
  | nil => rfl
  | cons note rest ih => rw [List.foldl_cons, ih, outline_enter_silent m rfl]

/-! ## Replies -/

/-- `m'` is `m`, or `m` with a warning. -/
def Noted (m m' : Monitor) : Prop := m' = m ∨ ∃ message, m' = m.logged .warning message

/-- Notes do not show in the outline. -/
theorem Noted.outline (h : m.Noted m') : m'.outline = m.outline := by
  rcases h with rfl | ⟨message, rfl⟩
  · rfl
  · exact outline_logged _ _ _

/-- A timer is updated, and what may follow are notes. -/
theorem countTime_noted (m : Monitor) (key : String) (info : ExecutionInfo) :
    (m.updateMetrics (.timer key info.duration)).2.Noted (m.countTime key info) := by
  unfold countTime
  split <;> rename_i h <;> rw [h]
  · exact .inl rfl
  · exact .inr ⟨_, rfl⟩
  · exact .inr ⟨_, rfl⟩

/-- So is a counter of errors. -/
theorem countError_noted (m : Monitor) (key : String) :
    (m.updateMetrics (.error key)).2.Noted (m.countError key) := by
  unfold countError
  split <;> rename_i h <;> rw [h]
  · exact .inl rfl
  · exact .inr ⟨_, rfl⟩
  · exact .inr ⟨_, rfl⟩

/-- The monitor when a reporter was asked and has got the report. -/
def delivered (m : Monitor) (name : String) (report : ExecutionReport) (notes : List Note)
    (reply : Reply ReportError) : Monitor :=
  (notes.foldl (fun m note => m.enter (.note note)) (m.enter (.gate name report .wanted))).enter
    (.delivery name report reply)

/-- A reporter that does not want a report is asked and no more; another one gets it. -/
theorem offer_cases (m : Monitor) (report : ExecutionReport) (reporter : Reporter) :
    (∃ gate, gate ≠ .wanted ∧
      (m.enter (.gate reporter.name report gate)).Noted (offer report m reporter)) ∨
    (∃ notes reply, (m.delivered reporter.name report notes reply).Noted
      (offer report m reporter)) := by
  unfold offer
  dsimp only
  split
  next h =>
    rw [h]
    exact .inl ⟨_, by decide, .inl rfl⟩
  next h =>
    rw [h]
    exact .inl ⟨_, by decide, .inr ⟨_, rfl⟩⟩
  next h =>
    rw [h]
    -- what the reporter does with the report is settled before its notes are taken down
    let answer := reporter.deliver (m.enter (.gate reporter.name report .wanted)).journal.heard
      m.config report
    refine .inr ⟨answer.1, answer.2, ?_⟩
    unfold delivered
    split
    · exact .inl rfl
    · exact .inr ⟨_, rfl⟩
    · exact .inr ⟨_, rfl⟩

/-! ## Before the work -/

/-- How an execution is handled, and what the preparation has done to its stack and the monitor. -/
inductive Prepared (m : Monitor) (stack : CallStack) (e : Execution) :
    Mode × CallStack × Monitor → Prop where
  | bare (policy : SamplingPolicy) : Prepared m stack e (.bare, stack, { m with policy := policy })
  | nested (active : stack.isActive = true) :
      Prepared m stack e (.nested stack.depth e.forwardable, (stack.start m.profiler e.name).1,
        { m with profiler := (stack.start m.profiler e.name).2 })
  | unrecorded (idle : stack.isActive = false) (policy : SamplingPolicy) :
      Prepared m stack e (.topLevel false, stack, { m with policy := policy })
  | recorded (idle : stack.isActive = false) (policy : SamplingPolicy) :
      Prepared m stack e (.topLevel true, (stack.activate m.profiler e.name).2.1,
        { m with policy := policy, profiler := (stack.activate m.profiler e.name).2.2 })

/-- What is done before the work, in three cases: nothing, a nested call, or a recording of its own. -/
theorem prepare_cases (m : Monitor) (stack : CallStack) (e : Execution) :
    Prepared m stack e (m.prepare stack e) := by
  unfold prepare
  split
  · exact .bare m.policy
  split
  · rename_i active
    exact .nested active
  rename_i idle
  have idle := Bool.of_not_eq_true idle
  dsimp only
  split
  · exact .bare _
  split
  · exact .unrecorded idle _
  -- a stack that is idle does not refuse a recording
  have begun : ∃ root, (stack.activate m.profiler e.name).1 = .ok root := by
    unfold CallStack.activate
    rw [idle]
    exact ⟨_, rfl⟩
  rcases begun with ⟨root, begun⟩
  rw [begun]
  exact .recorded idle _

/-- Nobody is called before the work. -/
theorem prepare_journal (m : Monitor) (stack : CallStack) (e : Execution) :
    (m.prepare stack e).2.2.journal = m.journal := by
  have prepared := prepare_cases m stack e
  generalize m.prepare stack e = result at prepared ⊢
  cases prepared <;> rfl

/-- The preparation makes no call. -/
theorem prepare_calls (m : Monitor) (stack : CallStack) (e : Execution) :
    (m.prepare stack e).2.2.calls = m.calls := by
  unfold calls
  rw [prepare_journal]

/-- Monitors with equal outlines prepare an execution alike. -/
theorem prepare_alike (h : m.outline = m'.outline) (stack : CallStack) (e e' : Execution)
    (name : e.name = e'.name) (forwardable : e.forwardable = e'.forwardable) :
    (m.prepare stack e).1 = (m'.prepare stack e').1 ∧
    (m.prepare stack e).2.1 = (m'.prepare stack e').2.1 ∧
    (m.prepare stack e).2.2.outline = (m'.prepare stack e').2.2.outline := by
  obtain ⟨profiler, policy, config, sink, metrics, reporters, announces, journal⟩ := m
  obtain ⟨_, _, _, sink', metrics', reporters', _, journal'⟩ := m'
  obtain ⟨rfl, rfl, rfl, rfl, names, calls⟩ := Outline.mk.inj h
  unfold prepare
  dsimp only [now]
  rw [name, forwardable]
  split
  · exact ⟨rfl, rfl, h⟩
  split
  · exact ⟨rfl, rfl, outline_withProfiler h _⟩
  split
  · exact ⟨rfl, rfl, outline_withPolicy h _⟩
  split
  · exact ⟨rfl, rfl, outline_withPolicy h _⟩
  generalize stack.activate profiler e'.name = activated
  obtain ⟨result, stack, profiler'⟩ := activated
  cases result with
  | ok root => exact ⟨rfl, rfl, outline_withProfiler (outline_withPolicy h _) _⟩
  | error error =>
    refine ⟨rfl, rfl, ?_⟩
    rw [outline_logged, outline_logged]
    exact outline_withProfiler (outline_withPolicy h _) _

/-! ## After the work -/

/-- A hook is called once, if there is one. -/
theorem outline_runHook (m : Monitor) (hook : Hook) (info : ExecutionInfo) :
    (m.runHook hook info).outline = m.outline.calling (hook.calls info) := by
  cases hook with
  | silent => exact (Outline.calling_nil _).symm
  | noted => exact outline_enter m _
  | panicking => exact (outline_logged _ _ _).trans (outline_enter m _)

/-- An update is one call of the sink. -/
theorem outline_updateMetrics (m : Monitor) (update : MetricsUpdate) :
    (m.updateMetrics update).2.outline = m.outline.calling [.update update] :=
  outline_enter { m with metrics := _ } _

theorem outline_countTime (m : Monitor) (key : String) (info : ExecutionInfo) :
    (m.countTime key info).outline = m.outline.calling [.update (.timer key info.duration)] :=
  (m.countTime_noted key info).outline.trans (outline_updateMetrics m _)

theorem outline_countError (m : Monitor) (key : String) :
    (m.countError key).outline = m.outline.calling [.update (.error key)] :=
  (m.countError_noted key).outline.trans (outline_updateMetrics m _)

/-- The time is counted and then, if the execution failed, the error. -/
theorem outline_countUnder (m : Monitor) (info : ExecutionInfo) (key : String) :
    (m.countUnder info key).outline = m.outline.calling
      (.update (.timer key info.duration) :: if info.failed then [.update (.error key)] else []) := by
  unfold countUnder
  dsimp only
  split
  · rw [outline_countError, outline_countTime, Outline.calling_calling]
    rfl
  · exact outline_countTime m key info

/-- The sink is called with the updates that the execution is due, whatever it replies. -/
theorem outline_recordMetrics (m : Monitor) (info : ExecutionInfo) :
    (m.recordMetrics info).outline = m.outline.calling info.updates := by
  unfold recordMetrics
  rw [outline_countUnder, outline_countUnder, Outline.calling_calling]
  simp [ExecutionInfo.updates]

/-- An open gate shows once; what the reporter does with the report does not show. -/
theorem outline_delivered (m : Monitor) (name : String) (report : ExecutionReport)
    (notes : List Note) (reply : Reply ReportError) :
    (m.delivered name report notes reply).outline = m.outline.calling [.gate name report] := by
  unfold delivered
  rw [outline_enter_silent _ rfl, outline_enterNotes]
  exact outline_enter m _

/-- A reporter is asked once; what it replies, and what becomes of the report, is not seen. -/
theorem outline_offer (report : ExecutionReport) (m : Monitor) (reporter : Reporter) :
    (offer report m reporter).outline = m.outline.calling [.gate reporter.name report] := by
  rcases m.offer_cases report reporter with ⟨gate, -, noted⟩ | ⟨notes, reply, noted⟩
  · rw [noted.outline]
    exact outline_enter m _
  · rw [noted.outline]
    exact outline_delivered ..

/-- Every reporter is asked, in order, whatever the others do. -/
theorem outline_offerAll (report : ExecutionReport) (reporters : List Reporter) (m : Monitor) :
    (reporters.foldl (offer report) m).outline =
      m.outline.calling (reporters.map fun r => .gate r.name report) := by
  induction reporters generalizing m with
  | nil => exact (Outline.calling_nil _).symm
  | cons reporter rest ih =>
    rw [List.foldl_cons, ih, outline_offer, Outline.calling_calling]
    rfl

/-- What a report does to a monitor is told by the outline before it. -/
theorem outline_publish (m : Monitor) (report : ExecutionReport) :
    (m.publish report).outline = m.outline.publish report := by
  unfold publish Outline.publish
  have empty : m.outline.reporters.isEmpty = m.reporters.isEmpty := List.isEmpty_map
  rw [empty]
  split
  · rfl
  dsimp only
  unfold Outline.offers
  have same : (m.outline.policy.shouldReport m.outline.profiler.now report.info.operationType) =
    m.policy.shouldReport m.now report.info.operationType := rfl
  rw [same]
  split
  · rw [outline_offerAll]
    simp [Outline.calling, outline, List.map_map, Function.comp_def, calls]
  · simp [outline, calls]

/-! ## The end of an execution -/

/-- The tree that is reported of an execution: its recording, closed and trimmed. -/
def reportedTree (m : Monitor) (stack : CallStack) : Mode → Option CallTree
  | .topLevel true => (stack.closeRoot m.profiler).1.map fun tree =>
    (({ m with profiler := (stack.closeRoot m.profiler).2.2 } : Monitor).trim tree).1
  | _ => none

/-- The calls that follow the hook of an execution. -/
def finishCalls (m : Monitor) (stack : CallStack) (info : ExecutionInfo) : Mode → List Call
  | .bare => []
  | .nested _ forwardable => if forwardable then info.updates else []
  | .topLevel recorded =>
    info.updates ++ m.outline.offers ⟨info, m.reportedTree stack (.topLevel recorded)⟩

/-- Trimming looks at the configuration and the profiler only. -/
theorem trim_alike (h : m.outline = m'.outline) (tree : CallTree) :
    (m.trim tree).1 = (m'.trim tree).1 ∧ (m.trim tree).2.outline = (m'.trim tree).2.outline := by
  obtain ⟨profiler, policy, config, sink, metrics, reporters, announces, journal⟩ := m
  obtain ⟨_, _, _, sink', metrics', reporters', _, journal'⟩ := m'
  obtain ⟨rfl, rfl, rfl, rfl, names, calls⟩ := Outline.mk.inj h
  unfold trim
  dsimp only
  split
  · exact ⟨rfl, h⟩
  · exact ⟨rfl, outline_withProfiler h _⟩

/-- Monitors with equal outlines finish an execution alike. -/
theorem finish_alike (h : m.outline = m'.outline) (stack : CallStack) (mode : Mode)
    (info : ExecutionInfo) :
    (m.finish stack mode info).1 = (m'.finish stack mode info).1 ∧
    (m.finish stack mode info).2.outline = (m'.finish stack mode info).2.outline := by
  have profiler := profiler_of_outline h
  cases mode with
  | bare => exact ⟨rfl, h⟩
  | nested depth forwardable =>
    unfold finish
    dsimp only
    rw [profiler]
    refine ⟨rfl, ?_⟩
    split
    · rw [outline_recordMetrics, outline_recordMetrics, outline_withProfiler h]
    · exact outline_withProfiler h _
  | topLevel recorded =>
    unfold finish
    dsimp only
    rw [profiler]
    generalize (if recorded = true then _ else _ : Option CallTree × CallStack × Profiler) = closed
    obtain ⟨tree, stack, p⟩ := closed
    have counted : (({ m with profiler := p } : Monitor).recordMetrics info).outline =
        (({ m' with profiler := p } : Monitor).recordMetrics info).outline := by
      rw [outline_recordMetrics, outline_recordMetrics, outline_withProfiler h]
    cases tree with
    | none =>
      refine ⟨rfl, ?_⟩
      show (publish _ _).outline = (publish _ _).outline
      rw [outline_publish, outline_publish, counted]
    | some tree =>
      dsimp only
      rcases trim_alike counted tree with ⟨trimmed, rest⟩
      rw [trimmed]
      refine ⟨rfl, ?_⟩
      -- the nodes go back to the pool that publishing has left, which is the same on both sides
      have published := outline_publish
        ((({ m with profiler := p } : Monitor).recordMetrics info).trim tree).2
        ⟨info, some ((({ m' with profiler := p } : Monitor).recordMetrics info).trim tree).1⟩
      rw [rest, ← outline_publish] at published
      rw [profiler_of_outline published]
      exact outline_withProfiler published _

/-- What the monitor knows of an execution whose work ran from `started` on. -/
def infoOf (m : Monitor) (e : Execution) (started : Reading) (failure : Option String) :
    ExecutionInfo := e.info (.ofNanos (saturatingSub m.now started)) failure

/-- What follows the work does not depend on what hooks, sinks and reporters reply. -/
theorem conclude_alike (h : m.outline = m'.outline) (stack : CallStack) (mode : Mode)
    (e e' : Execution) (name : e.name = e'.name) (type : e.operationType = e'.operationType)
    (hook : ∀ info, e.hook.calls info = e'.hook.calls info) (started : Reading)
    (failure : Option String) :
    (m.conclude stack mode e started failure).1 = (m'.conclude stack mode e' started failure).1 ∧
    (m.conclude stack mode e started failure).2.outline =
      (m'.conclude stack mode e' started failure).2.outline := by
  unfold conclude Execution.info
  dsimp only
  rw [name, type, now_of_outline h]
  apply finish_alike
  rw [outline_runHook, outline_runHook, hook, h]

/-! ## The calls after the work -/

/-- Between the work and the report only the profiler changes, and its clock does not move. -/
theorem publish_calls {p : Profiler} {calls : List Call} (now : p.now = m.now)
    (counted : m'.outline = { m.outline.calling calls with profiler := p }) (report : ExecutionReport) :
    (m'.publish report).calls = m.calls ++ (calls ++ m.outline.offers report) := by
  have asked : m'.outline.offers report = m.outline.offers report := by
    rw [counted]
    unfold Outline.offers
    dsimp only [Outline.calling]
    rw [now]
    rfl
  calc (m'.publish report).calls
      = (m'.outline.publish report).calls := congrArg Outline.calls (outline_publish m' report)
    _ = m'.outline.calls ++ m'.outline.offers report := Outline.publish_calls _ _
    _ = m.calls ++ (calls ++ m.outline.offers report) := by
      rw [asked, counted]
      exact List.append_assoc ..

/-- A trim uses the pool and changes nothing else that shows. -/
theorem trim_keeps (m : Monitor) (tree : CallTree) : (m.trim tree).2.now = m.now ∧
    (m.trim tree).2.outline = { m.outline with profiler := (m.trim tree).2.profiler } := by
  unfold trim
  dsimp only
  split
  · exact ⟨rfl, rfl⟩
  · exact ⟨rfl, rfl⟩

/-- What a trim leaves depends on the configuration and the profiler alone. -/
theorem trim_tree_eq (config : m'.config = m.config) (profiler : m'.profiler = m.profiler)
    (tree : CallTree) : (m'.trim tree).1 = (m.trim tree).1 := by
  unfold trim
  dsimp only
  rw [config, profiler]
  split <;> rfl

/-- What a trim leaves does not depend on the metrics before it. -/
theorem recordMetrics_tree (m : Monitor) (info : ExecutionInfo) (tree : CallTree) :
    ((m.recordMetrics info).trim tree).1 = (m.trim tree).1 :=
  have counted := outline_recordMetrics m info
  trim_tree_eq (congrArg Outline.config counted) (congrArg Outline.profiler counted) tree

/-- The calls that finishing makes are told by the state before it. -/
theorem finish_calls (m : Monitor) (stack : CallStack) (mode : Mode) (info : ExecutionInfo) :
    (m.finish stack mode info).2.calls = m.calls ++ m.finishCalls stack info mode := by
  cases mode with
  | bare => exact (List.append_nil _).symm
  | nested depth forwardable =>
    cases forwardable with
    | false => exact (List.append_nil _).symm
    | true => exact congrArg Outline.calls (outline_recordMetrics _ info)
  | topLevel recorded =>
    cases recorded with
    | false => exact publish_calls rfl (outline_recordMetrics m info) ⟨info, none⟩
    | true =>
      have now := (stack.closeSteps_goesOn stack.depth m.profiler).terms.now
      have counted := outline_recordMetrics
        { m with profiler := (stack.closeRoot m.profiler).2.2 } info
      have sameTree := recordMetrics_tree
        { m with profiler := (stack.closeRoot m.profiler).2.2 } info
      unfold finish finishCalls reportedTree
      dsimp only
      rw [if_pos rfl]
      cases closed : (stack.closeRoot m.profiler).1 with
      | none => exact publish_calls now counted ⟨info, none⟩
      | some tree =>
        rcases trim_keeps (({ m with profiler := (stack.closeRoot m.profiler).2.2 } :
          Monitor).recordMetrics info) tree with ⟨trimNow, trimmed⟩
        dsimp only [Option.map_some]
        rw [sameTree]
        refine publish_calls ((trimNow.trans ?_).trans now) (trimmed.trans ?_) _
        · exact congrArg (·.profiler.now) counted
        · rw [counted]
          rfl

/-- A hook has no part in what is reported. -/
theorem runHook_reportedTree (m : Monitor) (hook : Hook) (stack : CallStack) (mode : Mode)
    (info : ExecutionInfo) :
    (m.runHook hook info).reportedTree stack mode = m.reportedTree stack mode := by
  have told := outline_runHook m hook info
  unfold reportedTree
  rw [show (m.runHook hook info).profiler = m.profiler from congrArg Outline.profiler told]
  split
  · congr 1
    funext tree
    apply trim_tree_eq
    · exact congrArg Outline.config told
    · rfl
  · rfl

/-- A hook has no part in the calls after it. -/
theorem runHook_finishCalls (m : Monitor) (hook : Hook) (stack : CallStack) (mode : Mode)
    (info info' : ExecutionInfo) :
    (m.runHook hook info').finishCalls stack info mode = m.finishCalls stack info mode := by
  cases mode with
  | bare => rfl
  | nested depth forwardable => rfl
  | topLevel recorded =>
    unfold finishCalls
    dsimp only
    rw [runHook_reportedTree, outline_runHook]
    rfl

/-- The calls after the work: to the hook, to the sink, and to all reporters with the same report. -/
theorem conclude_calls (m : Monitor) (stack : CallStack) (mode : Mode) (e : Execution)
    (started : Reading) (failure : Option String) :
    (m.conclude stack mode e started failure).2.calls = m.calls ++
      (e.hook.calls (m.infoOf e started failure) ++
        m.finishCalls stack (m.infoOf e started failure) mode) := by
  have told := congrArg Outline.calls (outline_runHook m e.hook (m.infoOf e started failure))
  show ((m.runHook e.hook (m.infoOf e started failure)).finish stack mode
    (m.infoOf e started failure)).2.calls = _
  rw [finish_calls, runHook_finishCalls]
  exact (congrArg (· ++ _) told).trans (List.append_assoc ..)

end Monitor

end CallProfiler
