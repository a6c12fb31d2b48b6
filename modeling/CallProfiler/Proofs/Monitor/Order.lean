import CallProfiler.Proofs.Monitor.Outline

/-!
# Proofs.Monitor.Order: what holds from step to step of the lifecycle

All that happens around the work of an execution is made of a few elementary changes of the monitor:
another pool, another state of the limits, an entry of the journal, an update of the metrics. A
`LifecycleOrder` is a relation of the monitor before and after that holds for each of them and that can
be chained. Then it holds for every function of the lifecycle, up to `LifecycleOrder.prepare` and
`LifecycleOrder.conclude`.

A new configuration is taken over between executions; `Monitor.reload_cases` lists what that can do.

* `order_awake` — the clock stands still, and monitoring that is on stays on
-/

namespace CallProfiler

/-! ## What the gates are asked -/

/-- The limits after requests to some of them. -/
inductive Limits.Drawn (limits : Limits) : Limits → Prop where
  | none : Drawn limits limits
  | profiler {now : Limits} (reading : Reading) : Drawn limits now →
      Drawn limits { now with profiler := (now.profiler.request reading).2 }
  | reporting {now : Limits} {t : OperationType} {limit : RateLimit} (reading : Reading) :
      Drawn limits now → now.reporting.get? t = some limit →
      Drawn limits { now with reporting := now.reporting.set t (limit.request reading).2 }

/-- Limits that are drawn on again are drawn on. -/
theorem Limits.Drawn.trans {limits limits' limits'' : Limits} (h : limits.Drawn limits')
    (h' : limits'.Drawn limits'') : limits.Drawn limits'' := by
  induction h' with
  | none => exact h
  | profiler reading _ ih => exact .profiler reading ih
  | reporting reading _ there ih => exact .reporting reading ih there

namespace SamplingPolicy

variable {policy policy' : SamplingPolicy}

/-- The warmup is over: every check says so, at whatever time. -/
def Warm (policy : SamplingPolicy) : Prop := ∀ now, (policy.checkWarm now).1 = true

/-- A window that has ended stays so. -/
theorem Warm.checkWarm (warm : policy.Warm) (now : Reading) :
    (policy.checkWarm now).2.Warm := by
  have passed := warm now
  intro later
  unfold SamplingPolicy.checkWarm Warmup.check at passed ⊢
  dsimp only at passed ⊢
  by_cases ended : policy.warmup.ended = true
  · rw [if_pos ended, if_pos ended]
  -- the check that has passed has set the flag
  · rw [if_neg ended] at passed ⊢
    rw [if_pos passed]

/-- Whether a policy is warm is decided by its window alone. -/
theorem Warm.of_warmup (warm : policy.Warm)
    (same : policy'.warmup = policy.warmup) : policy'.Warm := by
  intro now
  have passed := warm now
  unfold SamplingPolicy.checkWarm at passed ⊢
  rw [same]
  exact passed

/-- The gates of a policy have been asked: a warmup that was over is so still, and the limits are the
same ones. -/
structure Asked (policy policy' : SamplingPolicy) : Prop where
  warm : policy.Warm → policy'.Warm
  limits : policy.limits.Drawn policy'.limits

/-- To ask for the warmup window is one of the questions of a policy. -/
theorem checkWarm_asked (policy : SamplingPolicy) (now : Reading) :
    policy.Asked (policy.checkWarm now).2 :=
  ⟨fun warm => warm.checkWarm now, .none⟩

/-- A request for a recording draws on the limits and replaces none. -/
theorem shouldProfile_asked (policy : SamplingPolicy) (now : Reading) (name : String) :
    policy.Asked (policy.shouldProfile now name).2 := by
  refine ⟨fun warm => warm.of_warmup (warmup_shouldProfile ..), ?_⟩
  unfold shouldProfile
  split
  · split
    · exact .none
    · split <;> exact .none
  · exact .profiler now .none

/-- So does a request for a report. -/
theorem shouldReport_asked (policy : SamplingPolicy) (now : Reading) (t : OperationType) :
    policy.Asked (policy.shouldReport now t).2 := by
  refine ⟨fun warm => warm.of_warmup (warmup_shouldReport ..), ?_⟩
  unfold shouldReport
  split
  · exact .none
  · next there => exact .reporting now .none there

end SamplingPolicy

/-! ## New configurations -/

namespace Monitor

/-- The monitor with the limits, the threshold and the configuration that replace the present ones. -/
def taking (m : Monitor) (next : ProfilerConfig) : Monitor :=
  { m with
    policy := m.policy.reconfigure m.now next
    profiler := { m.profiler with threshold := next.minExecutionTimeNanos }
    config := next }

/-- A new configuration that is not valid changes nothing at all. -/
theorem reload_invalid (m : Monitor) {next : ProfilerConfig} {e : ConfigError}
    (invalid : next.validate = .error e) : m.reload next = (.error e, m) := by
  unfold reload reconfigure
  rw [invalid]

/-- A valid one is taken over as a whole, and perhaps this is logged. That the shared configuration
checks it again refuses nothing. -/
theorem reload_valid (m : Monitor) {next : ProfilerConfig} (valid : next.validate = .ok ()) :
    m.reload next = (.ok (), if m.announcesReloads then
      (m.taking next).logged .info "Profiler configuration reloaded" else m.taking next) := by
  unfold reload reconfigure ProfilerConfig.replace
  rw [valid]
  rfl

/-- A new configuration is refused, or it is taken over, perhaps with a message. -/
theorem reload_cases (m : Monitor) (next : ProfilerConfig) :
    (m.reload next).2 = m ∨ (m.reload next).2 = m.taking next ∨
    ∃ message, (m.reload next).2 = (m.taking next).logged .info message := by
  cases valid : next.validate with
  | error e =>
    rw [m.reload_invalid valid]
    exact .inl rfl
  | ok _ =>
    rw [m.reload_valid valid]
    dsimp only
    split
    · exact .inr (.inr ⟨_, rfl⟩)
    · exact .inr (.inl rfl)

end Monitor

/-! ## Orders -/

/-- Whether the entry records an update of the metrics. -/
def Entry.isUpdate : Entry → Bool
  | .update _ _ => true
  | _ => false

/-- A relation of a monitor before and after that holds for the elementary changes of the lifecycle. -/
structure LifecycleOrder (Q : Monitor → Monitor → Prop) : Prop where
  refl (m : Monitor) : Q m m
  trans {m m' m'' : Monitor} : Q m m' → Q m' m'' → Q m m''
  /-- Stacks and trees take nodes and give them back. -/
  withProfiler (m : Monitor) (p : Profiler) : m.profiler.SameTerms p → Q m { m with profiler := p }
  withPolicy (m : Monitor) (q : SamplingPolicy) : m.policy.Asked q → Q m { m with policy := q }
  enter (m : Monitor) (entry : Entry) : entry.isUpdate = false → Q m (m.enter entry)
  updateMetrics (m : Monitor) (update : MetricsUpdate) : Q m (m.updateMetrics update).2

namespace LifecycleOrder

open Monitor

variable {Q : Monitor → Monitor → Prop} (order : LifecycleOrder Q)

include order

/-- What at most adds a note keeps the relation. -/
theorem noted {m m' : Monitor} (h : Noted m m') : Q m m' := by
  rcases h with rfl | ⟨message, rfl⟩
  · exact order.refl _
  · exact order.enter _ _ rfl

/-- Several notes are in order, one after the other. -/
theorem enterNotes (m : Monitor) (notes : List Note) :
    Q m (notes.foldl (fun m note => m.enter (.note note)) m) := by
  induction notes generalizing m with
  | nil => exact order.refl m
  | cons note rest ih => exact order.trans (order.enter m (.note note) rfl) (ih _)

/-! ### After the work -/

/-- The call of a hook is in order, whatever it replies. -/
theorem runHook (m : Monitor) (hook : Hook) (info : ExecutionInfo) : Q m (m.runHook hook info) := by
  cases hook with
  | silent => exact order.refl m
  | noted => exact order.enter m (.hook info) rfl
  | panicking => exact order.trans (order.enter m (.hook info) rfl) (order.enter _ (.note _) rfl)

/-- So is the update of a timer, with the warning if the sink fails. -/
theorem countTime (m : Monitor) (key : String) (info : ExecutionInfo) : Q m (m.countTime key info) :=
  order.trans (order.updateMetrics m _) (order.noted (m.countTime_noted key info))

theorem countError (m : Monitor) (key : String) : Q m (m.countError key) :=
  order.trans (order.updateMetrics m _) (order.noted (m.countError_noted key))

/-- So are the updates under one key. -/
theorem countUnder (m : Monitor) (info : ExecutionInfo) (key : String) :
    Q m (m.countUnder info key) := by
  unfold Monitor.countUnder
  dsimp only
  split
  · exact order.trans (order.countTime m key info) (order.countError _ key)
  · exact order.countTime m key info

/-- So are all updates after an execution. -/
theorem recordMetrics (m : Monitor) (info : ExecutionInfo) : Q m (m.recordMetrics info) :=
  order.trans (order.countUnder m info _) (order.countUnder _ info _)

/-- So is the trim of a finished tree. -/
theorem trim (m : Monitor) (tree : CallTree) : Q m (m.trim tree).2 := by
  unfold Monitor.trim
  dsimp only
  split
  · exact order.refl m
  · exact order.withProfiler m _ (m.profiler.withPool_terms _)

/-- So is the offer of a report to one reporter. -/
theorem offer (report : ExecutionReport) (m : Monitor) (reporter : Reporter) :
    Q m (Monitor.offer report m reporter) := by
  rcases m.offer_cases report reporter with ⟨gate, -, noted⟩ | ⟨notes, reply, noted⟩
  -- the reporter does not want the report, or it gets it and answers with notes and a reply
  · exact order.trans (order.enter m (.gate reporter.name report gate) rfl) (order.noted noted)
  · have asked := order.enter m (.gate reporter.name report .wanted) rfl
    have told : Q m (m.delivered reporter.name report notes reply) :=
      order.trans (order.trans asked (order.enterNotes _ notes))
        (order.enter _ (.delivery reporter.name report reply) rfl)
    exact order.trans told (order.noted noted)

/-- So are the offers to some reporters, by induction on their list. -/
theorem offerAll (report : ExecutionReport) (reporters : List Reporter) (m : Monitor) :
    Q m (reporters.foldl (Monitor.offer report) m) := by
  induction reporters generalizing m with
  | nil => exact order.refl m
  | cons reporter rest ih => exact order.trans (order.offer report m reporter) (ih _)

/-- So are the offers to all reporters, if its kind is not limited. -/
theorem publish (m : Monitor) (report : ExecutionReport) : Q m (m.publish report) := by
  unfold Monitor.publish
  split
  · exact order.refl m
  dsimp only
  have asked := order.withPolicy m _ (m.policy.shouldReport_asked m.now report.info.operationType)
  split
  · exact order.trans asked (order.offerAll report m.reporters _)
  · exact asked

/-- So is what comes after the hook: metrics, the trim and the reports. -/
theorem finish (m : Monitor) (stack : CallStack) (mode : Mode) (info : ExecutionInfo) :
    Q m (m.finish stack mode info).2 := by
  cases mode with
  | bare => exact order.refl m
  | nested depth forwardable =>
    have unwound := order.withProfiler m _
      (stack.unwindSteps_goesOn stack.depth depth m.profiler).terms
    cases forwardable with
    | false => exact unwound
    | true => exact order.trans unwound (order.recordMetrics _ info)
  | topLevel recorded =>
    unfold Monitor.finish
    dsimp only
    have closed : m.profiler.SameTerms (if recorded = true then stack.closeRoot m.profiler
        else (none, stack, m.profiler)).2.2 := by
      split
      · exact (stack.closeSteps_goesOn stack.depth m.profiler).terms
      · exact .refl m.profiler
    -- what is closed matters only for whether there is a tree
    generalize (if recorded = true then _ else _ : Option CallTree × CallStack × Profiler) = result
      at closed ⊢
    obtain ⟨tree, stack, p⟩ := result
    have counted := order.trans (order.withProfiler m p closed) (order.recordMetrics _ info)
    cases tree with
    | none => exact order.trans counted (order.publish _ _)
    | some tree =>
      have trimmed := order.trans counted (order.trim _ tree)
      dsimp only
      generalize (({ m with profiler := p } : Monitor).recordMetrics info).trim tree = trim
        at trimmed ⊢
      rcases trim with ⟨tree, after⟩
      have told := order.trans trimmed (order.publish after ⟨info, some tree⟩)
      exact order.trans told (order.withProfiler _ _ (Profiler.withPool_terms _ _))

/-- So is all that comes after the work. -/
theorem conclude (m : Monitor) (stack : CallStack) (mode : Mode) (e : Execution)
    (started : Reading) (failure : Option String) :
    Q m (m.conclude stack mode e started failure).2 :=
  order.trans (order.runHook m e.hook _) (order.finish _ stack mode _)

/-! ### Before the work -/

/-- So is all that comes before the work. -/
theorem prepare (m : Monitor) (stack : CallStack) (e : Execution) :
    Q m (m.prepare stack e).2.2 := by
  unfold Monitor.prepare
  split
  · exact order.refl m
  split
  -- an execution inside a recording asks no gate
  · exact order.withProfiler m _ (stack.start_goesOn m.profiler e.name).terms
  have checked := order.withPolicy m _ (m.policy.checkWarm_asked m.now)
  dsimp only
  split
  · exact checked
  have asked := order.trans checked (order.withPolicy _ _
    ((m.policy.checkWarm m.now).2.shouldProfile_asked m.now e.name))
  split
  · exact asked
  have begun := (stack.activate_moved m.profiler e.name).terms
  generalize stack.activate m.profiler e.name = activated at begun ⊢
  rcases activated with ⟨result, opened, p⟩
  have recorded := order.trans asked (order.withProfiler _ p begun)
  cases result with
  | ok root => exact recorded
  | error error => exact order.trans recorded (order.enter _ (.note _) rfl)

end LifecycleOrder

/-! ## Monitors that are awake -/

namespace Monitor

/-- Monitoring is on, and the warmup is over. -/
structure Awake (m : Monitor) : Prop where
  active : m.config.monitoringActive = true
  warm : m.policy.Warm

/-- The clock stands still, and a monitor that was awake is so still. -/
structure StaysAwake (m m' : Monitor) : Prop where
  now : m'.now = m.now
  awake : m.Awake → m'.Awake

/-- A monitor that is warm stays warm. -/
theorem order_awake : LifecycleOrder StaysAwake where
  refl _ := ⟨rfl, id⟩
  trans h h' := ⟨h'.now.trans h.now, fun awake => h'.awake (h.awake awake)⟩
  withProfiler _ _ same := ⟨same.now, fun awake => ⟨awake.active, awake.warm⟩⟩
  withPolicy _ _ asked := ⟨rfl, fun awake => ⟨awake.active, asked.warm awake.warm⟩⟩
  enter _ _ _ := ⟨rfl, fun awake => ⟨awake.active, awake.warm⟩⟩
  updateMetrics _ _ := ⟨rfl, fun awake => ⟨awake.active, awake.warm⟩⟩

end Monitor

end CallProfiler
