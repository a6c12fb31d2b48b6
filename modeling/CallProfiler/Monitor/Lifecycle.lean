import CallProfiler.Monitor.Basic

/-!
# Monitor.Lifecycle: running work under monitoring

1. While monitoring is off or the warmup window is open, work runs bare.
2. Inside another recorded execution it runs as a child of the innermost open call.
3. Otherwise it is a top-level execution, and the sampling policy decides whether it is recorded.
4. After the work its hook is told. A nested execution closes what it left open, and is counted if it
   is forwardable. A top-level execution closes its root, is counted, trims its tree and is reported.
5. The ending of the work is passed on.

What goes wrong in hooks, sinks and reporters is logged and has no other effect.
-/

namespace CallProfiler

/-- How an execution is handled. -/
inductive Mode where
  /-- Without any bookkeeping. -/
  | bare
  /-- As a child of the innermost open call; `depth` calls were open before it. -/
  | nested (depth : Nat) (forwardable : Bool)
  /-- On its own, and recorded or not. -/
  | topLevel (recorded : Bool)
  deriving DecidableEq, Repr

namespace CallStack

/-- Ends open calls until `depth` are left, at most `fuel` of them. A tree that is finished by it is
given back. -/
def unwindSteps : (fuel depth : Nat) → CallStack → Profiler → CallStack × Profiler
  | 0, _, s, p => (s, p)
  | fuel + 1, depth, s, p =>
    if depth < s.depth then
      match s.stop p with
      | (some tree, s, p) => (s, p.recycle tree)
      | (none, s, p) => unwindSteps fuel depth s p
    else (s, p)

/-- Ends open calls until `depth` are left. Each step ends one, so there are no more steps than open
calls. -/
def unwindTo (s : CallStack) (p : Profiler) (depth : Nat) : CallStack × Profiler :=
  unwindSteps s.depth depth s p

/-- Ends open calls up to and including the root, at most `fuel` of them. -/
def closeSteps : (fuel : Nat) → CallStack → Profiler → Option CallTree × CallStack × Profiler
  | 0, s, p => (none, s, p)
  | fuel + 1, s, p =>
    if s.isActive then
      match s.stop p with
      | (some tree, s, p) => (some tree, s, p)
      | (none, s, p) => closeSteps fuel s p
    else (none, s, p)

/-- Ends all open calls and takes the tree. -/
def closeRoot (s : CallStack) (p : Profiler) : Option CallTree × CallStack × Profiler :=
  closeSteps s.depth s p

end CallStack

namespace Monitor

/-! ## Before the work -/

/-- Decides how an execution is handled, and opens its call. -/
def prepare (m : Monitor) (stack : CallStack) (e : Execution) : Mode × CallStack × Monitor :=
  if !m.config.monitoringActive then (.bare, stack, m)
  else if stack.isActive then
    let depth := stack.depth
    let (stack, profiler) := stack.start m.profiler e.name
    (.nested depth e.forwardable, stack, { m with profiler := profiler })
  else
    -- only top-level executions count against the warmup window
    let (warm, policy) := m.policy.checkWarm m.now
    let m := { m with policy := policy }
    if !warm then (.bare, stack, m)
    else
      let (chosen, policy) := m.policy.shouldProfile m.now e.name
      let m := { m with policy := policy }
      if !chosen then (.topLevel false, stack, m)
      else
        let (result, stack, profiler) := stack.activate m.profiler e.name
        let m := { m with profiler := profiler }
        match result with
        | .ok _ => (.topLevel true, stack, m)
        | .error error =>
          (.topLevel false, stack,
            m.logged .warning ("Not profiling " ++ e.name ++ ": " ++ error.message))

/-! ## After the work -/

/-- Tells the hook of an execution. -/
def runHook (m : Monitor) (hook : Hook) (info : ExecutionInfo) : Monitor :=
  match hook with
  | .silent => m
  | .noted => m.enter (.hook info)
  | .panicking =>
    (m.enter (.hook info)).logged .warning ("Post-execute hook of " ++ info.name ++ " panicked")

/-- Adds an execution to the timer of a name. -/
def countTime (m : Monitor) (key : String) (info : ExecutionInfo) : Monitor :=
  match m.updateMetrics (.timer key info.duration) with
  | (.accepted, m) => m
  | (.refused e, m) => m.logged .warning ("Failed to update timer " ++ key ++ ": " ++ e.message)
  | (.panicked, m) => m.logged .warning ("Metrics sink panicked updating timer " ++ key)

/-- Adds a failed execution to the error counter of a name. -/
def countError (m : Monitor) (key : String) : Monitor :=
  match m.updateMetrics (.error key) with
  | (.accepted, m) => m
  | (.refused e, m) => m.logged .warning ("Failed to count error of " ++ key ++ ": " ++ e.message)
  | (.panicked, m) => m.logged .warning ("Metrics sink panicked counting error of " ++ key)

/-- Counts an execution under a name. -/
def countUnder (m : Monitor) (info : ExecutionInfo) (key : String) : Monitor :=
  let m := m.countTime key info
  if info.failed then m.countError key else m

/-- Counts an execution under its own name and under the name of all. -/
def recordMetrics (m : Monitor) (info : ExecutionInfo) : Monitor :=
  (m.countUnder info info.name).countUnder info aggregateName

/-- Trims a finished tree to the share of its root's time that the configuration asks for. -/
def trim (m : Monitor) (tree : CallTree) : CallTree × Monitor :=
  let percent := m.config.minExecutionTimePercent
  if percent ≤ 0.0 then (tree, m)
  else
    let threshold := (tree.totalTime.toFloat * percent / 100.0).toUInt64
    let (tree, pool) := tree.removeCallsFasterThan m.profiler.pool threshold
    (tree, { m with profiler := { m.profiler with pool := pool } })

/-- Offers a report to one reporter. -/
def offer (report : ExecutionReport) (m : Monitor) (reporter : Reporter) : Monitor :=
  let panicked (m : Monitor) : Monitor :=
    m.logged .warning ("Reporter " ++ reporter.name ++ " panicked for " ++ report.info.name)
  let gate := reporter.gate m.journal.heard m.config report
  let m := m.enter (.gate reporter.name report gate)
  match gate with
  | .unwanted => m
  | .panicked => panicked m
  | .wanted =>
    let (notes, reply) := reporter.deliver m.journal.heard m.config report
    let m := notes.foldl (fun m note => m.enter (.note note)) m
    let m := m.enter (.delivery reporter.name report reply)
    match reply with
    | .accepted => m
    | .refused e => m.logged .warning
      ("Reporter " ++ reporter.name ++ " failed for " ++ report.info.name ++ ": " ++ e.message)
    | .panicked => panicked m

/-- Offers a report to all reporters. The reporting limit is asked only if there is a reporter. -/
def publish (m : Monitor) (report : ExecutionReport) : Monitor :=
  if m.reporters.isEmpty then m
  else
    let (admitted, policy) := m.policy.shouldReport m.now report.info.operationType
    let m := { m with policy := policy }
    if admitted then m.reporters.foldl (offer report) m else m

/-- Closes what an execution opened, counts it and reports it, as its mode asks for. -/
def finish (m : Monitor) (stack : CallStack) (mode : Mode) (info : ExecutionInfo) :
    CallStack × Monitor :=
  match mode with
  | .bare => (stack, m)
  | .nested depth forwardable =>
    let (stack, profiler) := stack.unwindTo m.profiler depth
    let m := { m with profiler := profiler }
    (stack, if forwardable then m.recordMetrics info else m)
  | .topLevel recorded =>
    let (tree, stack, profiler) :=
      if recorded then stack.closeRoot m.profiler else (none, stack, m.profiler)
    let m := { m with profiler := profiler }.recordMetrics info
    match tree with
    | none => (stack, m.publish ⟨info, none⟩)
    -- the tree lives until all reporters have seen it
    | some tree =>
      let (tree, m) := m.trim tree
      let m := m.publish ⟨info, some tree⟩
      (stack, { m with profiler := m.profiler.recycle tree })

/-- Everything that follows the work: the hook, then the bookkeeping. -/
def conclude (m : Monitor) (stack : CallStack) (mode : Mode) (e : Execution) (started : Reading)
    (failure : Option String) : CallStack × Monitor :=
  let info := e.info (.ofNanos (saturatingSub m.now started)) failure
  (m.runHook e.hook info).finish stack mode info

/-! ## Running work -/

/-- Runs work on a stack under monitoring. -/
def execute {ε α : Type} (describe : ε → String) (e : Execution)
    (work : CallStack → Monitor → Outcome ε α × CallStack × Monitor)
    (stack : CallStack) (m : Monitor) : Outcome ε α × CallStack × Monitor :=
  let (mode, stack, m) := m.prepare stack e
  if mode = .bare then work stack m
  else
    let started := m.now
    let (outcome, stack, m) := work stack m
    let (stack, m) := m.conclude stack mode e started (outcome.failure? describe)
    (outcome, stack, m)

end Monitor

end CallProfiler
