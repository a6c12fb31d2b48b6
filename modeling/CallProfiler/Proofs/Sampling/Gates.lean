import CallProfiler.Sampling.Policy

/-!
# Proofs.Sampling.Gates: no gate feels what the others are asked

A policy has a gate for the warmup window, one for each operation type that is reported, one for the
rate of recordings, and while executions are grouped one for every name. Which gate decides about a
recording depends on the configuration that is in force, so a run of calls has to be followed from the
start to say which of them a gate hears (`SamplingPolicy.heard`): those that it decides, and all new
configurations.

* `SameGate` — two policies that a gate cannot tell apart
* `step_unheard` and `SameGate.step` — a call that a gate does not hear is not felt by it, and one that
  it hears is answered alike
* `gates_are_independent` — two runs in which a gate hears the same get the same answers from it
-/

namespace CallProfiler

/-- What is asked of a policy. -/
inductive PolicyCall where
  | warm
  | profile (name : String)
  | report (t : OperationType)
  | reconfigure (config : ProfilerConfig)

/-- A call of a policy, or a movement of its clock. -/
inductive PolicyEvent where
  | call (call : PolicyCall)
  | clock (step : ClockStep)

/-- The calls among some events, each with the reading at which it is made. -/
def PolicyEvent.timed (now : Reading) : List PolicyEvent → List (Reading × PolicyCall)
  | [] => []
  | .call asked :: rest => (now, asked) :: timed now rest
  | .clock step :: rest => timed (step.apply now) rest

/-- A gate of a policy. -/
inductive SamplingGate where
  | warmup
  | reporting (t : OperationType)
  /-- The rate of recordings. -/
  | profiler
  /-- The executions of a name, while they are grouped. -/
  | group (name : String)
  deriving DecidableEq

/-- What a gate remembers. -/
inductive GateMemory where
  | warmup (w : Warmup)
  | limit (l : Option RateLimit)
  | count (n : UInt64)

namespace SamplingPolicy

/-- The gate that decides a call; a new configuration is not decided. -/
def gateOf (policy : SamplingPolicy) : PolicyCall → Option SamplingGate
  | .warm => some .warmup
  | .profile name => match policy.limits.groupInterval with
    | some _ => some (.group name)
    | none => some .profiler
  | .report t => some (.reporting t)
  | .reconfigure _ => none

/-- Makes a call at a reading. -/
def step (policy : SamplingPolicy) (now : Reading) : PolicyCall → Option Bool × SamplingPolicy
  | .warm => (policy.checkWarm now).map some id
  | .profile name => (policy.shouldProfile now name).map some id
  | .report t => (policy.shouldReport now t).map some id
  | .reconfigure config => (none, policy.reconfigure now config)

/-- The policy after a run of calls. -/
def run (policy : SamplingPolicy) (calls : List (Reading × PolicyCall)) : SamplingPolicy :=
  calls.foldl (fun policy call => (policy.step call.1 call.2).2) policy

/-- Whether a gate hears a call: it decides it, or the call brings a new configuration. -/
def hears (policy : SamplingPolicy) (gate : SamplingGate) (call : PolicyCall) : Bool :=
  (policy.gateOf call).all (· == gate)

/-- The calls of a run that a gate hears. -/
def heard (gate : SamplingGate) (policy : SamplingPolicy) :
    List (Reading × PolicyCall) → List (Reading × PolicyCall)
  | [] => []
  | (now, call) :: rest =>
    let later := heard gate (policy.step now call).2 rest
    if policy.hears gate call then (now, call) :: later else later

/-- The answers of a gate in a run of calls. -/
def told (gate : SamplingGate) (policy : SamplingPolicy) : List (Reading × PolicyCall) → List Bool
  | [] => []
  | (now, call) :: rest =>
    let later := told gate (policy.step now call).2 rest
    if policy.hears gate call then (policy.step now call).1.toList ++ later else later

/-- What a gate remembers. -/
def memory (policy : SamplingPolicy) : SamplingGate → GateMemory
  | .warmup => .warmup policy.warmup
  | .reporting t => .limit (policy.limits.reporting.get? t)
  | .profiler => .limit (some policy.limits.profiler)
  | .group name => .count (policy.countOf name)

/-- The names are in order, as the counts are kept. -/
def Ordered (policy : SamplingPolicy) : Prop :=
  (policy.counts.entries.map (·.1)).Pairwise (· < ·)

/-- Two policies that a gate cannot tell apart. -/
structure SameGate (gate : SamplingGate) (policy policy' : SamplingPolicy) : Prop where
  interval : policy.limits.groupInterval = policy'.limits.groupInterval
  memory : policy.memory gate = policy'.memory gate
  left : policy.Ordered
  right : policy'.Ordered

variable {gate : SamplingGate} {policy policy' policy'' : SamplingPolicy}

/-- A gate cannot tell a policy from itself. -/
theorem SameGate.refl (ordered : policy.Ordered) (gate : SamplingGate) :
    SameGate gate policy policy :=
  ⟨rfl, rfl, ordered, ordered⟩

/-- What a gate cannot tell apart in two steps it cannot tell apart at all. -/
theorem SameGate.trans (h : SameGate gate policy policy') (h' : SameGate gate policy' policy'') :
    SameGate gate policy policy'' :=
  ⟨h.interval.trans h'.interval, h.memory.trans h'.memory, h.left, h'.right⟩

/-! ## Counting names -/

/-- No name is counted at first. -/
theorem ordered_start (config : ProfilerConfig) (now : Reading) : (start config now).Ordered :=
  List.Pairwise.nil

/-- To count an execution keeps the names in order. -/
theorem Ordered.countGrouped (ordered : policy.Ordered) (name : String) (interval : UInt64) :
    (policy.countGrouped name interval).2.Ordered :=
  NameMap.ordered_alterEntries name _ ordered

/-- To ask for a recording keeps the names in order, also when it is counted under a name. -/
theorem Ordered.shouldProfile (ordered : policy.Ordered) (now : Reading) (name : String) :
    (policy.shouldProfile now name).2.Ordered := by
  unfold SamplingPolicy.shouldProfile
  split
  · split
    · exact ordered
    · split
      · exact ordered
      · exact ordered.countGrouped name _
  · exact ordered

/-- Reports are not counted by name. -/
theorem Ordered.shouldReport (ordered : policy.Ordered) (now : Reading) (t : OperationType) :
    (policy.shouldReport now t).2.Ordered := by
  unfold SamplingPolicy.shouldReport
  split <;> exact ordered

/-- Every call keeps the names in order. -/
theorem Ordered.step (ordered : policy.Ordered) (now : Reading) (call : PolicyCall) :
    (policy.step now call).2.Ordered := by
  cases call with
  | warm => exact ordered
  | profile name => exact ordered.shouldProfile now name
  | report t => exact ordered.shouldReport now t
  | reconfigure config => exact ordered

/-- Every policy that can be reached has its names in order. -/
theorem Ordered.run (ordered : policy.Ordered) (calls : List (Reading × PolicyCall)) :
    (policy.run calls).Ordered := by
  induction calls generalizing policy with
  | nil => exact ordered
  | cons call rest ih => exact ih (ordered.step call.1 call.2)

/-- To count an execution adds one under its own name and nothing under the others. -/
theorem countOf_countGrouped (ordered : policy.Ordered) (name other : String) (interval : UInt64) :
    (policy.countGrouped name interval).2.countOf other =
      if other = name then policy.countOf name + 1 else policy.countOf other := by
  show (NameMap.lookup other (NameMap.alterEntries name _ policy.counts.entries)).getD 0 = _
  rw [NameMap.lookup_alterEntries name other _ ordered]
  split <;> rfl

/-! ## Calls that a gate does not hear -/

/-- A call is not heard by a gate if and only if another gate decides it. -/
theorem hears_eq_false {call : PolicyCall} :
    policy.hears gate call = false ↔ ∃ other, policy.gateOf call = some other ∧ other ≠ gate := by
  unfold hears
  cases policy.gateOf call <;> simp

/-- A recording that another gate decides is not remembered by this one. -/
theorem memory_shouldProfile (ordered : policy.Ordered) (now : Reading) (name : String)
    (unheard : policy.hears gate (.profile name) = false) :
    (policy.shouldProfile now name).2.memory gate = policy.memory gate := by
  obtain ⟨other, decides, apart⟩ := hears_eq_false.mp unheard
  unfold gateOf at decides
  unfold shouldProfile
  cases interval : policy.limits.groupInterval with
  -- one limit for all names, which no gate but that of the profiler remembers
  | none =>
    rw [interval] at decides
    obtain rfl := Option.some.inj decides
    cases gate with
    | profiler => exact absurd rfl apart
    | warmup | reporting _ | group _ => rfl
  -- the name is counted, if at all, and other names are not
  | some interval =>
    rw [‹policy.limits.groupInterval = _›] at decides
    obtain rfl := Option.some.inj decides
    dsimp only
    split
    · rfl
    · split
      · rfl
      · cases gate with
        | group name' =>
          have different : name' ≠ name := fun same => apart (congrArg _ same.symm)
          exact congrArg GateMemory.count
            ((countOf_countGrouped ordered name name' _).trans (if_neg different))
        | warmup | reporting _ | profiler => rfl

/-- A report is not remembered by any gate but that of its operation type. -/
theorem memory_shouldReport (now : Reading) (t : OperationType) (apart : gate ≠ .reporting t) :
    (policy.shouldReport now t).2.memory gate = policy.memory gate := by
  unfold shouldReport
  split
  · rfl
  · cases gate with
    | reporting t' =>
      have different : t' ≠ t := fun same => apart (congrArg _ same)
      exact congrArg GateMemory.limit ((ByType.get?_set ..).trans (if_neg different))
    | warmup | profiler | group _ => rfl

@[simp] theorem interval_shouldProfile (now : Reading) (name : String) :
    (policy.shouldProfile now name).2.limits.groupInterval = policy.limits.groupInterval := by
  unfold shouldProfile
  split
  · split
    · rfl
    · split <;> rfl
  · rfl

@[simp] theorem interval_shouldReport (now : Reading) (t : OperationType) :
    (policy.shouldReport now t).2.limits.groupInterval = policy.limits.groupInterval := by
  unfold shouldReport
  split <;> rfl

/-- A call that a gate does not hear is not felt by it. -/
theorem step_unheard (ordered : policy.Ordered) (now : Reading) {call : PolicyCall}
    (unheard : policy.hears gate call = false) :
    SameGate gate (policy.step now call).2 policy := by
  have left := ordered.step now call
  obtain ⟨other, decides, apart⟩ := hears_eq_false.mp unheard
  cases call with
  | warm =>
    obtain rfl := Option.some.inj decides
    refine ⟨rfl, ?_, left, ordered⟩
    cases gate with
    | warmup => exact absurd rfl apart
    | reporting _ | profiler | group _ => rfl
  | profile name =>
    exact ⟨interval_shouldProfile now name, memory_shouldProfile ordered now name unheard, left,
      ordered⟩
  | report t =>
    obtain rfl := Option.some.inj decides
    exact ⟨interval_shouldReport now t, memory_shouldReport now t apart.symm, left, ordered⟩
  | reconfigure config => exact absurd decides (by simp [gateOf])

/-! ## Calls that a gate hears -/

/-- Which gate decides a call depends on the interval only, so both policies agree about it. -/
theorem SameGate.gateOf (same : SameGate gate policy policy') (call : PolicyCall) :
    policy.gateOf call = policy'.gateOf call := by
  cases call with
  | profile name =>
    unfold SamplingPolicy.gateOf
    rw [same.interval]
  | warm | report _ | reconfigure _ => rfl

/-- A gate hears a call of both policies or of neither. -/
theorem SameGate.hears (same : SameGate gate policy policy') (call : PolicyCall) :
    policy.hears gate call = policy'.hears gate call := by
  unfold SamplingPolicy.hears
  rw [same.gateOf call]

/-- The warmup window answers both policies alike and remembers the same of it. -/
theorem SameGate.warm (same : SameGate .warmup policy policy') (now : Reading) :
    (policy.checkWarm now).1 = (policy'.checkWarm now).1 ∧
    (policy.checkWarm now).2.memory .warmup = (policy'.checkWarm now).2.memory .warmup := by
  have window : policy.warmup = policy'.warmup := GateMemory.warmup.inj same.memory
  unfold checkWarm SamplingPolicy.memory
  rw [window]
  exact ⟨rfl, rfl⟩

/-- While executions are not grouped, the rate of recordings answers both policies alike. -/
theorem SameGate.profiler (same : SameGate .profiler policy policy')
    (single : policy.limits.groupInterval = none) (now : Reading) (name : String) :
    (policy.shouldProfile now name).1 = (policy'.shouldProfile now name).1 ∧
    (policy.shouldProfile now name).2.memory .profiler =
      (policy'.shouldProfile now name).2.memory .profiler := by
  have limit : policy.limits.profiler = policy'.limits.profiler :=
    Option.some.inj (GateMemory.limit.inj same.memory)
  unfold shouldProfile SamplingPolicy.memory
  rw [← same.interval, single, limit]
  exact ⟨rfl, rfl⟩

/-- While executions are grouped, the count of a name answers both policies alike. -/
theorem SameGate.group {name : String} (same : SameGate (.group name) policy policy')
    {interval : Int64} (grouped : policy.limits.groupInterval = some interval) (now : Reading) :
    (policy.shouldProfile now name).1 = (policy'.shouldProfile now name).1 ∧
    (policy.shouldProfile now name).2.memory (.group name) =
      (policy'.shouldProfile now name).2.memory (.group name) := by
  have count : policy.countOf name = policy'.countOf name := GateMemory.count.inj same.memory
  unfold shouldProfile
  rw [← same.interval, grouped]
  dsimp only
  split
  · exact ⟨rfl, same.memory⟩
  · split
    · exact ⟨rfl, same.memory⟩
    · refine ⟨congrArg (· % interval.toUInt64 == 0) count, congrArg GateMemory.count ?_⟩
      rw [countOf_countGrouped same.left, countOf_countGrouped same.right, count]

/-- The rate of an operation type answers both policies alike. -/
theorem SameGate.reporting {t : OperationType} (same : SameGate (.reporting t) policy policy')
    (now : Reading) :
    (policy.shouldReport now t).1 = (policy'.shouldReport now t).1 ∧
    (policy.shouldReport now t).2.memory (.reporting t) =
      (policy'.shouldReport now t).2.memory (.reporting t) := by
  have limit : policy.limits.reporting.get? t = policy'.limits.reporting.get? t :=
    GateMemory.limit.inj same.memory
  unfold shouldReport
  rw [limit]
  split
  · exact ⟨rfl, same.memory⟩
  · next limit _ =>
    have renewed (limits : ByType RateLimit) :
        (limits.set t (limit.request now).2).get? t = some (limit.request now).2 := by simp
    exact ⟨rfl, congrArg GateMemory.limit ((renewed _).trans (renewed _).symm)⟩

/-- A new configuration leaves a gate with the same memory in both policies: a limit is made anew, and
the window and the counts stay. -/
theorem SameGate.reconfigure (same : SameGate gate policy policy') (now : Reading)
    (config : ProfilerConfig) :
    (policy.reconfigure now config).memory gate = (policy'.reconfigure now config).memory gate := by
  have kept := same.memory
  cases gate with
  | warmup | group _ => exact kept
  | reporting _ | profiler => rfl

/-- A call that a gate hears is answered alike and leaves the gate alike. -/
theorem SameGate.step (same : SameGate gate policy policy') (now : Reading) {call : PolicyCall}
    (heard : policy.hears gate call = true) :
    (policy.step now call).1 = (policy'.step now call).1 ∧
    SameGate gate (policy.step now call).2 (policy'.step now call).2 := by
  have left := same.left.step now call
  have right := same.right.step now call
  unfold SamplingPolicy.hears at heard
  cases call with
  | warm =>
    obtain rfl : .warmup = gate := by simpa [SamplingPolicy.gateOf] using heard
    rcases same.warm now with ⟨answer, memory⟩
    exact ⟨congrArg some answer, same.interval, memory, left, right⟩
  | report t =>
    obtain rfl : .reporting t = gate := by simpa [SamplingPolicy.gateOf] using heard
    rcases same.reporting now with ⟨answer, memory⟩
    refine ⟨congrArg some answer, ?_, memory, left, right⟩
    exact (interval_shouldReport now t).trans (same.interval.trans (interval_shouldReport now t).symm)
  | reconfigure config => exact ⟨rfl, rfl, same.reconfigure now config, left, right⟩
  | profile name =>
    have interval : (policy.shouldProfile now name).2.limits.groupInterval =
        (policy'.shouldProfile now name).2.limits.groupInterval := by
      rw [interval_shouldProfile, interval_shouldProfile, same.interval]
    cases decides : policy.limits.groupInterval with
    | none =>
      obtain rfl : .profiler = gate := by
        simpa [SamplingPolicy.gateOf, decides] using heard
      rcases same.profiler decides now name with ⟨answer, memory⟩
      exact ⟨congrArg some answer, interval, memory, left, right⟩
    | some _ =>
      obtain rfl : .group name = gate := by
        simpa [SamplingPolicy.gateOf, decides] using heard
      rcases same.group decides now with ⟨answer, memory⟩
      exact ⟨congrArg some answer, interval, memory, left, right⟩

/-! ## Runs -/

/-- A gate answers in a run as it does when it is asked only what it hears of it. -/
theorem SameGate.told_heard (same : SameGate gate policy policy')
    (calls : List (Reading × PolicyCall)) :
    policy.told gate calls = policy'.told gate (policy.heard gate calls) := by
  induction calls generalizing policy policy' with
  | nil => rfl
  | cons first rest ih =>
    rcases first with ⟨now, call⟩
    unfold heard
    cases heard : policy.hears gate call with
    -- both runs make this call, and the gate cannot tell the policies apart after it either
    | true =>
      rcases same.step now heard with ⟨answer, next⟩
      have heard' := (same.hears call).symm.trans heard
      simp only [told, heard, heard', if_true]
      rw [answer, ih next]
    -- only the first run makes this call, and the gate does not feel it
    | false =>
      simp only [told, heard, Bool.false_eq_true, if_false]
      exact ih ((step_unheard same.left now heard).trans same)

end SamplingPolicy

/-- Two runs of calls on a policy, each with its own movements of the clock, that agree in what one gate
hears — the calls that it decides and the new configurations, with the readings at which they are
made — get the same answers from that gate, whatever else is asked of the policy in between. -/
theorem gates_are_independent (config : ProfilerConfig) (started : Reading)
    (before : List (Reading × PolicyCall)) (gate : SamplingGate) (now now' : Reading)
    (events events' : List PolicyEvent) :
    let policy := (SamplingPolicy.start config started).run before
    let calls := PolicyEvent.timed now events
    let calls' := PolicyEvent.timed now' events'
    policy.heard gate calls = policy.heard gate calls' →
      policy.told gate calls = policy.told gate calls' := by
  intro policy calls calls' agree
  have same : SamplingPolicy.SameGate gate policy policy :=
    .refl ((SamplingPolicy.ordered_start config started).run before) gate
  calc policy.told gate calls
    _ = policy.told gate (policy.heard gate calls) := same.told_heard calls
    _ = policy.told gate (policy.heard gate calls') := by rw [agree]
    _ = policy.told gate calls' := (same.told_heard calls').symm

/-- A configuration that groups executions by name. -/
def groupingConfig : ProfilerConfig := { groupInterval := some 2, reportingRates := ⟨some 60.0, none⟩ }

/-- A configuration that limits the rate of recordings. -/
def limitingConfig : ProfilerConfig :=
  { profilerRatePerMinute := 30.0, reportingRates := ⟨some 60.0, some 120.0⟩ }

/-- Every gate is asked, before and after executions are no longer grouped. -/
def crowdedEvents : List PolicyEvent :=
  [.call (.profile "load"), .call .warm, .call (.report .server), .clock (.advance 5),
    .call (.profile "save"), .call (.reconfigure limitingConfig), .call (.profile "load"),
    .call (.report .external), .clock (.advance 2), .call .warm, .call (.report .server)]

/-- Nothing but reports of the server is asked for. -/
def lonelyEvents : List PolicyEvent :=
  [.call (.report .server), .clock (.set 8), .clock (.set 5), .call (.reconfigure limitingConfig),
    .clock (.set 7), .call (.report .server)]

theorem crowded_gate_answers_alike :
    let policy := (SamplingPolicy.start groupingConfig 0).run [(0, .profile "load")]
    let calls := PolicyEvent.timed 0 crowdedEvents
    let calls' := PolicyEvent.timed 0 lonelyEvents
    policy.heard (.reporting .server) calls = policy.heard (.reporting .server) calls' ∧
    policy.told (.reporting .server) calls = policy.told (.reporting .server) calls' := by
  intro policy calls calls'
  have agree : policy.heard (.reporting .server) calls = policy.heard (.reporting .server) calls' := by
    simp [policy, calls, calls', SamplingPolicy.heard, SamplingPolicy.hears, SamplingPolicy.gateOf,
      SamplingPolicy.run, SamplingPolicy.step, SamplingPolicy.start, Limits.ofConfig,
      SamplingPolicy.reconfigure, SamplingPolicy.checkWarm, PolicyEvent.timed, ClockStep.apply,
      crowdedEvents, lonelyEvents, groupingConfig, limitingConfig]
  exact ⟨agree, gates_are_independent groupingConfig 0 [(0, .profile "load")] (.reporting .server) 0 0
    crowdedEvents lonelyEvents agree⟩

end CallProfiler
