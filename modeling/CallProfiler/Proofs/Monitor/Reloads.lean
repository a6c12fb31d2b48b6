import CallProfiler.Agent
import CallProfiler.Proofs.Monitor.Order
import CallProfiler.Proofs.Stack.Isolation

/-!
# Proofs.Monitor.Reloads: a new configuration is taken over as a whole or not at all

A `Service` is a monitor in use: stacks and trees on its profiler, and executions whose work is
running. Executions begin and end at any time, so that anything can happen while they run, new
configurations included; `execute_of_events` says that to run work under monitoring is to begin an
execution, to let the work happen, and to end it.

The reference for new configurations is a `Regime`: the configuration in force and the reading at which
it was taken over. It sees the clock and the new configurations and nothing else.

* `Monitor.Reloaded` — what a new configuration does to a monitor, refused or not
* `InForce` — the parts of the monitor that belong to the configuration in force: `InForce.step`,
  `InForce.run`
* `step_held` — no event changes the threshold of a running recording; one that begins gets the
  threshold in force
* `reloads_are_all_or_nothing` — all of this along every run
-/

namespace CallProfiler

/-! ## A monitor in use -/

/-- An execution whose work is running. -/
structure Begun where
  mode : Mode
  execution : Execution
  started : Reading

/-- A monitor with all that is on its profiler, and with the executions so far: `none` stands for those
that have ended. -/
structure Service where
  monitor : Monitor
  party : Party := {}
  running : List (Option Begun) := []

/-- What happens to a service; `k` numbers its stacks, and `i` its executions. -/
inductive ServiceEvent where
  | reload (config : ProfilerConfig)
  | clock (step : ClockStep)
  | addReporter (reporter : Reporter)
  | move (move : PartyMove)
  | begin (k : Nat) (execution : Execution)
  /-- The work of an execution is over and has left a stack; its panic or error is given. -/
  | finish (i k : Nat) (failure : Option String)

namespace Service

/-- A stack of the service. -/
def stack? (w : Service) (k : Nat) : Option CallStack := w.party.cursors[k]?

/-- Whether a stack of the service records. -/
def records (w : Service) (k : Nat) : Bool := (w.stack? k).any (·.isActive)

/-- Puts a stack in its place. -/
def putStack (w : Service) (k : Nat) (s : CallStack) (m : Monitor) : Service :=
  { w with monitor := m, party := { w.party with cursors := w.party.cursors.set k s } }

/-- One event. -/
def step (w : Service) : ServiceEvent → Service
  | .reload config => { w with monitor := (w.monitor.reload config).2 }
  | .clock step => { w with monitor := { w.monitor with profiler := w.monitor.profiler.tick step } }
  | .addReporter reporter => { w with monitor := w.monitor.addReporter reporter }
  | .move move =>
    let (_, party, profiler) := w.party.make w.monitor.profiler move
    { w with monitor := { w.monitor with profiler := profiler }, party := party }
  | .begin k e =>
    match w.stack? k with
    | none => w
    | some s =>
      let (mode, s, m) := w.monitor.prepare s e
      { w.putStack k s m with running := w.running ++ [some ⟨mode, e, m.now⟩] }
  | .finish i k failure =>
    match w.running[i]?.join, w.stack? k with
    | some x, some s =>
      let (s, m) := if x.mode = .bare then (s, w.monitor)
        else w.monitor.conclude s x.mode x.execution x.started failure
      { w.putStack k s m with running := w.running.set i none }
    | _, _ => w

/-- The service after a list of events. -/
def run (w : Service) (events : List ServiceEvent) : Service := events.foldl step w

/-- The service at first and after each event. -/
def history (w : Service) (events : List ServiceEvent) : List Service :=
  states (fun w e => ((), w.step e)) w events

end Service

/-- The configuration in force, and since when. -/
structure Regime where
  config : ProfilerConfig
  since : Reading
  now : Reading

namespace Regime

/-- At first, the configuration that all was built from. -/
def start (config : ProfilerConfig) (now : Reading) : Regime := ⟨config, now, now⟩

/-- A valid new configuration is in force from now on. -/
def step (r : Regime) : ServiceEvent → Regime
  | .reload next =>
    match next.validate with
    | .ok _ => { r with config := next, since := r.now }
    | .error _ => r
  | .clock step => { r with now := step.apply r.now }
  | _ => r

/-- The configuration in force after a list of events. -/
def run (r : Regime) (events : List ServiceEvent) : Regime := events.foldl step r

/-- No configuration is in force but the first one and valid ones that came later. -/
theorem run_config (r : Regime) (events : List ServiceEvent) :
    (r.run events).config = r.config ∨ ((r.run events).config.validate = .ok () ∧
      ServiceEvent.reload (r.run events).config ∈ events) := by
  induction events generalizing r with
  | nil => exact .inl rfl
  | cons e rest ih =>
    have first : (r.step e).config = r.config ∨
        ((r.step e).config.validate = .ok () ∧ e = .reload (r.step e).config) := by
      cases e with
      | reload next =>
        unfold step
        dsimp only
        split
        · next valid => exact .inr ⟨valid, rfl⟩
        · exact .inl rfl
      | _ => exact .inl rfl
    -- what is in force at the end is from the rest, from the first event, or from before
    rcases ih (r.step e) with same | ⟨valid, later⟩
    · rcases first with kept | ⟨valid, here⟩
      · exact .inl (same.trans kept)
      · have now : (r.run (e :: rest)).config = (r.step e).config := same
        rw [now]
        exact .inr ⟨valid, List.mem_cons.mpr (.inl here.symm)⟩
    · exact .inr ⟨valid, List.mem_cons_of_mem _ later⟩

end Regime

namespace Monitor

/-- What a new configuration does: it is refused and changes nothing, or it replaces the configuration,
the threshold of recordings to come and all limits, and changes nothing else but the journal. -/
inductive Reloaded (m : Monitor) (next : ProfilerConfig) : Except ConfigError Unit × Monitor → Prop where
  | refused {e : ConfigError} : next.validate = .error e → Reloaded m next (.error e, m)
  | accepted (journal : Journal) : next.validate = .ok () → Reloaded m next (.ok (),
      { m with
        config := next
        profiler := { m.profiler with threshold := next.minExecutionTimeNanos }
        policy := { m.policy with limits := .ofConfig next m.now }
        journal := journal })

/-- A reload is refused or taken over, with nothing in between. -/
theorem reload_reloaded (m : Monitor) (next : ProfilerConfig) : m.Reloaded next (m.reload next) := by
  cases valid : next.validate with
  | error e =>
    rw [m.reload_invalid valid]
    exact .refused valid
  | ok _ =>
    rw [m.reload_valid valid]
    split
    · exact .accepted _ valid
    · exact .accepted _ valid

/-- The monitor has been built from one configuration. -/
structure BuiltFrom (m : Monitor) (config : ProfilerConfig) (now : Reading) : Prop where
  shared : m.config = config
  threshold : m.profiler.threshold = config.minExecutionTimeNanos
  policy : m.policy = .start config now
  now : m.now = now

/-- A monitor that starts is built from its configuration. -/
theorem builtFrom_start (config : ProfilerConfig) (sink : MetricsSink) (now : Reading) :
    (Monitor.start config sink now).BuiltFrom config now :=
  ⟨rfl, rfl, rfl, rfl⟩

/-- Agents are such monitors, and their configuration is valid. -/
theorem builtFrom_agent {m : Monitor} {config : ProfilerConfig} {now : Reading}
    (made : Agent.start config now = .ok m) :
    m.BuiltFrom config now ∧ config.validate = .ok () := by
  unfold Agent.start at made
  split at made
  · exact absurd made (by simp)
  · next valid =>
    obtain rfl := Except.ok.inj made
    exact ⟨⟨rfl, rfl, rfl, rfl⟩, valid⟩

/-! ## What executions leave alone -/

/-- The configuration and what belongs to it are as before; the limits have been asked. -/
structure SameRegime (m m' : Monitor) : Prop where
  config : m'.config = m.config
  terms : m.profiler.SameTerms m'.profiler
  limits : m.policy.limits.Drawn m'.policy.limits

/-- No part of an execution changes the configuration in force. -/
theorem order_regime : LifecycleOrder SameRegime where
  refl m := ⟨rfl, .refl m.profiler, .none⟩
  trans h h' := ⟨h'.config.trans h.config, h.terms.trans h'.terms, h.limits.trans h'.limits⟩
  withProfiler _ _ same := ⟨rfl, same, .none⟩
  withPolicy _ _ asked := ⟨rfl, .refl _, asked.limits⟩
  enter _ _ _ := ⟨rfl, .refl _, .none⟩
  updateMetrics _ _ := ⟨rfl, .refl _, .none⟩

/-- Before the work a running recording keeps its threshold, and a new one takes the profiler's. -/
theorem prepare_held (m : Monitor) (s : CallStack) (e : Execution) :
    s.Held m.profiler.threshold (m.prepare s e).2.1 := by
  have prepared := prepare_cases m s e
  generalize m.prepare s e = result at prepared ⊢
  cases prepared with
  | bare | unrecorded => exact .refl s _
  | nested => exact (s.start_goesOn m.profiler e.name).held _
  | recorded => exact (s.activate_moved m.profiler e.name).held

/-- After the work no recording changes its threshold. -/
theorem finish_held (m : Monitor) (s : CallStack) (mode : Mode) (info : ExecutionInfo)
    (threshold : UInt64) : s.Held threshold (m.finish s mode info).1 := by
  cases mode with
  | bare => exact .refl s _
  | nested depth forwardable => exact (s.unwindSteps_goesOn s.depth depth m.profiler).held _
  | topLevel recorded =>
    have closed : s.Held threshold (if recorded = true then s.closeRoot m.profiler
        else (none, s, m.profiler)).2.1 := by
      split
      · exact (s.closeSteps_goesOn s.depth m.profiler).held _
      · exact .refl s _
    unfold finish
    dsimp only
    generalize (if recorded = true then _ else _ : Option CallTree × CallStack × Profiler) = result
      at closed ⊢
    rcases result with ⟨_ | tree, left, p⟩
    · exact closed
    · exact closed

end Monitor

/-! ## One event -/

namespace Service

variable {w : Service} {r : Regime} {k : Nat} {s s' : CallStack}

/-- The configuration, the threshold and the limits are those of a regime. -/
structure InForce (w : Service) (r : Regime) : Prop where
  config : w.monitor.config = r.config
  threshold : w.monitor.profiler.threshold = r.config.minExecutionTimeNanos
  limits : (Limits.ofConfig r.config r.since).Drawn w.monitor.policy.limits
  now : w.monitor.now = r.now

/-- A service begins under the configuration with which it is built. -/
theorem inForce_start {m : Monitor} {config : ProfilerConfig} {now : Reading}
    (built : m.BuiltFrom config now) : InForce { monitor := m } (.start config now) := by
  refine ⟨built.shared, built.threshold, ?_, built.now⟩
  show (Limits.ofConfig config now).Drawn m.policy.limits
  rw [built.policy]
  exact .none

/-- What leaves the regime of the monitor alone leaves the configuration in force. -/
theorem InForce.same (h : w.InForce r) {w' : Service} (same : w.monitor.SameRegime w'.monitor) :
    w'.InForce r where
  config := same.config.trans h.config
  threshold := same.terms.threshold.trans h.threshold
  limits := h.limits.trans same.limits
  now := same.terms.now.trans h.now

/-- After every event the regime of the service is that of the configuration in force. -/
theorem InForce.step (h : w.InForce r) (e : ServiceEvent) : (w.step e).InForce (r.step e) := by
  cases e with
  | reload next =>
    have reloaded := w.monitor.reload_reloaded next
    unfold Service.step Regime.step
    dsimp only
    generalize w.monitor.reload next = result at reloaded ⊢
    cases reloaded with
    | refused invalid =>
      rw [invalid]
      exact h
    -- both start with full limits, at the same reading
    | accepted journal valid =>
      rw [valid]
      refine ⟨rfl, rfl, ?_, h.now⟩
      rw [h.now]
      exact .none
  | clock step => exact ⟨h.config, h.threshold, h.limits, congrArg step.apply h.now⟩
  | addReporter reporter => exact ⟨h.config, h.threshold, h.limits, h.now⟩
  | move move => exact h.same ⟨rfl, w.party.make_terms w.monitor.profiler move, .none⟩
  | begin k e =>
    unfold Service.step Regime.step
    dsimp only
    split
    · exact h
    · exact h.same (Monitor.order_regime.prepare ..)
  | finish i k failure =>
    unfold Service.step Regime.step
    dsimp only
    split
    · split
      · exact h.same (Monitor.order_regime.refl _)
      · exact h.same (Monitor.order_regime.conclude ..)
    · exact h

/-- So it is after a run of events, by induction. -/
theorem InForce.run (h : w.InForce r) (events : List ServiceEvent) :
    (w.run events).InForce (r.run events) := by
  induction events generalizing w r with
  | nil => exact h
  | cons e rest ih => exact ih (h.step e)

/-- A stack that is put in place of another one. -/
theorem held_set {cursors : List CallStack} {j : Nat} {x : CallStack} {threshold : UInt64}
    (put : ∀ y, cursors[j]? = some y → y.Held threshold x) (before : cursors[k]? = some s)
    (after : (cursors.set j x)[k]? = some s') : s.Held threshold s' := by
  by_cases same : j = k
  · subst same
    rw [List.getElem?_set_self (List.getElem?_eq_some_iff.mp before).1] at after
    exact Option.some.inj after ▸ put s before
  · rw [List.getElem?_set_ne same, before] at after
    exact Option.some.inj after ▸ .refl s threshold

/-- A stack that stays where it was keeps its threshold. -/
theorem held_self {cursors : List CallStack} (threshold : UInt64) (before : cursors[k]? = some s)
    (after : cursors[k]? = some s') : s.Held threshold s' :=
  Option.some.inj (before.symm.trans after) ▸ .refl s threshold

/-- No move of a party changes the threshold of a running recording. -/
theorem make_held {party : Party} {p : Profiler} (move : PartyMove)
    (before : party.cursors[k]? = some s) (after : (party.make p move).2.1.cursors[k]? = some s') :
    s.Held p.threshold s' := by
  have bound := (List.getElem?_eq_some_iff.mp before).1
  cases move with
  | newStack =>
    rw [Party.make, List.getElem?_append_left bound] at after
    exact held_self _ before after
  | onStack j op =>
    cases there : party.cursors[j]? with
    | none =>
      simp only [Party.make, there] at after
      exact held_self _ before after
    | some y =>
      rw [Party.make_onStack there] at after
      refine held_set (fun y' there' => ?_) before after
      obtain rfl := Option.some.inj (there.symm.trans there')
      exact (y.apply_moved p op).held
  | take j =>
    cases there : party.cursors[j]? with
    | none =>
      simp only [Party.make, there] at after
      exact held_self _ before after
    -- the recording goes on, on a new stack; the old one has none any more
    | some y =>
      simp only [Party.make, there] at after
      rw [List.getElem?_append_left (by simpa using bound)] at after
      refine held_set (fun y' there' => ?_) before after
      obtain rfl := Option.some.inj (there.symm.trans there')
      exact ⟨fun _ => rfl, fun _ active => absurd active (by simp [CallStack.take, CallStack.isActive])⟩
  | newTree | acquire => exact held_self _ before after
  | onTree j _ | recycle j =>
    unfold Party.make at after
    dsimp only at after
    split at after
    · exact held_self _ before after
    · exact held_self _ before after

/-- No event changes the threshold of a running recording, and one that begins on a stack of the service
has the threshold of the profiler. -/
theorem step_held (w : Service) (e : ServiceEvent) (before : w.stack? k = some s)
    (after : (w.step e).stack? k = some s') : s.Held w.monitor.profiler.threshold s' := by
  cases e with
  | reload config | clock step | addReporter reporter => exact held_self _ before after
  | move move => exact make_held move before after
  | begin j e =>
    unfold step at after
    dsimp only at after
    split at after
    · exact held_self _ before after
    · next y there =>
      refine held_set (fun y' there' => ?_) before after
      obtain rfl := Option.some.inj (there.symm.trans there')
      exact w.monitor.prepare_held y e
  | finish i j failure =>
    unfold step at after
    dsimp only at after
    split at after
    · next x y _ there =>
      refine held_set (fun y' there' => ?_) before after
      obtain rfl := Option.some.inj (there.symm.trans there')
      split
      · exact .refl y _
      · exact Monitor.finish_held _ y x.mode _ _
    · exact held_self _ before after

/-! ## Executions as events -/

/-- The beginning of an execution is what the monitor prepares for it. -/
theorem begin_prepares (there : w.stack? k = some s) (e : Execution) :
    let prepared := w.monitor.prepare s e
    let opened := w.step (.begin k e)
    opened.stack? k = some prepared.2.1 ∧ opened.monitor = prepared.2.2 ∧
    opened.running[w.running.length]? = some (some ⟨prepared.1, e, prepared.2.2.now⟩) := by
  intro prepared opened
  have eq : opened = { w.putStack k prepared.2.1 prepared.2.2 with
      running := w.running ++ [some ⟨prepared.1, e, prepared.2.2.now⟩] } := by
    simp only [opened, step, there, prepared]
  have bound := (List.getElem?_eq_some_iff.mp there).1
  rw [eq]
  exact ⟨List.getElem?_set_self bound, rfl, List.getElem?_concat_length⟩

/-- What ending an execution leaves. -/
theorem finish_concludes {i : Nat} {x : Begun} (running : w.running[i]? = some (some x))
    (there : w.stack? k = some s) (failure : Option String) :
    let concluded := if x.mode = .bare then (s, w.monitor)
      else w.monitor.conclude s x.mode x.execution x.started failure
    let ended := w.step (.finish i k failure)
    ended.stack? k = some concluded.1 ∧ ended.monitor = concluded.2 := by
  intro concluded ended
  have eq : ended = { w.putStack k concluded.1 concluded.2 with
      running := w.running.set i none } := by
    simp only [ended, step, running, there, concluded, Option.join_some]
  have bound := (List.getElem?_eq_some_iff.mp there).1
  rw [eq]
  exact ⟨List.getElem?_set_self bound, rfl⟩

/-- To run work under monitoring is to begin an execution, to let happen what the work does, and to
end the execution, provided that nobody else has ended it. -/
theorem execute_of_events {ε α : Type} (describe : ε → String) (e : Execution)
    (work : CallStack → Monitor → Outcome ε α × CallStack × Monitor) (events : List ServiceEvent)
    (outcome : Outcome ε α) {left : CallStack} (there : w.stack? k = some s) :
    let opened := w.step (.begin k e)
    let worked := opened.run events
    let i := w.running.length
    worked.running[i]? = opened.running[i]? → worked.stack? k = some left →
    (∀ x, opened.stack? k = some x → work x opened.monitor = (outcome, left, worked.monitor)) →
    let ended := worked.step (.finish i k (outcome.failure? describe))
    ∃ s', ended.stack? k = some s' ∧
      Monitor.execute describe e work s w.monitor = (outcome, s', ended.monitor) := by
  intro opened worked i running stack ran ended
  rcases begin_prepares there e with ⟨started, ready, begun⟩
  have worked' := ran _ started
  rw [show opened.monitor = _ from ready] at worked'
  rcases finish_concludes (running.trans begun) stack (outcome.failure? describe) with ⟨left', after⟩
  refine ⟨_, left', ?_⟩
  rw [show ended.monitor = _ from after]
  unfold Monitor.execute
  dsimp only
  split <;> rw [worked']

/-! ## Runs -/

theorem mem_history (w : Service) (events : List ServiceEvent) : w ∈ w.history events := by
  cases events <;> exact List.mem_cons_self ..

/-- A stack records if it is there and active. -/
theorem records_iff : w.records k = true ↔ ∃ s, w.stack? k = some s ∧ s.isActive = true := by
  simp [records, Option.any_eq_true]

/-- A stack that records all along keeps its threshold. -/
theorem run_minimum (events : List ServiceEvent) {w : Service} (before : w.stack? k = some s)
    (recording : ∀ v ∈ w.history events, v.records k = true)
    (after : (w.run events).stack? k = some s') : s'.minimum = s.minimum := by
  induction events generalizing w s with
  | nil => exact congrArg CallStack.minimum (Option.some.inj (after.symm.trans before))
  | cons e rest ih =>
    rcases records_iff.mp (recording w (List.mem_cons_self ..)) with ⟨y, there, active⟩
    obtain rfl := Option.some.inj (before.symm.trans there)
    -- the stack is there after the event as well, and the recording is the same one
    rcases records_iff.mp (recording (w.step e) (List.mem_cons_of_mem _ (mem_history _ rest))) with
      ⟨t, there', -⟩
    have later := ih there' (fun v hv => recording v (List.mem_cons_of_mem _ hv)) after
    exact later.trans ((w.step_held e before there').running active)

end Service

open Service in
/-- Along every run of a monitor that was built from one configuration, with valid and invalid new
configurations, executions that begin and end, operations on stacks, and movements of the clock:

* the shared configuration, the threshold of recordings to come and the limits belong to the
  configuration in force, which is the last valid one; the limits have been full when it was taken over;
* every new configuration is refused without any change, or taken over as a whole and without any other
  change;
* a recording keeps the threshold that was in force when it began, for as long as it runs. -/
theorem reloads_are_all_or_nothing {m : Monitor} {config : ProfilerConfig} {now : Reading}
    (built : m.BuiltFrom config now) (events : List ServiceEvent) :
    let start : Service := { monitor := m }
    let first := Regime.start config now
    (start.run events).InForce (first.run events) ∧
    ((first.run events).config = config ∨ ((first.run events).config.validate = .ok () ∧
      ServiceEvent.reload (first.run events).config ∈ events)) ∧
    (∀ next, (start.run events).monitor.Reloaded next ((start.run events).monitor.reload next)) ∧
    ∀ before e after k s s', events = before ++ e :: after →
      (start.run before).stack? k = some s → s.isActive = false →
      (∀ v ∈ ((start.run before).step e).history after, v.records k = true) →
      (start.run events).stack? k = some s' →
      s'.minimum = (first.run before).config.minExecutionTimeNanos := by
  intro start first
  have inForce := inForce_start built
  refine ⟨inForce.run events, first.run_config events, fun next => Monitor.reload_reloaded _ next, ?_⟩
  rintro before e after k s s' rfl there idle recording last
  rcases records_iff.mp (recording _ (mem_history _ after)) with ⟨t, opened, active⟩
  have split : start.run (before ++ e :: after) = ((start.run before).step e).run after := by
    simp [run]
  rw [split] at last
  -- the recording has begun in this event, and no later one changes its threshold
  have begun := ((start.run before).step_held e there opened).begun idle active
  exact (run_minimum after opened recording last).trans
    (begun.trans (inForce.run before).threshold)

/-- A configuration under which everything is recorded. -/
def recordingConfig : ProfilerConfig := { minExecutionTimeNanos := 7, groupInterval := some 1 }

/-- A new configuration comes while an execution runs. -/
def reloadAtWork (next : ProfilerConfig) : List ServiceEvent :=
  [.move .newStack, .begin 0 { name := "load" }, .reload next, .clock (.advance 5)]

/-- A configuration that is taken over while a recording runs does not change its threshold. -/
theorem reload_spares_recording :
    let start : Service := { monitor := .start recordingConfig .inMemory 0 }
    let events := reloadAtWork { minExecutionTimeNanos := 9 }
    (start.run events).InForce ((Regime.start recordingConfig 0).run events) ∧
    ∃ s, (start.run events).stack? 0 = some s ∧ s.isActive = true ∧ s.minimum = 7 := by
  intro start events
  have built := Monitor.builtFrom_start recordingConfig .inMemory 0
  rcases reloads_are_all_or_nothing built events with ⟨inForce, -, -, kept⟩
  have recording : ∀ v ∈ ((start.run [.move .newStack]).step (.begin 0 { name := "load" })).history
      [.reload { minExecutionTimeNanos := 9 }, .clock (.advance 5)], v.records 0 = true := by
    intro v hv
    simp only [Service.history, states, List.mem_cons, List.not_mem_nil, or_false] at hv
    rcases hv with rfl | rfl | rfl <;> rfl
  have stays := kept [.move .newStack] (.begin 0 { name := "load" })
    [.reload { minExecutionTimeNanos := 9 }, .clock (.advance 5)] 0
  have final := recording (start.run events)
    (by simp [Service.history, states, events, reloadAtWork, Service.run])
  rcases Service.records_iff.mp final with ⟨s', last, active⟩
  exact ⟨inForce, s', last, active, stays _ s' rfl rfl rfl recording last⟩

end CallProfiler
