import CallProfiler.Proofs.Monitor.Retelling
import CallProfiler.Proofs.Saturation

/-!
# Proofs.Monitor.Tally: metrics in memory are the sum of the updates

The sink that takes everything keeps no secret: what the metrics say is what the calls to the sink add
up to. `Monitor.Tallies` says so of a stretch of a run, and `order_tallies` that it holds around the
work of every execution.

The sums are written out in closed form for one name: `timerCount_tally` and `timerTotal_tally` for its
timer, `error?_tally` and `errorCount_tally` for its error counter.
-/

namespace CallProfiler

/-! ## Updates -/

/-- The update of a call to the sink. -/
def Call.update? : Call → Option MetricsUpdate
  | .update made => some made
  | _ => none

/-- The updates that were passed to the sink. -/
def Monitor.updates (m : Monitor) : List MetricsUpdate := m.calls.filterMap Call.update?

/-- The sink takes everything, and since `m` the metrics have followed the updates. -/
structure Monitor.Tallies (m m' : Monitor) : Prop where
  sink : m'.sink = m.sink
  metrics : m.sink = .inMemory → ∃ made, m'.updates = m.updates ++ made ∧
    m'.metrics = made.foldl Metrics.apply m.metrics

namespace Monitor

/-- What leaves sink, calls and metrics alone keeps the tally. -/
theorem Tallies.of_eq {m m' : Monitor} (sink : m'.sink = m.sink) (calls : m'.calls = m.calls)
    (metrics : m'.metrics = m.metrics) : m.Tallies m' :=
  ⟨sink, fun _ => ⟨[], by rw [updates, calls, List.append_nil]; rfl, metrics⟩⟩

/-- Entries that are no updates do not count. -/
theorem Tallies.enter (m : Monitor) (entry : Entry) (other : entry.isUpdate = false) :
    (m.Tallies (m.enter entry)) := by
  refine ⟨rfl, fun _ => ⟨[], ?_, rfl⟩⟩
  unfold updates
  rw [calls_enter, List.filterMap_append]
  cases entry with
  | update made reply => exact nomatch other
  | step | note | hook | gate | delivery => rfl

theorem Tallies.logged (m : Monitor) (level : LogLevel) (message : String) :
    m.Tallies (m.logged level message) := .enter m (.note _) rfl

/-- Tallies of two stretches are the tally of both. -/
theorem Tallies.trans {m m' m'' : Monitor} (h : m.Tallies m') (h' : m'.Tallies m'') :
    m.Tallies m'' := by
  refine ⟨h'.sink.trans h.sink, fun inMemory => ?_⟩
  obtain ⟨made, updates, metrics⟩ := h.metrics inMemory
  obtain ⟨made', updates', metrics'⟩ := h'.metrics (h.sink.trans inMemory)
  refine ⟨made ++ made', ?_, ?_⟩
  · rw [updates', updates, List.append_assoc]
  · rw [metrics', metrics, List.foldl_append]

/-- An update counts once, if the sink keeps metrics. -/
theorem Tallies.updateMetrics (m : Monitor) (update : MetricsUpdate) :
    m.Tallies (m.updateMetrics update).2 := by
  refine ⟨rfl, fun inMemory => ⟨[update], ?_, ?_⟩⟩
  · have calls := congrArg Outline.calls (outline_updateMetrics m update)
    exact (congrArg (List.filterMap Call.update?) calls).trans (List.filterMap_append ..)
  · unfold Monitor.updateMetrics
    rw [inMemory]
    rfl

/-- The metrics tally with the updates through all parts of an execution. -/
theorem order_tallies : LifecycleOrder Tallies where
  refl _ := .of_eq rfl rfl rfl
  trans := .trans
  withProfiler _ _ _ := .of_eq rfl rfl rfl
  withPolicy _ _ _ := .of_eq rfl rfl rfl
  enter := .enter
  updateMetrics := .updateMetrics

/-- A reload keeps the tally. -/
theorem reload_tallies (m : Monitor) (next : ProfilerConfig) : m.Tallies (m.reload next).2 := by
  have taken : m.Tallies (m.taking next) := .of_eq rfl rfl rfl
  rcases m.reload_cases next with refused | silent | ⟨message, announced⟩
  · rw [refused]
    exact .of_eq rfl rfl rfl
  · rw [silent]
    exact taken
  · rw [announced]
    exact taken.trans (.logged ..)

/-- They do through all steps between executions. -/
theorem moved_tallies (step : MonitorMove) (m : Monitor) :
    m.Tallies (step.apply m).2 := by
  cases step with
  | reload next =>
    rw [MonitorMove.apply_reload]
    exact m.reload_tallies next
  | countError name => exact .updateMetrics m _
  | _ => exact .of_eq rfl rfl rfl

/-- Two monitors that keep the same metrics in memory and have made the same calls. -/
structure SameTally (m m' : Monitor) : Prop where
  outline : m.outline = m'.outline
  left : m.sink = .inMemory
  right : m'.sink = .inMemory
  metrics : m.metrics = m'.metrics

/-- As long as the calls are the same, the metrics are. -/
theorem SameTally.tallied {m m' n n' : Monitor} (h : m.SameTally m') (outline : n.outline = n'.outline)
    (left : m.Tallies n) (right : m'.Tallies n') : n.SameTally n' := by
  obtain ⟨made, updates, metrics⟩ := left.metrics h.left
  obtain ⟨made', updates', metrics'⟩ := right.metrics h.right
  have before : m.updates = m'.updates :=
    congrArg (fun o : Outline => o.calls.filterMap Call.update?) h.outline
  have after : n.updates = n'.updates :=
    congrArg (fun o : Outline => o.calls.filterMap Call.update?) outline
  have same : made = made' := by
    rw [updates, updates', before] at after
    exact List.append_cancel_left after
  refine ⟨outline, left.sink.trans h.left, right.sink.trans h.right, ?_⟩
  rw [metrics, metrics', same, h.metrics]

/-- Programs keep metrics in memory equal. -/
theorem congruence_tally : MonitorCongruence SameTally where
  profiler h := profiler_of_outline h.outline
  withProfiler h p :=
    h.tallied (outline_withProfiler h.outline p) (.of_eq rfl rfl rfl) (.of_eq rfl rfl rfl)
  stepped label label' h named answer stack :=
    h.tallied (congruence_outline.stepped label label' h.outline named answer stack)
      (.enter _ _ rfl) (.enter _ _ rfl)
  unseen label h named answer stack :=
    h.tallied (congruence_outline.unseen label h.outline named answer stack)
      (.of_eq rfl rfl rfl) (.enter _ _ rfl)
  moved {m m'} h step label stack :=
    h.tallied (congruence_outline.moved h.outline step label stack)
      ((moved_tallies step m).trans (.enter _ _ rfl))
      ((moved_tallies step m').trans (.enter _ _ rfl))
  prepared {m m'} h stack e := by
    rcases congruence_outline.prepared h.outline stack e with ⟨mode, opened, outline⟩
    exact ⟨mode, opened,
      h.tallied outline (order_tallies.prepare m stack e) (order_tallies.prepare m' stack e)⟩
  concluded {m m'} h stack mode e started failure := by
    rcases congruence_outline.concluded h.outline stack mode e started failure with ⟨left, outline⟩
    exact ⟨left, h.tallied outline (order_tallies.conclude m stack mode e started failure)
      (order_tallies.conclude m' stack mode e started failure)⟩

end Monitor

/-! ## Sums -/

/-- The names of both maps are in order. -/
structure Metrics.Ordered (m : Metrics) : Prop where
  timers : (m.timers.entries.map (·.1)).Pairwise (· < ·)
  errors : (m.errors.entries.map (·.1)).Pairwise (· < ·)

/-- The duration that an update adds to the timer of a name. -/
def MetricsUpdate.timed? (name : String) : MetricsUpdate → Option UInt64
  | .timer key elapsed => if key = name then some elapsed.capped else none
  | .error _ => none

/-- Whether an update adds to the error counter of a name. -/
def MetricsUpdate.counts (name : String) : MetricsUpdate → Bool
  | .timer _ _ => false
  | .error key => key = name

namespace TimerStats

/-- A timer, if there is one yet, after a further duration. -/
def adding (timer : Option TimerStats) (nanos : UInt64) : Option TimerStats :=
  match timer with
  | some stats => some (stats.record nanos)
  | none => some (.first nanos)

/-- The number of durations in a timer, if there is one. -/
def countOf (timer : Option TimerStats) : UInt64 := (timer.map TimerStats.count).getD 0

/-- The sum of the durations in a timer, if there is one. -/
def totalOf (timer : Option TimerStats) : UInt64 := (timer.map TimerStats.total).getD 0

/-- The count of a timer grows by the number of times. -/
theorem countOf_adding (durations : List UInt64) (timer : Option TimerStats) :
    countOf (durations.foldl adding timer) = countOf timer + UInt64.ofNat durations.length := by
  induction durations generalizing timer with
  | nil => exact (UInt64.add_zero _).symm
  | cons d rest ih =>
    have one : countOf (adding timer d) = countOf timer + 1 := by
      cases timer <;> rfl
    rw [List.foldl_cons, ih, one, List.length_cons, UInt64.ofNat_add, UInt64.add_assoc,
      UInt64.add_comm (UInt64.ofNat rest.length)]
    rfl

/-- The total of a timer grows by the times, and stops at the greatest reading. -/
theorem totalOf_adding (durations : List UInt64) (timer : Option TimerStats) :
    totalOf (durations.foldl adding timer) = durations.foldl saturatingAdd (totalOf timer) := by
  induction durations generalizing timer with
  | nil => rfl
  | cons d rest ih =>
    have one : totalOf (adding timer d) = saturatingAdd (totalOf timer) d := by
      cases timer with
      | some stats => rfl
      | none =>
        have bound := d.toNat_lt
        apply UInt64.toNat_inj.mp
        rw [toNat_saturatingAdd]
        show d.toNat = min (0 + d.toNat) _
        omega
    rw [List.foldl_cons, List.foldl_cons, ih, one]

end TimerStats

namespace Metrics

/-- The number of durations in the timer of a name. -/
def timerCount (m : Metrics) (name : String) : UInt64 := TimerStats.countOf (m.timer? name)

/-- The sum of the durations in the timer of a name. -/
def timerTotal (m : Metrics) (name : String) : UInt64 := TimerStats.totalOf (m.timer? name)

theorem ordered_empty : Ordered .empty := ⟨.nil, .nil⟩

variable {m : Metrics}

/-- An update keeps the names in order. -/
theorem Ordered.apply (ordered : m.Ordered) (update : MetricsUpdate) : (m.apply update).Ordered := by
  cases update with
  | timer key elapsed => exact ⟨NameMap.ordered_alterEntries _ _ ordered.timers, ordered.errors⟩
  | error key => exact ⟨ordered.timers, NameMap.ordered_alterEntries _ _ ordered.errors⟩

/-- So do many. -/
theorem Ordered.tally (ordered : m.Ordered) (made : List MetricsUpdate) :
    (made.foldl Metrics.apply m).Ordered := by
  induction made generalizing m with
  | nil => exact ordered
  | cons update rest ih => exact ih (ordered.apply update)

/-- Whatever updates have made of empty metrics is in order. -/
theorem ordered_tally (made : List MetricsUpdate) : (made.foldl apply .empty).Ordered :=
  ordered_empty.tally made

/-- An update is felt by the timer of its own name only. -/
theorem timer?_apply (ordered : m.Ordered) (update : MetricsUpdate) (name : String) :
    (m.apply update).timer? name =
      (update.timed? name).toList.foldl TimerStats.adding (m.timer? name) := by
  cases update with
  | error key => rfl
  | timer key elapsed =>
    show NameMap.lookup name (NameMap.alterEntries key _ m.timers.entries) =
      (if key = name then some elapsed.capped else none).toList.foldl TimerStats.adding
        (NameMap.lookup name m.timers.entries)
    rw [NameMap.lookup_alterEntries key name _ ordered.timers]
    by_cases own : key = name
    · rw [if_pos own.symm, if_pos own, own]
      cases NameMap.lookup name m.timers.entries <;> rfl
    · rw [if_neg (Ne.symm own), if_neg own]
      rfl

/-- The first failure of a name puts its counter in place. -/
theorem error?_apply (ordered : m.Ordered) (update : MetricsUpdate) (name : String) :
    (m.apply update).errors.get? name =
      if update.counts name then some (m.errorCount name + 1) else m.errors.get? name := by
  cases update with
  | timer key elapsed => rfl
  | error key =>
    show NameMap.lookup name (NameMap.alterEntries key _ m.errors.entries) =
      if decide (key = name) then _ else NameMap.lookup name m.errors.entries
    rw [NameMap.lookup_alterEntries key name _ ordered.errors]
    by_cases own : key = name
    · subst own
      rw [if_pos rfl, if_pos (by simp)]
      rfl
    · rw [if_neg (Ne.symm own), if_neg (by simp [own])]

/-- An error is counted under its own name only. -/
theorem errorCount_apply (ordered : m.Ordered) (update : MetricsUpdate) (name : String) :
    (m.apply update).errorCount name =
      m.errorCount name + if update.counts name then 1 else 0 := by
  show ((m.apply update).errors.get? name).getD 0 = _
  rw [error?_apply ordered]
  split
  · rfl
  · exact (UInt64.add_zero _).symm

/-- The timer of a name adds up the durations that are meant for it. -/
theorem timer?_tally (ordered : m.Ordered) (made : List MetricsUpdate) (name : String) :
    (made.foldl apply m).timer? name =
      (made.filterMap (·.timed? name)).foldl TimerStats.adding (m.timer? name) := by
  induction made generalizing m with
  | nil => rfl
  | cons update rest ih =>
    rw [List.foldl_cons, ih (ordered.apply update), timer?_apply ordered, ← List.foldl_append]
    congr 1
    cases h : update.timed? name <;> simp [h]

/-- The counter of a name is there as soon as there is a failure to count. -/
theorem error?_tally (ordered : m.Ordered) (made : List MetricsUpdate) (name : String) :
    (made.foldl apply m).errors.get? name =
      if made.countP (·.counts name) = 0 then m.errors.get? name
      else some (m.errorCount name + UInt64.ofNat (made.countP (·.counts name))) := by
  induction made generalizing m with
  | nil => rfl
  | cons update rest ih =>
    rw [List.foldl_cons, ih (ordered.apply update), error?_apply ordered, errorCount_apply ordered]
    by_cases counted : update.counts name = true
    · rw [List.countP_cons_of_pos counted, if_pos counted, if_pos counted,
        if_neg (Nat.succ_ne_zero _), UInt64.add_assoc, UInt64.ofNat_add,
        UInt64.add_comm (UInt64.ofNat _)]
      -- the rest may count no failure
      split
      · next last =>
        rw [last]
        rfl
      · rfl
    · rw [List.countP_cons_of_neg counted, if_neg counted, if_neg counted, UInt64.add_zero]

/-- The count of errors under a name, after any updates. -/
theorem errorCount_tally (ordered : m.Ordered) (made : List MetricsUpdate) (name : String) :
    (made.foldl apply m).errorCount name =
      m.errorCount name + UInt64.ofNat (made.countP (·.counts name)) := by
  show ((made.foldl apply m).errors.get? name).getD 0 = _
  rw [error?_tally ordered]
  split
  · next unfailed =>
    rw [unfailed]
    exact (UInt64.add_zero _).symm
  · rfl

/-- The count of times under a name, after any updates. -/
theorem timerCount_tally (ordered : m.Ordered) (made : List MetricsUpdate) (name : String) :
    (made.foldl apply m).timerCount name =
      m.timerCount name + UInt64.ofNat (made.filterMap (·.timed? name)).length := by
  unfold timerCount
  rw [timer?_tally ordered, TimerStats.countOf_adding]

/-- The total stops at the greatest number that it can show. -/
theorem timerTotal_tally (ordered : m.Ordered) (made : List MetricsUpdate) (name : String) :
    ((made.foldl apply m).timerTotal name).toNat =
      min ((m.timerTotal name).toNat + ((made.filterMap (·.timed? name)).map (·.toNat)).sum)
        (2 ^ 64 - 1) := by
  unfold timerTotal
  rw [timer?_tally ordered, TimerStats.totalOf_adding, toNat_foldl_saturatingAdd]

end Metrics

end CallProfiler
