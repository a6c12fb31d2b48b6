import CallProfiler.Proofs.Monitor.Tally
import Mathlib.Algebra.Order.BigOperators.Group.List

/-!
# Proofs.Monitor.Summaries: what metrics say of the updates, in any order

Metrics are made of updates one by one: the first update of a name puts a timer or a counter in place,
and each later one changes what is there. What comes of it can be said of all the updates of a name at
once (`TimerStats.Summarizes`), in exact numbers and without the order in which they were made.

* `TimerStats.summarizes_of_adding` — a timer is a summary of the times that were added to it
* `TimerStats.Summarizes.toNat_mean` — the mean of a total that was not cut
* `Metrics.eq_of_perm` — the same updates in any order make the same metrics
* `metrics_summarize_updates` — all timers, all counters, and that their order does not matter
-/

namespace CallProfiler

/-! ## Maps -/

namespace NameMap

variable {α : Type} {entries entries' : List (String × α)} {name : String} {value : α}

/-- Among ordered entries the value of a name is that of its entry. -/
theorem mem_iff_lookup (ordered : (entries.map (·.1)).Pairwise (· < ·)) :
    (name, value) ∈ entries ↔ lookup name entries = some value := by
  induction entries with
  | nil => simp [lookup]
  | cons entry rest ih =>
    rw [List.map_cons, List.pairwise_cons] at ordered
    rw [List.mem_cons, ih ordered.2, lookup]
    by_cases own : entry.1 = name
    · -- the names of the rest are greater
      have absent : lookup name rest = none := lookup_eq_none_of_lt (own ▸ ordered.1)
      rw [if_pos own, absent, Option.some_inj]
      constructor
      · rintro (here | there)
        · rw [← here]
        · cases there
      · intro same
        exact Or.inl (Prod.ext own.symm same.symm)
    · rw [if_neg own, or_iff_right]
      intro here
      exact own (congrArg Prod.fst here).symm

/-- The names among ordered entries are those that have a value. -/
theorem mem_names_iff (ordered : (entries.map (·.1)).Pairwise (· < ·)) :
    name ∈ entries.map (·.1) ↔ (lookup name entries).isSome := by
  simp only [List.mem_map, Option.isSome_iff_exists, ← mem_iff_lookup ordered]
  constructor
  · rintro ⟨entry, mem, rfl⟩
    exact ⟨entry.2, mem⟩
  · rintro ⟨value, mem⟩
    exact ⟨(name, value), mem, rfl⟩

/-- Ordered entries with the same values are the same. -/
theorem eq_of_lookup (ordered : (entries.map (·.1)).Pairwise (· < ·))
    (ordered' : (entries'.map (·.1)).Pairwise (· < ·))
    (same : ∀ name, lookup name entries = lookup name entries') : entries = entries' := by
  have above := List.pairwise_map.mp ordered
  have above' := List.pairwise_map.mp ordered'
  have distinct {a b : String × α} (lt : a.1 < b.1) : a ≠ b := by
    rintro rfl
    exact String.lt_irrefl _ lt
  refine List.Perm.eq_of_pairwise ?_ above above' ?_
  · intro a b _ _ lt gt
    exact absurd (String.lt_trans lt gt) (String.lt_irrefl _)
  · rw [List.perm_ext_iff_of_nodup (above.imp distinct) (above'.imp distinct)]
    intro entry
    rw [← Prod.mk.eta (p := entry), mem_iff_lookup ordered, mem_iff_lookup ordered', same]

end NameMap

/-! ## Timers -/

/-- The times that updates add to the timer of a name: exact numbers of nanoseconds, each cut at the
greatest 64-bit number. -/
def MetricsUpdate.times (name : String) (made : List MetricsUpdate) : List Nat :=
  made.filterMap fun
    | .timer key elapsed => if key = name then some (min elapsed.nanos (2 ^ 64 - 1)) else none
    | .error _ => none

/-- The statistics are those of some times, in exact numbers. Only the total is cut. -/
structure TimerStats.Summarizes (stats : TimerStats) (times : List Nat) : Prop where
  count : stats.count.toNat = times.length
  total : stats.total.toNat = min times.sum (2 ^ 64 - 1)
  fastest : times.min? = some stats.fastest.toNat
  slowest : times.max? = some stats.slowest.toNat

/-- The times under a name, in the order of the updates. -/
theorem MetricsUpdate.times_eq (name : String) (made : List MetricsUpdate) :
    times name made = (made.filterMap (·.timed? name)).map (·.toNat) := by
  rw [List.map_filterMap]
  refine List.filterMap_congr fun update _ => ?_
  cases update with
  | error key => rfl
  | timer key elapsed =>
    by_cases own : key = name <;> simp [timed?, own, Duration.toNat_capped]

namespace TimerStats

variable {stats : TimerStats} {times : List Nat} {durations : List UInt64}

/-- Each field of a timer is folded on its own. -/
theorem foldl_adding (stats : TimerStats) (durations : List UInt64) :
    durations.foldl adding (some stats) = some {
      count := stats.count + UInt64.ofNat durations.length
      total := durations.foldl saturatingAdd stats.total
      fastest := durations.foldl min stats.fastest
      slowest := durations.foldl max stats.slowest } := by
  induction durations generalizing stats with
  | nil => simp
  | cons d rest ih =>
    have next : adding (some stats) d = some (stats.record d) := rfl
    have one : stats.count + 1 + UInt64.ofNat rest.length =
        stats.count + UInt64.ofNat (rest.length + 1) := by
      rw [UInt64.ofNat_add, UInt64.add_assoc, UInt64.add_comm 1]
      rfl
    simp only [List.foldl_cons, next, ih, record, List.length_cons, one]

/-- A timer is a summary of the durations that were added to it. -/
theorem summarizes_of_adding (added : durations.foldl adding none = some stats)
    (few : durations.length < 2 ^ 64) : stats.Summarizes (durations.map (·.toNat)) := by
  cases durations with
  | nil => exact nomatch added
  | cons d rest =>
    have first : adding none d = some (.first d) := rfl
    rw [List.foldl_cons, first, foldl_adding, Option.some_inj] at added
    subst added
    rw [List.length_cons] at few
    constructor
    · have one : (1 : UInt64).toNat = 1 := rfl
      rw [List.length_map, List.length_cons, UInt64.toNat_add, UInt64.toNat_ofNat', TimerStats.first,
        one]
      omega
    · rw [List.map_cons, List.sum_cons]
      exact toNat_foldl_saturatingAdd rest d
    · rw [List.map_cons, List.min?_cons', List.foldl_map]
      exact congrArg some (List.foldl_hom UInt64.toNat fun a b => (UInt64.toNat_min a b).symm)
    · rw [List.map_cons, List.max?_cons', List.foldl_map]
      exact congrArg some (List.foldl_hom UInt64.toNat fun a b => (UInt64.toNat_max a b).symm)

namespace Summarizes

/-- Nothing is summarized without a time. -/
theorem length_pos (h : stats.Summarizes times) : 0 < times.length := by
  have mem := (List.min?_eq_some_iff.mp h.fastest).1
  exact List.length_pos_of_mem mem

/-- The mean of times whose sum is not cut is that of exact numbers, rounded down. -/
theorem toNat_mean (h : stats.Summarizes times) (fits : times.sum < 2 ^ 64) :
    stats.mean.toNat = times.sum / times.length := by
  have counted : stats.count ≠ 0 := by
    intro zero
    have length := h.count
    rw [zero] at length
    exact absurd length h.length_pos.ne
  unfold mean
  rw [if_neg counted, UInt64.toNat_div, h.total, h.count, Nat.min_eq_left (by omega)]

/-- The mean is not below the least time, if the total is exact. -/
theorem fastest_le_mean (h : stats.Summarizes times) (fits : times.sum < 2 ^ 64) :
    stats.fastest ≤ stats.mean := by
  have least := (List.min?_eq_some_iff.mp h.fastest).2
  have sum := List.card_nsmul_le_sum times stats.fastest.toNat least
  rw [UInt64.le_iff_toNat_le, h.toNat_mean fits, Nat.le_div_iff_mul_le h.length_pos, Nat.mul_comm]
  exact sum

/-- The mean is not above the greatest time, if the total is exact. -/
theorem mean_le_slowest (h : stats.Summarizes times) (fits : times.sum < 2 ^ 64) :
    stats.mean ≤ stats.slowest := by
  have greatest := (List.max?_eq_some_iff.mp h.slowest).2
  have sum := List.sum_le_card_nsmul times stats.slowest.toNat greatest
  rw [UInt64.le_iff_toNat_le, h.toNat_mean fits]
  exact Nat.div_le_of_le_mul sum

end Summarizes

/-! ### The order of the durations -/

theorem first_record_comm (a b : UInt64) : (first a).record b = (first b).record a := by
  simp only [first, record, mk.injEq, ← UInt64.toNat_inj, toNat_saturatingAdd, UInt64.toNat_min,
    UInt64.toNat_max, true_and]
  exact ⟨by omega, Nat.min_comm .., Nat.max_comm ..⟩

/-- Two times can be recorded in either order. -/
theorem record_record_comm (stats : TimerStats) (a b : UInt64) :
    (stats.record a).record b = (stats.record b).record a := by
  simp only [record, mk.injEq, ← UInt64.toNat_inj, toNat_saturatingAdd, UInt64.toNat_min,
    UInt64.toNat_max, true_and]
  -- both totals are the exact one, cut once
  exact ⟨by omega, min_right_comm .., max_right_comm ..⟩

/-- Two durations come to the same in either order, also if the first of them starts the timer. -/
instance : RightCommutative adding where
  right_comm timer a b := by
    cases timer with
    | none => exact congrArg some (first_record_comm a b)
    | some stats => exact congrArg some (record_record_comm stats a b)

end TimerStats

/-! ## Metrics -/

namespace MetricsUpdate

variable {made made' : List MetricsUpdate} {name : String}

/-- The updates that add to an error counter are all the same. -/
theorem countP_counts (name : String) (made : List MetricsUpdate) :
    made.countP (·.counts name) = made.count (.error name) := by
  refine List.countP_congr fun update _ => ?_
  cases update with
  | timer key elapsed => simp [counts]
  | error key => simp [counts]

/-- A name has durations just if a timer of it was updated. -/
theorem timed_ne_nil_iff :
    made.filterMap (·.timed? name) ≠ [] ↔ ∃ elapsed, .timer name elapsed ∈ made := by
  constructor
  · intro timed
    obtain ⟨d, mem⟩ := List.exists_mem_of_ne_nil _ timed
    obtain ⟨update, made, said⟩ := List.mem_filterMap.mp mem
    cases update with
    | error key => exact nomatch said
    | timer key elapsed =>
      by_cases own : key = name
      · exact ⟨elapsed, own ▸ made⟩
      · simp [timed?, own] at said
  · rintro ⟨elapsed, made⟩
    have said : timed? name (.timer name elapsed) = some elapsed.capped := if_pos rfl
    exact List.ne_nil_of_mem (List.mem_filterMap.mpr ⟨_, made, said⟩)

end MetricsUpdate

/-- A timer is there once a time was recorded. -/
theorem TimerStats.isSome_adding (durations : List UInt64) :
    (durations.foldl adding none).isSome ↔ durations ≠ [] := by
  cases durations with
  | nil => simp
  | cons d rest =>
    have first : adding none d = some (.first d) := rfl
    simp [first, foldl_adding]

namespace Metrics

variable {m m' : Metrics} {made made' : List MetricsUpdate} {name : String}

/-- Metrics are known by their timers and counters. -/
theorem eq_of_values (ordered : m.Ordered) (ordered' : m'.Ordered)
    (timers : ∀ name, m.timer? name = m'.timer? name)
    (errors : ∀ name, m.errors.get? name = m'.errors.get? name) : m = m' := by
  have sameTimers := NameMap.eq_of_lookup ordered.timers ordered'.timers timers
  have sameErrors := NameMap.eq_of_lookup ordered.errors ordered'.errors errors
  clear timers errors ordered ordered'
  obtain ⟨⟨timers⟩, ⟨errors⟩⟩ := m
  obtain ⟨⟨timers'⟩, ⟨errors'⟩⟩ := m'
  obtain rfl : timers = timers' := sameTimers
  obtain rfl : errors = errors' := sameErrors
  rfl

/-- The same updates come to the same metrics in any order. -/
theorem eq_of_perm (ordered : m.Ordered) (perm : made'.Perm made) :
    made'.foldl apply m = made.foldl apply m := by
  refine eq_of_values (ordered.tally made') (ordered.tally made) ?_ ?_
  · intro name
    rw [timer?_tally ordered, timer?_tally ordered]
    exact (perm.filterMap _).foldl_eq _
  · intro name
    rw [error?_tally ordered, error?_tally ordered, perm.countP_eq]

/-- Exactly the names whose timers were updated have a timer. -/
theorem mem_timers_iff :
    name ∈ (made.foldl apply .empty).timers.names ↔ ∃ elapsed, .timer name elapsed ∈ made := by
  have ordered := ordered_tally made
  rw [NameMap.names, NameMap.mem_names_iff ordered.timers]
  show ((made.foldl apply .empty).timer? name).isSome = true ↔ _
  rw [timer?_tally ordered_empty, ← MetricsUpdate.timed_ne_nil_iff]
  exact TimerStats.isSome_adding _

/-- Exactly the names whose failures were counted have a counter. -/
theorem mem_errors_iff :
    name ∈ (made.foldl apply .empty).errors.names ↔ .error name ∈ made := by
  have ordered := ordered_tally made
  rw [NameMap.names, NameMap.mem_names_iff ordered.errors]
  show ((made.foldl apply .empty).errors.get? name).isSome = true ↔ _
  rw [error?_tally ordered_empty, MetricsUpdate.countP_counts]
  split
  · next unfailed => exact iff_of_false Bool.false_ne_true (List.count_eq_zero.mp unfailed)
  · next failed => exact iff_of_true rfl (List.count_pos_iff.mp (Nat.pos_of_ne_zero failed))

end Metrics

/-- Metrics in memory are a sum of the updates that does not depend on their order. From empty metrics,
exactly the names of updated timers have a timer and exactly the names of counted failures have a
counter, each of them once. A timer summarizes the times of its updates, and its mean lies between the
fastest and the slowest of them as long as the total is not cut; a counter says how many failures there
were. And the same updates in any other order come to the same metrics. -/
theorem metrics_summarize_updates (made : List MetricsUpdate) :
    let m := made.foldl Metrics.apply .empty
    m.Ordered ∧
    (∀ name, name ∈ m.timers.names ↔ ∃ elapsed, .timer name elapsed ∈ made) ∧
    (∀ name, name ∈ m.errors.names ↔ .error name ∈ made) ∧
    (∀ name stats, (name, stats) ∈ m.timers.entries →
      let times := MetricsUpdate.times name made
      times.length < 2 ^ 64 → stats.Summarizes times ∧
        (times.sum < 2 ^ 64 → stats.mean.toNat = times.sum / times.length ∧
          stats.fastest ≤ stats.mean ∧ stats.mean ≤ stats.slowest)) ∧
    (∀ name count, (name, count) ∈ m.errors.entries →
      made.count (.error name) < 2 ^ 64 → count.toNat = made.count (.error name)) ∧
    ∀ made' : List MetricsUpdate, made'.Perm made → made'.foldl Metrics.apply .empty = m := by
  intro m
  have ordered := Metrics.ordered_tally made
  refine ⟨ordered, fun _ => Metrics.mem_timers_iff, fun _ => Metrics.mem_errors_iff, ?_, ?_, ?_⟩
  · intro name stats mem times few
    have added := (Metrics.timer?_tally Metrics.ordered_empty made name).symm.trans
      ((NameMap.mem_iff_lookup ordered.timers).mp mem)
    have same : times = (made.filterMap (·.timed? name)).map (·.toNat) := MetricsUpdate.times_eq ..
    rw [same, List.length_map] at few
    have summarizes : stats.Summarizes times := same ▸ TimerStats.summarizes_of_adding added few
    exact ⟨summarizes, fun fits => ⟨summarizes.toNat_mean fits, summarizes.fastest_le_mean fits,
      summarizes.mean_le_slowest fits⟩⟩
  · intro name count mem few
    have counted := (Metrics.error?_tally Metrics.ordered_empty made name).symm.trans
      ((NameMap.mem_iff_lookup ordered.errors).mp mem)
    rw [MetricsUpdate.countP_counts] at counted
    split at counted
    · exact nomatch counted
    · obtain rfl := Option.some.inj counted
      exact (congrArg UInt64.toNat (UInt64.zero_add _)).trans (UInt64.toNat_ofNat_of_lt' few)
  · intro made' perm
    exact Metrics.eq_of_perm Metrics.ordered_empty perm

/-- Two timers, the total of one of them cut, and a counter. -/
def mixedUpdates : List MetricsUpdate :=
  [.timer "load" ⟨7⟩, .error "save", .timer "save" ⟨2 ^ 64⟩, .timer "load" ⟨4⟩, .timer "save" ⟨1⟩,
    .error "save"]

/-- Seven units and four under one name, and two errors under another. -/
theorem mixed_updates_summarized :
    let m := mixedUpdates.foldl Metrics.apply .empty
    let load : TimerStats := ⟨2, 11, 4, 7⟩
    ("load", load) ∈ m.timers.entries ∧ ("save", 2) ∈ m.errors.entries ∧
    (MetricsUpdate.times "load" mixedUpdates).length < 2 ^ 64 ∧
    (MetricsUpdate.times "load" mixedUpdates).sum < 2 ^ 64 ∧
    mixedUpdates.count (.error "save") < 2 ^ 64 ∧ mixedUpdates.reverse.Perm mixedUpdates ∧
    load.Summarizes [7, 4] ∧ load.fastest ≤ load.mean ∧ load.mean ≤ load.slowest ∧
    (2 : UInt64).toNat = mixedUpdates.count (.error "save") ∧
    mixedUpdates.reverse.foldl Metrics.apply .empty = m := by
  intro m load
  obtain ⟨_, _, _, timers, errors, anyOrder⟩ := metrics_summarize_updates mixedUpdates
  have timed : ("load", load) ∈ m.timers.entries := by decide
  have failed : ("save", 2) ∈ m.errors.entries := by decide
  have few : (MetricsUpdate.times "load" mixedUpdates).length < 2 ^ 64 := by decide
  have fits : (MetricsUpdate.times "load" mixedUpdates).sum < 2 ^ 64 := by decide
  have fewErrors : mixedUpdates.count (.error "save") < 2 ^ 64 := by decide
  have perm : mixedUpdates.reverse.Perm mixedUpdates := List.reverse_perm _
  obtain ⟨summary, mean⟩ := timers "load" load timed few
  obtain ⟨_, slower, faster⟩ := mean fits
  exact ⟨timed, failed, few, fits, fewErrors, perm, summary, slower, faster,
    errors "save" 2 failed fewErrors, anyOrder _ perm⟩

end CallProfiler
