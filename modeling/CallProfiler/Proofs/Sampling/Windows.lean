import CallProfiler.Proofs.Sampling.Gates
import CallProfiler.Proofs.Saturation

/-!
# Proofs.Sampling.Windows: when a warmup window ends

A window is open until a check is due: more than a number of checks have been made, and the deadline has
come. Then it is closed for good. Both are kept in 64 bits. The number of checks is counted modulo
`2 ^ 64`, and the deadline is computed from a period that is cut to its lowest 64 bits, by a sum that
stops at the last reading (`Warmup.toNat_deadline`).

* `Warmup.answers_iff` — a check is answered with yes just if it or an earlier one was due
* `Warmup.seen_after` — the checks that are counted are those up to the first that is due
* `warmup_windows` — what this makes of every run of checks, and that the window lasts for its whole
  period just if the end of the period is a reading of the clock
-/

namespace CallProfiler

namespace Warmup

variable {w : Warmup} {k : Nat}

/-- The answers to checks at some readings, one after the other. -/
def answers (w : Warmup) : List Reading → List Bool
  | [] => []
  | now :: rest => (w.check now).1 :: (w.check now).2.answers rest

/-- The window after checks at some readings. -/
def after (w : Warmup) (rs : List Reading) : Warmup := rs.foldl (fun w now => (w.check now).2) w

/-- Whether a check that is the `k`-th one is due. The window counts checks modulo `2 ^ 64`. -/
def Due (w : Warmup) (k : Nat) (now : Reading) : Prop :=
  w.requests.toNat < k % 2 ^ 64 ∧ w.deadline.toNat ≤ now.toNat

instance (w : Warmup) (k : Nat) (now : Reading) : Decidable (w.Due k now) :=
  inferInstanceAs (Decidable (_ ∧ _))

/-- A run of checks in which a window stays open for a number of checks and up to a time that need not
be a reading: a check is answered with yes just if both have passed, and the checks are counted up to
the first one for which they have. -/
structure LastsUntil (w : Warmup) (requests ends : Nat) (rs : List Reading) : Prop where
  answers : w.answers rs = rs.mapIdx fun i now => decide (requests < i + 1 ∧ ends ≤ now.toNat)
  seen : (w.after rs).seen.toNat = min rs.length ((w.answers rs).idxOf true + 1)

/-! ## One check -/

/-- A window that has ended stays so. -/
theorem check_ended (ended : w.ended = true) (now : Reading) : w.check now = (true, w) := by
  unfold check
  rw [if_pos ended]

/-- A check of an open window is counted, and the window ends just if the check is due. -/
theorem check_open (opened : w.ended = false) (count : w.seen = UInt64.ofNat k) (now : Reading) :
    w.check now = (decide (w.Due (k + 1) now),
      { w with seen := UInt64.ofNat (k + 1), ended := decide (w.Due (k + 1) now) }) := by
  have counted : w.seen + 1 = UInt64.ofNat (k + 1) := by rw [count, UInt64.ofNat_add]; rfl
  have due : (decide (w.requests < UInt64.ofNat (k + 1)) && decide (w.deadline ≤ now)) =
      decide (w.Due (k + 1) now) := by
    rw [Bool.eq_iff_iff, Bool.and_eq_true, decide_eq_true_iff, decide_eq_true_iff,
      decide_eq_true_iff, Due, UInt64.lt_iff_toNat_lt, UInt64.le_iff_toNat_le, UInt64.toNat_ofNat']
  unfold check
  rw [if_neg (by simp [opened])]
  simp only [counted, due]

/-! ## Runs of checks -/

@[simp] theorem length_answers (w : Warmup) (rs : List Reading) :
    (w.answers rs).length = rs.length := by
  induction rs generalizing w with
  | nil => rfl
  | cons now rest ih => simp only [answers, List.length_cons, ih]

/-- A window that has ended answers every check with yes and counts none. -/
theorem run_ended (ended : w.ended = true) (rs : List Reading) :
    w.answers rs = List.replicate rs.length true ∧ w.after rs = w := by
  induction rs with
  | nil => exact ⟨rfl, rfl⟩
  | cons now rest ih =>
    unfold answers
    rw [check_ended ended, ih.1]
    refine ⟨rfl, ?_⟩
    show (w.check now).2.after rest = w
    rw [check_ended ended]
    exact ih.2

/-- A check is answered with yes if and only if one up to it was due. -/
theorem answers_iff (opened : w.ended = false) (count : w.seen = UInt64.ofNat k) (rs : List Reading)
    (i : Nat) : (w.answers rs)[i]? = some true ↔
      i < rs.length ∧ ∃ j ≤ i, ∃ now, rs[j]? = some now ∧ w.Due (k + j + 1) now := by
  induction rs generalizing w k i with
  | nil => simp [answers]
  | cons now rest ih =>
    unfold answers
    rw [check_open opened count]
    by_cases due : w.Due (k + 1) now
    · -- the window ends here, and all later checks are answered with yes
      rw [decide_eq_true due]
      dsimp only
      rw [(run_ended rfl rest).1, ← List.replicate_succ, List.getElem?_replicate]
      constructor
      · intro answered
        have bound : i < rest.length + 1 := by
          by_contra beyond
          simp [beyond] at answered
        exact ⟨bound, 0, Nat.zero_le i, now, rfl, due⟩
      · intro ⟨bound, _⟩
        exact if_pos bound
    · rw [decide_eq_false due]
      have next := fun i => ih (w := { w with seen := UInt64.ofNat (k + 1), ended := false }) rfl rfl i
      -- the first check is not due, so one that is comes among the rest
      cases i with
      | zero =>
        refine iff_of_false (by simp) ?_
        rintro ⟨_, j, first, now', at', due'⟩
        obtain rfl := Nat.le_zero.mp first
        obtain rfl := Option.some.inj at'
        exact due due'
      | succ i =>
        rw [List.getElem?_cons_succ, next i, List.length_cons]
        have shift : ∀ j, k + (j + 1) + 1 = k + 1 + j + 1 := fun j => by omega
        constructor
        · rintro ⟨bound, j, le, now', at', due'⟩
          exact ⟨by omega, j + 1, by omega, now', at', (shift j).symm ▸ due'⟩
        · rintro ⟨bound, j, le, now', at', due'⟩
          cases j with
          | zero =>
            obtain rfl := Option.some.inj at'
            exact absurd due' due
          | succ j => exact ⟨by omega, j, by omega, now', at', shift j ▸ due'⟩

/-- A window counts the checks up to the one that ends it. -/
theorem seen_after (opened : w.ended = false) (count : w.seen = UInt64.ofNat k)
    (rs : List Reading) : (w.after rs).seen =
      UInt64.ofNat (k + min rs.length ((w.answers rs).idxOf true + 1)) := by
  induction rs generalizing w k with
  | nil => simpa [after] using count
  | cons now rest ih =>
    show ((w.check now).2.after rest).seen = _
    unfold answers
    rw [check_open opened count, List.length_cons]
    by_cases due : w.Due (k + 1) now
    · rw [decide_eq_true due]
      dsimp only
      rw [(run_ended rfl rest).2, List.idxOf_cons_self]
      have counted : k + 1 = k + min (rest.length + 1) (0 + 1) := by omega
      exact congrArg UInt64.ofNat counted
    · rw [decide_eq_false due]
      dsimp only
      have different : (false == true) = false := rfl
      rw [ih rfl rfl, List.idxOf_cons, different, cond_false]
      congr 1
      omega

/-! ## The window from its start -/

/-- The period is cut to its lowest 64 bits, and the deadline to the last reading. -/
theorem toNat_deadline (requests : UInt64) (period : Duration) (started : Reading) :
    (start requests period started).deadline.toNat =
      min (started.toNat + period.nanos % 2 ^ 64) (2 ^ 64 - 1) := by
  show (saturatingAdd started period.wrapped).toNat = _
  rw [toNat_saturatingAdd, Duration.wrapped, UInt64.toNat_ofNat']

/-- A check stays due where a later one is made in its place. -/
theorem Due.later {rs : List Reading} (sorted : rs.Pairwise (· ≤ ·)) {i j : Nat} {now now' : Reading}
    (due : w.Due (j + 1) now) (atj : rs[j]? = some now) (ati : rs[i]? = some now') (le : j ≤ i)
    (few : i + 1 < 2 ^ 64) : w.Due (i + 1) now' := by
  have order : now.toNat ≤ now'.toNat := by
    rcases Nat.lt_or_eq_of_le le with before | rfl
    · rcases List.getElem?_eq_some_iff.mp atj with ⟨boundj, rfl⟩
      rcases List.getElem?_eq_some_iff.mp ati with ⟨boundi, rfl⟩
      exact UInt64.le_iff_toNat_le.mp (List.pairwise_iff_getElem.mp sorted j i boundj boundi before)
    · obtain rfl := Option.some.inj (atj.symm.trans ati)
      exact Nat.le_refl _
  unfold Due at due ⊢
  rw [Nat.mod_eq_of_lt (by omega)] at due ⊢
  omega

/-- While the checks can be counted and the clock does not go back, a check is answered with yes just if
it is due itself. -/
theorem lastsUntil_deadline (opened : w.ended = false) (fresh : w.seen = 0) {rs : List Reading}
    (sorted : rs.Pairwise (· ≤ ·)) (few : rs.length < 2 ^ 64) :
    w.LastsUntil w.requests.toNat w.deadline.toNat rs where
  answers := by
    apply List.ext_getElem?
    intro i
    rw [List.getElem?_mapIdx]
    cases ati : rs[i]? with
    | none =>
      have beyond := List.getElem?_eq_none_iff.mp ati
      rw [List.getElem?_eq_none_iff.mpr (by rwa [length_answers]), Option.map_none]
    | some now =>
      have bound := (List.getElem?_eq_some_iff.mp ati).1
      have here : i < (w.answers rs).length := by rwa [length_answers]
      have yes : (w.answers rs)[i] = true ↔ w.Due (i + 1) now := by
        have said := answers_iff (k := 0) opened fresh rs i
        rw [List.getElem?_eq_getElem here, Option.some_inj] at said
        rw [said]
        constructor
        · rintro ⟨_, j, le, now', atj, due⟩
          rw [Nat.zero_add] at due
          exact due.later sorted atj ati le (by omega)
        · intro due
          exact ⟨bound, i, Nat.le_refl i, now, ati, (Nat.zero_add i).symm ▸ due⟩
      rw [List.getElem?_eq_getElem here, Option.map_some, Option.some_inj, Bool.eq_iff_iff, yes,
        decide_eq_true_iff, Due, Nat.mod_eq_of_lt (by omega)]
  seen := by
    rw [seen_after (k := 0) opened fresh rs, UInt64.toNat_ofNat', Nat.zero_add,
      Nat.mod_eq_of_lt (by omega)]

/-- A window lasts for its whole period in every run of checks that can be counted just if the end of
the period is a reading of the clock. A window that no countable check can end is no exception to this
in any run. -/
theorem lastsUntil_end_iff (requests : UInt64) (period : Duration) (started : Reading) :
    (∀ rs : List Reading, rs.Pairwise (· ≤ ·) → rs.length < 2 ^ 64 →
      (start requests period started).LastsUntil requests.toNat
        (started.toNat + period.nanos) rs) ↔
      started.toNat + period.nanos < 2 ^ 64 ∨ requests.toNat = 2 ^ 64 - 1 := by
  have deadline := toNat_deadline requests period started
  have bound := requests.toNat_lt
  constructor
  · intro lasts
    by_contra unfit
    -- the window does not survive the least number of checks, all of them made at the last reading
    let last : Reading := UInt64.ofNat (2 ^ 64 - 1)
    have lastReading : last.toNat = 2 ^ 64 - 1 := rfl
    have sorted : (List.replicate (requests.toNat + 1) last).Pairwise (· ≤ ·) :=
      List.pairwise_replicate.mpr (Or.inr (UInt64.le_refl last))
    have few : (List.replicate (requests.toNat + 1) last).length < 2 ^ 64 := by
      rw [List.length_replicate]
      omega
    have promised := (lasts _ sorted few).answers
    have given := (lastsUntil_deadline (w := start requests period started) rfl rfl sorted few).answers
    have atLast := List.mapIdx_eq_mapIdx_iff.mp (promised.symm.trans given) requests.toNat
      (by rw [List.length_replicate]; omega)
    have same : (start requests period started).requests = requests := rfl
    rw [List.getElem_replicate, deadline, lastReading, same, decide_eq_decide] at atLast
    omega
  · intro fits rs sorted few
    have lasts := lastsUntil_deadline (w := start requests period started) rfl rfl sorted few
    refine ⟨lasts.answers.trans (List.mapIdx_eq_mapIdx_iff.mpr ?_), lasts.seen⟩
    intro i bound
    have same : requests.toNat < i + 1 → started.toNat + period.nanos < 2 ^ 64 := by
      rcases fits with fits | never
      · exact fun _ => fits
      · omega
    rw [deadline, decide_eq_decide]
    refine and_congr_right fun later => ?_
    have fits := same later
    rw [Nat.mod_eq_of_lt (by omega), Nat.min_eq_left (by omega)]

end Warmup

/-! ## The window of a policy -/

/-- The readings at which a policy is asked whether its window is over. -/
def PolicyCall.warmReadings (calls : List (Reading × PolicyCall)) : List Reading :=
  calls.filterMap fun
    | (now, .warm) => some now
    | _ => none

namespace SamplingPolicy

/-- Other calls and new configurations leave the window alone. -/
theorem told_warmup (policy : SamplingPolicy) (calls : List (Reading × PolicyCall)) :
    policy.told .warmup calls = policy.warmup.answers (PolicyCall.warmReadings calls) := by
  induction calls generalizing policy with
  | nil => rfl
  | cons first rest ih =>
    rcases first with ⟨now, call⟩
    cases call with
    | warm =>
      show _ :: told _ _ rest = _ :: _
      rw [ih]
      rfl
    | reconfigure config =>
      show [] ++ told _ _ rest = _
      rw [ih]
      rfl
    | profile name =>
      have unheard : policy.hears .warmup (.profile name) = false := by
        unfold hears gateOf
        cases policy.limits.groupInterval <;> rfl
      unfold told
      rw [if_neg (by simp [unheard]), ih]
      exact congrArg (Warmup.answers · _) (warmup_shouldProfile policy now name)
    | report t =>
      show told _ (policy.shouldReport now t).2 rest = _
      rw [ih, warmup_shouldReport]
      rfl

end SamplingPolicy

/-- What comes of a warmup window, for any number of requests, any period and any start. Any run of
checks is answered with yes from the first check on that is due, and those up to it are counted. While
the checks can be counted and the clock does not go back, the window lasts for the number of requests
and the whole period just if the period ends at a reading of the clock, or if there are never checks
enough to end it. The window of a policy is that of its first configuration, whatever else it is asked. -/
theorem warmup_windows (requests : UInt64) (period : Duration) (started : Reading) :
    let w := Warmup.start requests period started
    w.deadline.toNat = min (started.toNat + period.nanos % 2 ^ 64) (2 ^ 64 - 1) ∧
    (∀ rs : List Reading,
      (∀ i, (w.answers rs)[i]? = some true ↔
        i < rs.length ∧ ∃ j ≤ i, ∃ now, rs[j]? = some now ∧ w.Due (j + 1) now) ∧
      (w.after rs).seen = UInt64.ofNat (min rs.length ((w.answers rs).idxOf true + 1))) ∧
    ((∀ rs : List Reading, rs.Pairwise (· ≤ ·) → rs.length < 2 ^ 64 →
        w.LastsUntil requests.toNat (started.toNat + period.nanos) rs) ↔
      started.toNat + period.nanos < 2 ^ 64 ∨ requests.toNat = 2 ^ 64 - 1) ∧
    ∀ (config : ProfilerConfig) (calls : List (Reading × PolicyCall)),
      (SamplingPolicy.start config started).told .warmup calls =
        (Warmup.start config.warmupRequests (.ofParts config.warmupSeconds 0) started).answers
          (PolicyCall.warmReadings calls) := by
  intro w
  refine ⟨Warmup.toNat_deadline requests period started, fun rs => ⟨fun i => ?_, ?_⟩,
    Warmup.lastsUntil_end_iff requests period started,
    fun config calls => SamplingPolicy.told_warmup (.start config started) calls⟩
  · simpa only [Nat.zero_add] using Warmup.answers_iff (w := w) (k := 0) rfl rfl rs i
  · simpa only [Nat.zero_add] using Warmup.seen_after (w := w) (k := 0) rfl rfl rs

theorem short_window_lasts :
    [5, 7, 10000000004, 10000000005, 10000000005].Pairwise (fun (a b : Reading) => a ≤ b) ∧
    (Warmup.start 2 (.ofParts 10 0) 5).LastsUntil 2 10000000005
      [5, 7, 10000000004, 10000000005, 10000000005] :=
  have sorted := by decide
  ⟨sorted, (warmup_windows 2 (.ofParts 10 0) 5).2.2.1.mpr (Or.inl (by decide)) _ sorted (by decide)⟩

/-- A period whose nanoseconds do not fit into 64 bits is cut, and its window ends after a part of a
second. -/
theorem cut_window_ends_early :
    let w := Warmup.start 0 (.ofParts 18446744074 0) 0
    w.answers [290448384] = [true] ∧ 290448384 < (Duration.ofParts 18446744074 0).nanos := by
  decide

end CallProfiler
