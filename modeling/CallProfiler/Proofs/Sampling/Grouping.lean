import CallProfiler.Proofs.Sampling.Gates
import Mathlib.Data.Nat.Count

/-!
# Proofs.Sampling.Grouping: every so-manieth execution of a name

While executions are grouped, a policy counts those of each name, and records one just if the interval
divides the number of those that were counted before. The counts are kept when a new configuration
changes the interval, and nothing is counted while the interval is below two or executions are not
grouped. So the count of a name can be read off the calls alone, without the policy
(`PolicyCall.grouped`), as can the interval that is in force (`PolicyCall.intervalAfter`).

* `SamplingPolicy.run_grouped` — the interval and the counts of a policy after any run are these
* `SamplingPolicy.told_grouped` — the answers about a name while the interval stays
* `count_dvd_add` — a number divides exactly one of as many successive numbers
* `every_xth_execution` — which executions are recorded, and one in every so many
-/

namespace CallProfiler

/-- Of as many successive numbers as a positive number says, it divides exactly one. -/
theorem count_dvd_add {m : Nat} (positive : 0 < m) (k : Nat) :
    Nat.count (fun i => m ∣ k + i) m = 1 := by
  -- zero is the only multiple below `m`
  have least : Nat.count (m ∣ ·) m = 1 := by
    obtain ⟨n, rfl⟩ := Nat.exists_eq_add_one_of_ne_zero positive.ne'
    have others : Nat.count (fun i => n + 1 ∣ i + 1) n = 0 :=
      Nat.count_iff_forall_not.mpr fun i below divides =>
        absurd (Nat.le_of_dvd (Nat.succ_pos i) divides) (by omega)
    rw [Nat.count_succ', others, if_pos (Nat.dvd_zero _)]
  -- the multiples below `m + k` are cut at `m` and at `k`
  have shifted : Nat.count (fun i => m ∣ m + i) k = Nat.count (m ∣ ·) k := by
    simp only [Nat.dvd_add_right (Nat.dvd_refl m)]
  have cut := Nat.count_add (m ∣ ·) m k
  rw [Nat.add_comm m k, Nat.count_add, shifted, least] at cut
  omega

namespace PolicyCall

/-- The interval that is in force after a call. -/
def interval (now : Option Int64) : PolicyCall → Option Int64
  | .reconfigure config => config.groupInterval
  | .warm | .profile _ | .report _ => now

/-- Whether a call asks about an execution of a name. -/
def asks (name : String) : PolicyCall → Bool
  | .profile name' => name' == name
  | .warm | .report _ | .reconfigure _ => false

/-- The interval that is in force after a run of calls. -/
def intervalAfter (now : Option Int64) (calls : List (Reading × PolicyCall)) : Option Int64 :=
  calls.foldl (fun now call => call.2.interval now) now

/-- How many calls of a run ask about a name. -/
def asked (name : String) (calls : List (Reading × PolicyCall)) : Nat :=
  calls.countP fun call => call.2.asks name

/-- How many calls of a run ask about a name while an interval of at least two is in force. -/
def grouped (name : String) (now : Option Int64) : List (Reading × PolicyCall) → Nat
  | [] => 0
  | (_, call) :: rest =>
    (if call.asks name ∧ now.any (2 ≤ ·) then 1 else 0) + grouped name (call.interval now) rest

/-- A run of calls in which all new configurations have the interval `x`. -/
def KeepsInterval (x : Int64) (calls : List (Reading × PolicyCall)) : Prop :=
  ∀ call ∈ calls, call.2.interval (some x) = some x

end PolicyCall

namespace SamplingPolicy

variable {policy : SamplingPolicy} {x : Int64}

/-! ## One call -/

/-- An interval of more than one is one of at least two. -/
theorem one_lt_iff_two_le : 1 < x ↔ 2 ≤ x := by
  have one : (1 : Int64).toInt = 1 := rfl
  have two : (2 : Int64).toInt = 2 := rfl
  rw [Int64.lt_iff_toInt_lt, Int64.le_iff_toInt_le, one, two]
  omega

/-- Under an interval of at least two an execution is counted. -/
theorem shouldProfile_grouped (grouping : policy.limits.groupInterval = some x) (two : 2 ≤ x)
    (now : Reading) (name : String) :
    policy.shouldProfile now name = policy.countGrouped name x.toUInt64 := by
  have above := one_lt_iff_two_le.mpr two
  unfold shouldProfile
  rw [grouping]
  dsimp only
  rw [if_neg (Int64.ne_of_lt above).symm, if_neg (Int64.lt_asymm above)]

/-- Under any other interval, and while executions are not grouped, none is counted. -/
theorem countOf_shouldProfile_ungrouped (single : policy.limits.groupInterval.any (2 ≤ ·) = false)
    (now : Reading) (name other : String) :
    (policy.shouldProfile now name).2.countOf other = policy.countOf other := by
  unfold shouldProfile
  cases grouping : policy.limits.groupInterval with
  | none => rfl
  | some x =>
    have small : ¬ 1 < x := by simpa [grouping, one_lt_iff_two_le] using single
    dsimp only
    by_cases one : x = 1
    · rw [if_pos one]
    · have below : x < 1 := Int64.lt_of_le_of_ne (Int64.not_lt.mp small) one
      rw [if_neg one, if_pos below]

@[simp] theorem interval_step (policy : SamplingPolicy) (now : Reading) (call : PolicyCall) :
    (policy.step now call).2.limits.groupInterval = call.interval policy.limits.groupInterval := by
  cases call with
  | warm | reconfigure _ => rfl
  | profile name => exact interval_shouldProfile now name
  | report t => exact interval_shouldReport now t

@[simp] theorem countOf_shouldReport (policy : SamplingPolicy) (now : Reading) (t : OperationType)
    (name : String) : (policy.shouldReport now t).2.countOf name = policy.countOf name := by
  unfold shouldReport
  split <;> rfl

/-- A call counts the name that it asks about, if an interval of at least two is in force. -/
theorem countOf_step (ordered : policy.Ordered) (now : Reading) (call : PolicyCall) (name : String) :
    (policy.step now call).2.countOf name = policy.countOf name +
      if call.asks name ∧ policy.limits.groupInterval.any (2 ≤ ·) then 1 else 0 := by
  cases call with
  | warm | reconfigure _ =>
    rw [if_neg (fun asked => Bool.false_ne_true asked.1), UInt64.add_zero]
    rfl
  | report t =>
    rw [if_neg (fun asked => Bool.false_ne_true asked.1), UInt64.add_zero]
    exact countOf_shouldReport policy now t name
  | profile other =>
    show (policy.shouldProfile now other).2.countOf name = _
    cases grouping : policy.limits.groupInterval.any (2 ≤ ·) with
    | false =>
      rw [if_neg (fun asked => Bool.false_ne_true asked.2), UInt64.add_zero]
      exact countOf_shouldProfile_ungrouped grouping now other name
    | true =>
      obtain ⟨x, inForce, two⟩ := (Option.any_eq_true _ _).mp grouping
      rw [shouldProfile_grouped inForce (of_decide_eq_true two), countOf_countGrouped ordered]
      by_cases same : name = other
      · subst same
        rw [if_pos rfl, if_pos ⟨beq_self_eq_true name, rfl⟩]
      · have different : (other == name) = false := beq_eq_false_iff_ne.mpr (Ne.symm same)
        rw [if_neg same, if_neg (by simp [PolicyCall.asks, different]), UInt64.add_zero]

/-- What a count says about its next execution. -/
theorem counted_dvd (two : 2 ≤ x) {k : Nat} (few : k < 2 ^ 64) :
    (UInt64.ofNat k % x.toUInt64 == 0) = decide (x.toNatClampNeg ∣ k) := by
  have nonnegative : 0 ≤ x := Int64.le_trans (by decide) two
  rw [Bool.eq_iff_iff, beq_iff_eq, decide_eq_true_iff, ← UInt64.toNat_inj, UInt64.toNat_mod,
    UInt64.toNat_ofNat_of_lt' few, Int64.toNat_toUInt64_of_le nonnegative, Nat.dvd_iff_mod_eq_zero]
  rfl

/-- While executions are grouped, the gate of a name answers what is asked about the name. -/
theorem told_group_cons (grouping : policy.limits.groupInterval = some x) (two : 2 ≤ x) (now : Reading)
    (call : PolicyCall) (rest : List (Reading × PolicyCall)) (name : String) :
    policy.told (.group name) ((now, call) :: rest) =
      (if call.asks name then [policy.countOf name % x.toUInt64 == 0] else []) ++
        (policy.step now call).2.told (.group name) rest := by
  cases call with
  | warm | report _ | reconfigure _ => rfl
  | profile other =>
    have answer : (policy.step now (.profile other)).1 =
        some (policy.countOf other % x.toUInt64 == 0) :=
      congrArg (fun said : Bool × SamplingPolicy => some said.1)
        (shouldProfile_grouped grouping two now other)
    rw [told, answer, hears, gateOf, grouping]
    by_cases same : other = name <;> simp [PolicyCall.asks, same]

/-! ## Runs -/

/-- The interval and the counts of a policy after a run can be read off the calls. -/
theorem run_grouped (ordered : policy.Ordered) (calls : List (Reading × PolicyCall)) (name : String) :
    (policy.run calls).limits.groupInterval =
      PolicyCall.intervalAfter policy.limits.groupInterval calls ∧
    (policy.run calls).countOf name =
      policy.countOf name + UInt64.ofNat (PolicyCall.grouped name policy.limits.groupInterval calls) := by
  induction calls generalizing policy with
  | nil => exact ⟨rfl, (UInt64.add_zero _).symm⟩
  | cons first rest ih =>
    rcases first with ⟨now, call⟩
    obtain ⟨interval, count⟩ := ih (ordered.step now call)
    rw [interval_step] at interval count
    refine ⟨interval, count.trans ?_⟩
    rw [countOf_step ordered, UInt64.add_assoc, PolicyCall.grouped, UInt64.ofNat_add]
    split <;> rfl

/-- While the interval stays, the answers about a name are those to successive counts. -/
theorem told_grouped (ordered : policy.Ordered) (grouping : policy.limits.groupInterval = some x)
    (two : 2 ≤ x) {calls : List (Reading × PolicyCall)} (kept : PolicyCall.KeepsInterval x calls)
    {name : String} {k : Nat} (count : policy.countOf name = UInt64.ofNat k)
    (few : k + PolicyCall.asked name calls ≤ 2 ^ 64) :
    policy.told (.group name) calls =
      (List.range' k (PolicyCall.asked name calls)).map fun i => decide (x.toNatClampNeg ∣ i) := by
  induction calls generalizing policy k with
  | nil => rfl
  | cons first rest ih =>
    rcases first with ⟨now, call⟩
    obtain ⟨keeps, kept⟩ := List.forall_mem_cons.mp kept
    have grouping' : (policy.step now call).2.limits.groupInterval = some x := by
      rw [interval_step, grouping]
      exact keeps
    have count' := countOf_step ordered now call name
    rw [count, grouping, Option.any_some, decide_eq_true two] at count'
    rw [told_group_cons grouping two]
    cases asks : call.asks name with
    -- the call asks about something else, and the count of the name stays
    | false =>
      have unasked : PolicyCall.asked name ((now, call) :: rest) = PolicyCall.asked name rest :=
        List.countP_cons_of_neg (by simp [asks])
      rw [unasked] at few ⊢
      rw [asks, if_neg (fun asked => Bool.false_ne_true asked.1), UInt64.add_zero] at count'
      exact ih (ordered.step now call) grouping' kept count' few
    | true =>
      have asked : PolicyCall.asked name ((now, call) :: rest) = PolicyCall.asked name rest + 1 :=
        List.countP_cons_of_pos asks
      rw [asked] at few ⊢
      rw [asks, if_pos ⟨rfl, rfl⟩] at count'
      have later := ih (k := k + 1) (ordered.step now call) grouping' kept
        (count'.trans (UInt64.ofNat_add k 1).symm) (by omega)
      rw [later, count, counted_dvd two (by omega)]
      rfl

/-- Of as many answers as the interval says, all to successive counts, one is yes. -/
theorem count_yes (two : 2 ≤ x) (k : Nat) :
    ((List.range' k x.toNatClampNeg).map fun i => decide (x.toNatClampNeg ∣ i)).count true = 1 := by
  have positive : 0 < x.toNatClampNeg := by
    have above := Int64.lt_iff_toInt_lt.mp (one_lt_iff_two_le.mpr two)
    have one : (1 : Int64).toInt = 1 := rfl
    show 0 < x.toInt.toNat
    omega
  refine Eq.trans ?_ (count_dvd_add positive k)
  rw [List.range'_eq_map_range, List.map_map, List.count_eq_countP, List.countP_map, Nat.count]
  exact List.countP_congr fun i _ => by simp

end SamplingPolicy

/-- Every so-manieth execution of a name is recorded. In any run of calls that leads to an interval of at
least two, the next execution of a name is recorded just if the interval divides the number of those
asked about before while an interval of at least two was in force. And in any run that follows and keeps
the interval, the answers about the name are those to successive counts, one yes among as many answers
as the interval says. -/
theorem every_xth_execution (config : ProfilerConfig) (started : Reading)
    (before : List (Reading × PolicyCall)) (name : String) (x : Int64) (two : 2 ≤ x)
    (inForce : PolicyCall.intervalAfter config.groupInterval before = some x) :
    let policy := (SamplingPolicy.start config started).run before
    let count := PolicyCall.grouped name config.groupInterval before
    (count < 2 ^ 64 → ∀ now,
      ((policy.shouldProfile now name).1 = true ↔ x.toNatClampNeg ∣ count)) ∧
    ∀ during, PolicyCall.KeepsInterval x during → count + PolicyCall.asked name during ≤ 2 ^ 64 →
      policy.told (.group name) during =
        ((List.range' count (PolicyCall.asked name during)).map
          fun i => decide (x.toNatClampNeg ∣ i)) ∧
      (PolicyCall.asked name during = x.toNatClampNeg →
        (policy.told (.group name) during).count true = 1) := by
  intro policy count
  have ordered := SamplingPolicy.ordered_start config started
  obtain ⟨interval, counted⟩ := SamplingPolicy.run_grouped ordered before name
  have grouping : policy.limits.groupInterval = some x := interval.trans inForce
  have counted : policy.countOf name = UInt64.ofNat count := counted.trans (UInt64.zero_add _)
  refine ⟨fun few now => ?_, fun during kept few => ?_⟩
  · rw [SamplingPolicy.shouldProfile_grouped grouping two]
    show (policy.countOf name % x.toUInt64 == 0) = true ↔ _
    rw [counted, SamplingPolicy.counted_dvd two few, decide_eq_true_iff]
  · have answers := SamplingPolicy.told_grouped (ordered.run before) grouping two kept counted few
    refine ⟨answers, fun window => ?_⟩
    rw [answers, window, SamplingPolicy.count_yes two]

/-- Executions are grouped by two, limited, all recorded and at last grouped by three. -/
def regroupedCalls : List (Reading × PolicyCall) :=
  [(0, .profile "load"), (0, .profile "save"), (4, .warm), (4, .profile "load"),
    (4, .reconfigure limitingConfig), (2, .profile "load"), (2, .report .server),
    (3, .reconfigure { groupInterval := some 1 }), (3, .profile "load"),
    (3, .reconfigure { groupInterval := some 3 }), (5, .profile "load")]

/-- Three executions of one name among others, and a configuration that keeps them grouped by three. -/
def threeLoads : List (Reading × PolicyCall) :=
  [(6, .profile "save"), (6, .profile "load"), (9, .reconfigure { groupInterval := some 3 }),
    (9, .profile "load"), (7, .profile "save"), (1, .warm), (1, .profile "load")]

theorem one_of_three_loads :
    let policy := (SamplingPolicy.start groupingConfig 0).run regroupedCalls
    PolicyCall.intervalAfter groupingConfig.groupInterval regroupedCalls = some 3 ∧
    PolicyCall.grouped "load" groupingConfig.groupInterval regroupedCalls = 3 ∧
    (policy.shouldProfile 6 "load").1 = true ∧
    policy.told (.group "load") threeLoads = [true, false, false] ∧
    (policy.told (.group "load") threeLoads).count true = 1 := by
  intro policy
  have inForce : PolicyCall.intervalAfter groupingConfig.groupInterval regroupedCalls = some 3 := rfl
  have count : PolicyCall.grouped "load" groupingConfig.groupInterval regroupedCalls = 3 := by decide
  have kept : PolicyCall.KeepsInterval 3 threeLoads := by
    simp [PolicyCall.KeepsInterval, threeLoads, PolicyCall.interval]
  have asked : PolicyCall.asked "load" threeLoads = 3 := by decide
  obtain ⟨next, stretch⟩ :=
    every_xth_execution groupingConfig 0 regroupedCalls "load" 3 (by decide) inForce
  obtain ⟨answers, one⟩ := stretch threeLoads kept (by rw [count, asked]; decide)
  refine ⟨inForce, count, (next (by rw [count]; decide) 6).mpr (by rw [count]; decide), ?_, one asked⟩
  rw [answers, count, asked]
  decide

end CallProfiler
