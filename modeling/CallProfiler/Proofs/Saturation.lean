import Mathlib.Algebra.Order.Ring.Nat
import CallProfiler.Clock

/-!
# Proofs.Saturation: sums that are cut at 64 bits

A total of durations is cut at the greatest 64-bit number each time a duration is added. It comes to
the same to add all durations up exactly and to cut the sum once (`toNat_foldl_saturatingAdd`), so the
order of the durations does not matter.
-/

namespace CallProfiler

/-- A duration that is cut to 64 bits, in exact numbers. -/
theorem Duration.toNat_capped (d : Duration) : d.capped.toNat = min d.nanos (2 ^ 64 - 1) := by
  have size : UInt64.size = 2 ^ 64 := rfl
  unfold Duration.capped
  rw [UInt64.toNat_ofNat', size]
  omega

/-- The capped sum, in exact numbers. -/
theorem toNat_saturatingAdd (a b : UInt64) :
    (saturatingAdd a b).toNat = min (a.toNat + b.toNat) (2 ^ 64 - 1) := by
  have size : UInt64.size = 2 ^ 64 := rfl
  unfold saturatingAdd
  rw [UInt64.toNat_ofNat', size]
  omega

/-- The difference that stops at zero, in exact numbers. -/
theorem toNat_saturatingSub (a b : UInt64) : (saturatingSub a b).toNat = a.toNat - b.toNat := by
  unfold saturatingSub
  split
  · rename_i less
    have less : a.toNat < b.toNat := less
    show 0 = _
    omega
  · rename_i notLess
    have le : b.toNat ≤ a.toNat := Nat.le_of_not_lt notLess
    exact UInt64.toNat_sub_of_le a b le

/-- A sum that is capped all along is the exact sum, capped once. -/
theorem toNat_foldl_saturatingAdd (values : List UInt64) (total : UInt64) :
    (values.foldl saturatingAdd total).toNat =
      min (total.toNat + (values.map (·.toNat)).sum) (2 ^ 64 - 1) := by
  induction values generalizing total with
  | nil =>
    have bound := total.toNat_lt
    simp only [List.foldl_nil, List.map_nil, List.sum_nil]
    omega
  | cons value rest ih =>
    rw [List.foldl_cons, ih, toNat_saturatingAdd, List.map_cons, List.sum_cons]
    omega

end CallProfiler
