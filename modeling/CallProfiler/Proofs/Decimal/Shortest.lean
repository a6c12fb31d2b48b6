import CallProfiler.Decimal.Shortest
import CallProfiler.Proofs.Decimal.Rounding

/-!
# Proofs.Decimal.Shortest: how large a shortest decimal is

A grid point that is taken lies in the rounding interval, so it is at most half a unit above the magnitude,
and it is next to the magnitude on its grid. On the grids that are searched this leaves seventeen digits.

* `onGrid_spec`, `gridPoint_spec` — one grid
* `searchGrid_spec` — the grids in their order
* `shortest_spec`, `written_le_of_less` — the decimal that is written
-/

namespace CallProfiler.Decimal

/-- The number that a decimal stands for. -/
def Digits.value (d : Digits) : ℚ := d.digits * 10 ^ d.exponent

variable {m : Magnitude} {tie : Tie} {e : ℤ} {r : ℕ}

/-! ## One grid -/

theorem RoundingInterval.bounds_of_holds {i : RoundingInterval} {point : ℕ}
    (holds : i.holds point = true) : i.low ≤ point ∧ point ≤ i.high := by
  unfold RoundingInterval.holds at holds
  split at holds
  · exact of_decide_eq_true holds
  · have inside := of_decide_eq_true holds
    omega

/-- What is taken on a grid lies in the interval, and at most one step above the number itself. -/
theorem RoundingInterval.onGrid_spec {i : RoundingInterval} {step : ℕ}
    (taken : i.onGrid tie step = some r) :
    i.low ≤ r * step ∧ r * step ≤ i.high ∧ r ≤ i.value / step + 1 := by
  have either : (i.holds (r * step) = true ∧ r ≤ i.value / step + 1) := by
    unfold RoundingInterval.onGrid at taken
    dsimp only at taken
    split at taken
    · next below _ =>
      obtain rfl := Option.some.inj taken
      exact ⟨below, Nat.le_succ _⟩
    · next _ above =>
      obtain rfl := Option.some.inj taken
      exact ⟨above, le_refl _⟩
    · exact nomatch taken
    · next below above =>
      -- whichever of the two is taken, it lies in the interval
      have one : r = i.value / step ∨ r = i.value / step + 1 := by
        repeat' split at taken
        all_goals first
          | exact .inl (Option.some.inj taken).symm
          | exact .inr (Option.some.inj taken).symm
      rcases one with rfl | rfl
      · exact ⟨below, Nat.le_succ _⟩
      · exact ⟨above, le_refl _⟩
  rcases either with ⟨holds, next⟩
  rcases bounds_of_holds holds with ⟨low, high⟩
  exact ⟨low, high, next⟩

/-- The units of the interval and the steps of the grid, measured in common units. -/
theorem common_units (b e : ℤ) :
    ((10 ^ e.toNat * 1 <<< (-b).toNat : ℕ) : ℚ) * (2 : ℚ) ^ b =
      (1 <<< b.toNat * 10 ^ (-e).toNat : ℕ) * (10 : ℚ) ^ e := by
  have two : (2 : ℚ) ^ ((-b).toNat : ℤ) * 2 ^ b = 2 ^ (b.toNat : ℤ) := by
    rw [← zpow_add₀ two_ne_zero]
    congr 1
    omega
  have ten : (10 : ℚ) ^ ((-e).toNat : ℤ) * 10 ^ e = 10 ^ (e.toNat : ℤ) := by
    rw [← zpow_add₀ (by norm_num)]
    congr 1
    omega
  push_cast [natCast_shiftLeft]
  rw [← zpow_natCast, ← zpow_natCast, ← two, ← ten]
  ring

theorem Magnitude.interval_low (m : Magnitude) : 4 * m.significand - 2 ≤ m.interval.low := by
  unfold Magnitude.interval
  dsimp only
  split <;> omega

/-- A grid point that is taken is at most half a unit above the magnitude, and at most one step. -/
theorem gridPoint_spec (some : 0 < m.significand) (taken : m.gridPoint tie e = Option.some r) :
    0 < r ∧ (r : ℚ) * 10 ^ e ≤ (m.significand + 1 / 2) * 2 ^ m.exponent ∧
    ((r : ℚ) - 1) * 10 ^ e ≤ m.value := by
  have units := common_units (m.exponent - 2) e
  have factor_pos : 0 < 1 <<< (m.exponent - 2).toNat * 10 ^ (-e).toNat := by
    rw [Nat.shiftLeft_eq]
    positivity
  have spec := RoundingInterval.onGrid_spec taken
  have low := m.interval_low
  have quarter : (2 : ℚ) ^ (m.exponent - 2) * 4 = 2 ^ m.exponent := by
    rw [show (4 : ℚ) = 2 ^ (2 : ℤ) by norm_num, ← zpow_add₀ two_ne_zero, Int.sub_add_cancel]
  change m.interval.low * (1 <<< (m.exponent - 2).toNat * 10 ^ (-e).toNat) ≤
      r * (10 ^ e.toNat * 1 <<< (-(m.exponent - 2)).toNat) ∧
    r * (10 ^ e.toNat * 1 <<< (-(m.exponent - 2)).toNat) ≤
      (4 * m.significand + 2) * (1 <<< (m.exponent - 2).toNat * 10 ^ (-e).toNat) ∧
    r ≤ 4 * m.significand * (1 <<< (m.exponent - 2).toNat * 10 ^ (-e).toNat) /
      (10 ^ e.toNat * 1 <<< (-(m.exponent - 2)).toNat) + 1 at spec
  generalize 1 <<< (m.exponent - 2).toNat * 10 ^ (-e).toNat = factor at units factor_pos spec
  generalize 10 ^ e.toNat * 1 <<< (-(m.exponent - 2)).toNat = step at units spec
  rcases spec with ⟨above, high, next⟩
  have factor_pos' : (0 : ℚ) < factor := by exact_mod_cast factor_pos
  have two_pos := two_zpow_pos (m.exponent - 2)
  -- a number of steps, in the units of the interval
  have steps (x : ℚ) : x * 10 ^ e * factor = x * step * 2 ^ (m.exponent - 2) := by
    rw [mul_assoc, mul_comm ((10 : ℚ) ^ e), ← units, mul_assoc]
  refine ⟨?_, ?_, ?_⟩
  · apply Nat.pos_of_ne_zero
    rintro rfl
    rw [Nat.zero_mul, Nat.le_zero, Nat.mul_eq_zero] at above
    omega
  · have high' : (r : ℚ) * step ≤ (4 * m.significand + 2) * factor := by exact_mod_cast high
    rw [← mul_le_mul_iff_of_pos_right factor_pos', steps, ← quarter]
    calc (r : ℚ) * step * 2 ^ (m.exponent - 2)
        ≤ (4 * m.significand + 2) * factor * 2 ^ (m.exponent - 2) := by gcongr
      _ = (m.significand + 1 / 2) * (2 ^ (m.exponent - 2) * 4) * factor := by ring
  · have below : (r - 1) * step ≤ 4 * m.significand * factor := by
      have less := Nat.sub_le_iff_le_add.mpr next
      exact (Nat.mul_le_mul_right step less).trans (Nat.div_mul_le_self _ _)
    have below' : ((r : ℚ) - 1) * step ≤ 4 * m.significand * factor := by
      have cast : (r : ℚ) - 1 ≤ ((r - 1 : ℕ) : ℚ) := by
        have : r ≤ (r - 1) + 1 := by omega
        have : (r : ℚ) ≤ ((r - 1 : ℕ) : ℚ) + 1 := by exact_mod_cast this
        linarith
      calc ((r : ℚ) - 1) * step ≤ ((r - 1 : ℕ) : ℚ) * step := by gcongr
        _ ≤ 4 * m.significand * factor := by exact_mod_cast below
    unfold Magnitude.value
    rw [← mul_le_mul_iff_of_pos_right factor_pos', steps, ← quarter]
    calc ((r : ℚ) - 1) * step * 2 ^ (m.exponent - 2)
        ≤ 4 * m.significand * factor * 2 ^ (m.exponent - 2) := by gcongr
      _ = m.significand * (2 ^ (m.exponent - 2) * 4) * factor := by ring

/-! ## The grids in their order -/

/-- The number of digits is that of the least power of ten above. -/
theorem digitCount_spec (n : ℕ) :
    0 < digitCount n ∧ n < 10 ^ digitCount n ∧ (0 < n → 10 ^ (digitCount n - 1) ≤ n) := by
  induction n using digitCount.induct with
  | case1 n short =>
    rw [digitCount, if_pos short]
    exact ⟨Nat.one_pos, by omega, fun some => by simpa using Nat.succ_le_of_lt some⟩
  | case2 n long ih =>
    rcases ih with ⟨some, below, above⟩
    rw [digitCount, if_neg long]
    refine ⟨Nat.succ_pos _, ?_, fun _ => ?_⟩
    · rw [pow_succ]
      omega
    · have tenth := above (by omega)
      obtain ⟨k, count⟩ : ∃ k, digitCount (n / 10) = k + 1 := ⟨digitCount (n / 10) - 1, by omega⟩
      rw [count, Nat.add_sub_cancel] at tenth
      rw [count, Nat.add_sub_cancel, pow_succ]
      omega

/-- The quotient has no digit before the leading one. -/
theorem lt_leadingExponent {num den : ℕ} (num_pos : 0 < num) (den_pos : 0 < den) :
    (num : ℚ) / den < 10 ^ (leadingExponent num den + 1) := by
  have den_pos' : (0 : ℚ) < den := by exact_mod_cast den_pos
  unfold leadingExponent
  split
  · rcases digitCount_spec (num / den) with ⟨-, below, -⟩
    rw [sub_add_cancel, zpow_natCast, div_lt_iff₀ den_pos']
    have less : num < 10 ^ digitCount (num / den) * den := (Nat.div_lt_iff_lt_mul den_pos).mp below
    exact_mod_cast less
  · next less =>
    have some : 0 < (den - 1) / num := Nat.div_pos (by omega) num_pos
    rcases digitCount_spec ((den - 1) / num) with ⟨positive, -, above⟩
    have scaled : num * 10 ^ (digitCount ((den - 1) / num) - 1) < den := by
      have most := (Nat.mul_le_mul_left num (above some)).trans (Nat.mul_div_le (den - 1) num)
      omega
    generalize digitCount ((den - 1) / num) = count at positive scaled
    obtain ⟨k, rfl⟩ : ∃ k, count = k + 1 := ⟨count - 1, by omega⟩
    rw [Nat.add_sub_cancel] at scaled
    have exponent : -((k + 1 : ℕ) : ℤ) + 1 = -(k : ℤ) := by omega
    rw [exponent, zpow_neg, zpow_natCast, div_lt_iff₀ den_pos', ← div_eq_inv_mul,
      lt_div_iff₀ (by positivity)]
    exact_mod_cast scaled

/-- What is found lies on one of the grids, and the first that has a point is taken. -/
theorem searchGrid_spec {grids : ℕ} {d : Digits} (found : m.searchGrid tie e grids = some d) :
    m.gridPoint tie d.exponent = some d.digits ∧ e - grids < d.exponent ∧ d.exponent ≤ e := by
  induction grids generalizing e with
  | zero => exact nomatch found
  | succ grids ih =>
    rw [Magnitude.searchGrid] at found
    split at found
    · next digits here =>
      obtain rfl := Option.some.inj found
      exact ⟨here, by dsimp only; omega, le_refl _⟩
    · rcases ih found with ⟨there, least, most⟩
      exact ⟨there, by omega, by omega⟩

/-! ## The decimal that is written -/

/-- To trim zeros changes neither the value nor its sign, and leaves no more digits. -/
theorem trim_spec (d : Digits) (fuel : ℕ) :
    (d.trim fuel).value = d.value ∧ (d.trim fuel).digits ≤ d.digits ∧
    (0 < d.digits → 0 < (d.trim fuel).digits) := by
  induction fuel generalizing d with
  | zero => exact ⟨rfl, le_refl _, id⟩
  | succ fuel ih =>
    rw [Digits.trim]
    split
    · next whole =>
      rcases ih ⟨d.digits / 10, d.exponent + 1⟩ with ⟨value, fewer, some⟩
      have tenth : d.digits = 10 * (d.digits / 10) := by omega
      refine ⟨value.trans ?_, fewer.trans (Nat.div_le_self _ _), fun positive => some ?_⟩
      · unfold Digits.value
        dsimp only
        have cast : (d.digits : ℚ) = 10 * (d.digits / 10 : ℕ) := by exact_mod_cast tenth
        rw [zpow_add₀ (by norm_num), zpow_one, cast]
        ring
      · dsimp only
        omega
    · exact ⟨rfl, le_refl _, id⟩

/-- The decimal that is written for a magnitude. -/
structure Written (m : Magnitude) (d : Digits) : Prop where
  positive : 0 < d.digits
  few : d.digits ≤ 10 ^ 17
  below : d.value ≤ (m.significand + 1 / 2) * 2 ^ m.exponent

/-- The decimal that is written has at most seventeen digits and lies less than half a unit above the
magnitude, unless the search fails. -/
theorem shortest_spec (tie : Tie) (some : 0 < m.significand) :
    shortest tie m = ⟨0, 0⟩ ∨ Written m (shortest tie m) := by
  unfold shortest
  rw [if_neg some.ne']
  split
  · next d found =>
    rcases searchGrid_spec found with ⟨taken, least, most⟩
    rcases gridPoint_spec some taken with ⟨positive, below, next⟩
    rcases trim_spec d 20 with ⟨value, fewer, stays⟩
    have num_pos : 0 < m.num := by
      unfold Magnitude.num
      rw [Nat.shiftLeft_eq]
      positivity
    have leading := lt_leadingExponent num_pos m.den_pos
    rw [← m.value_eq] at leading
    refine .inr ⟨stays positive, fewer.trans ?_, value.trans_le below⟩
    -- the grid is at most sixteen places below the leading digit
    have short : ((d.digits : ℚ) - 1) * 10 ^ d.exponent < 10 ^ (17 : ℕ) * 10 ^ d.exponent := by
      refine (next.trans_lt leading).trans_le ?_
      rw [← zpow_natCast, ← zpow_add₀ (by norm_num)]
      exact zpow_le_zpow_right₀ (by norm_num) (by push_cast; omega)
    have digits : (d.digits : ℚ) - 1 < 10 ^ 17 := lt_of_mul_lt_mul_right short (by positivity)
    have cast : (d.digits : ℚ) < ((10 ^ 17 + 1 : ℕ) : ℚ) := by
      push_cast
      linarith
    exact Nat.lt_succ_iff.mp (by exact_mod_cast cast)
  · exact .inl rfl

/-- What is written for a magnitude below another one lies below the middle between that one and the
next smaller one. -/
theorem written_le_of_less {top : Magnitude} {d : Digits} (written : Written m d)
    (fits : m.significand < 2 ^ 53) (full : 2 ^ 52 < top.significand)
    (less : m.exponent < top.exponent ∨ m.exponent = top.exponent ∧ m.significand < top.significand) :
    d.value ≤ (top.significand - 1 / 2) * 2 ^ top.exponent := by
  refine written.below.trans ?_
  rcases less with less | ⟨same, less⟩
  · have most : (m.significand : ℚ) + 1 ≤ 2 ^ 53 := by exact_mod_cast fits
    have enough : (2 : ℚ) ^ 52 + 1 ≤ top.significand := by exact_mod_cast full
    have power := zpow_le_zpow_right₀ (one_le_two (α := ℚ))
      (show m.exponent + 1 ≤ top.exponent by omega)
    have room : (0 : ℚ) ≤ top.significand - 1 / 2 := by linarith
    calc ((m.significand : ℚ) + 1 / 2) * 2 ^ m.exponent
        ≤ (2 * (top.significand - 1 / 2)) * 2 ^ m.exponent := by
          gcongr
          linarith
      _ = (top.significand - 1 / 2) * 2 ^ (m.exponent + 1) := by
        rw [zpow_add₀ two_ne_zero, zpow_one]
        ring
      _ ≤ (top.significand - 1 / 2) * 2 ^ top.exponent := by gcongr
  · have step : (m.significand : ℚ) + 1 ≤ top.significand := by exact_mod_cast less
    rw [same]
    gcongr
    linarith

end CallProfiler.Decimal
