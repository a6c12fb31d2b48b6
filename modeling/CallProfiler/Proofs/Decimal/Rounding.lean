import CallProfiler.Decimal.Scaled
import Mathlib.Algebra.Order.Field.Power
import Mathlib.Data.Rat.Cast.Order
import Mathlib.Tactic.FieldSimp
import Mathlib.Tactic.Linarith
import Mathlib.Tactic.Ring

/-!
# Proofs.Decimal.Rounding: rounding keeps the order of numbers

`Nearest q m` says what it means that `nearest` has rounded the number `q` to the magnitude `m`. All that
is used of it is that a larger number is rounded to a larger magnitude (`Nearest.code_le`,
`Nearest.value_le`): what is read from a decimal is then bounded by what is read from the largest decimal
in question, and that can be computed.
-/

namespace CallProfiler.Decimal

/-- The number that a magnitude stands for. -/
def Magnitude.value (m : Magnitude) : ℚ := m.significand * 2 ^ m.exponent

theorem two_zpow_pos (k : ℤ) : (0 : ℚ) < 2 ^ k := by positivity

theorem natCast_shiftLeft (n k : ℕ) : ((n <<< k : ℕ) : ℚ) = n * 2 ^ (k : ℤ) := by
  rw [Nat.shiftLeft_eq, zpow_natCast]
  push_cast
  rfl

theorem Magnitude.den_pos (m : Magnitude) : 0 < m.den := by
  unfold Magnitude.den
  rw [Nat.shiftLeft_eq]
  positivity

theorem Magnitude.value_eq (m : Magnitude) : m.value = m.num / m.den := by
  unfold Magnitude.value Magnitude.num Magnitude.den
  rw [natCast_shiftLeft, natCast_shiftLeft, Nat.cast_one, one_mul, mul_div_assoc,
    ← zpow_sub₀ two_ne_zero]
  congr 2
  omega

theorem Magnitude.value_nonneg (m : Magnitude) : 0 ≤ m.value := by
  unfold Magnitude.value
  positivity

/-! ## Integers -/

/-- An integer closest to a number; of two of them it is the even one. -/
structure Rounds (x : ℚ) (r : ℕ) : Prop where
  low : (r : ℚ) - 1 / 2 ≤ x
  high : x ≤ r + 1 / 2
  even : x = r - 1 / 2 ∨ x = r + 1 / 2 → r % 2 = 0

theorem rounds_natCast (n : ℕ) : Rounds n n where
  low := by linarith
  high := by linarith
  even := by
    rintro (same | same)
    · linarith
    · linarith

/-- Rounding keeps the order: between two neighbours only one is even. -/
theorem Rounds.mono {x y : ℚ} {r s : ℕ} (h : Rounds x r) (h' : Rounds y s) (le : x ≤ y) : r ≤ s := by
  by_contra less
  have next : (s : ℚ) + 1 ≤ r := by exact_mod_cast Nat.lt_of_not_le less
  have low := h.low
  have high := h'.high
  -- both numbers lie half way between two neighbours, and only one of those is even
  have first := h.even (.inl (by linarith))
  have second := h'.even (.inr (by linarith))
  have neighbours : r = s + 1 := by
    have : (r : ℚ) = s + 1 := by linarith
    exact_mod_cast this
  omega

/-- Integer division with its remainder rounds to the closest integer, halves to the even one. -/
theorem rounds_roundHalfEven (num : ℕ) {den : ℕ} (pos : 0 < den) :
    Rounds (num / den) (roundHalfEven num den) := by
  have den_pos : (0 : ℚ) < den := by exact_mod_cast pos
  have parts : (num : ℚ) / den = (num / den : ℕ) + (num % den : ℕ) / den := by
    have whole : (num : ℚ) = den * (num / den : ℕ) + (num % den : ℕ) := by
      exact_mod_cast (Nat.div_add_mod num den).symm
    rw [div_eq_iff den_pos.ne', add_mul, div_mul_cancel₀ _ den_pos.ne', mul_comm]
    exact whole
  have rest_nonneg : (0 : ℚ) ≤ (num % den : ℕ) / den :=
    div_nonneg (Nat.cast_nonneg _) den_pos.le
  have rest_lt : ((num % den : ℕ) : ℚ) / den < 1 := by
    rw [div_lt_one₀ den_pos]
    exact_mod_cast Nat.mod_lt _ pos
  unfold roundHalfEven
  dsimp only
  rw [parts]
  generalize num / den = whole
  by_cases below : 2 * (num % den) < den
  · have small : ((num % den : ℕ) : ℚ) / den < 1 / 2 := by
      rw [div_lt_iff₀ den_pos]
      have : (2 : ℚ) * (num % den : ℕ) < den := by exact_mod_cast below
      linarith
    rw [if_pos below]
    exact ⟨by linarith, by linarith, by rintro (same | same) <;> linarith⟩
  by_cases above : den < 2 * (num % den)
  · have large : 1 / 2 < ((num % den : ℕ) : ℚ) / den := by
      rw [lt_div_iff₀ den_pos]
      have : (den : ℚ) < 2 * (num % den : ℕ) := by exact_mod_cast above
      linarith
    rw [if_neg below, if_pos above]
    exact ⟨by push_cast; linarith, by push_cast; linarith,
      by rintro (same | same) <;> push_cast at same <;> linarith⟩
  · have half : ((num % den : ℕ) : ℚ) / den = 1 / 2 := by
      rw [div_eq_iff den_pos.ne']
      have : (2 : ℚ) * (num % den : ℕ) = den := by exact_mod_cast (by omega : 2 * (num % den) = den)
      linarith
    rw [if_neg below, if_neg above, half]
    -- a tie goes to the even neighbour
    rcases Nat.mod_two_eq_zero_or_one whole with even | odd
    · rw [even]
      exact ⟨by push_cast; linarith, by push_cast; linarith, fun _ => even⟩
    · rw [odd]
      exact ⟨by push_cast; linarith, by push_cast; linarith, fun _ => by omega⟩

/-! ## Quotients -/

/-- A number that was rounded to a magnitude with 53 binary digits, of which the first is used unless
the exponent is as small as it can be. -/
structure Nearest (q : ℚ) (m : Magnitude) : Prop where
  least : -1074 ≤ m.exponent
  rounds : Rounds (q / 2 ^ m.exponent) m.significand
  below : q < 2 ^ (m.exponent + 53)
  above : -1074 < m.exponent → 0 < q → 2 ^ (m.exponent + 52) ≤ q

/-- The binary logarithms of numerator and denominator leave two candidates for the exponent. -/
theorem estimate_spec {num den : ℕ} (num_pos : 0 < num) (den_pos : 0 < den) :
    (2 : ℚ) ^ ((num.log2 : ℤ) - den.log2 - 1) < num / den ∧
    (num : ℚ) / den < 2 ^ ((num.log2 : ℤ) - den.log2 + 1) := by
  have num_low : (2 : ℚ) ^ (num.log2 : ℤ) ≤ num := by
    rw [zpow_natCast]
    exact_mod_cast Nat.log2_self_le num_pos.ne'
  have num_high : (num : ℚ) < 2 ^ ((num.log2 : ℤ) + 1) := by
    have := Nat.lt_log2_self (n := num)
    rw [show (num.log2 : ℤ) + 1 = ((num.log2 + 1 : ℕ) : ℤ) by push_cast; rfl, zpow_natCast]
    exact_mod_cast this
  have den_low : (2 : ℚ) ^ (den.log2 : ℤ) ≤ den := by
    rw [zpow_natCast]
    exact_mod_cast Nat.log2_self_le den_pos.ne'
  have den_high : (den : ℚ) < 2 ^ ((den.log2 : ℤ) + 1) := by
    have := Nat.lt_log2_self (n := den)
    rw [show (den.log2 : ℤ) + 1 = ((den.log2 + 1 : ℕ) : ℤ) by push_cast; rfl, zpow_natCast]
    exact_mod_cast this
  have den_pos' : (0 : ℚ) < den := by exact_mod_cast den_pos
  constructor
  · rw [lt_div_iff₀ den_pos']
    calc (2 : ℚ) ^ ((num.log2 : ℤ) - den.log2 - 1) * den
        < 2 ^ ((num.log2 : ℤ) - den.log2 - 1) * 2 ^ ((den.log2 : ℤ) + 1) :=
          mul_lt_mul_of_pos_left den_high (two_zpow_pos _)
      _ = 2 ^ (num.log2 : ℤ) := by rw [← zpow_add₀ two_ne_zero]; congr 1; omega
      _ ≤ num := num_low
  · rw [div_lt_iff₀ den_pos']
    calc (num : ℚ) < 2 ^ ((num.log2 : ℤ) + 1) := num_high
      _ = 2 ^ ((num.log2 : ℤ) - den.log2 + 1) * 2 ^ (den.log2 : ℤ) := by
        rw [← zpow_add₀ two_ne_zero]; congr 1; omega
      _ ≤ 2 ^ ((num.log2 : ℤ) - den.log2 + 1) * den :=
        mul_le_mul_of_nonneg_left den_low (two_zpow_pos _).le

/-- Comparing a quotient with a power of two, on natural numbers. -/
theorem lt_zpow_iff (num : ℕ) {den : ℕ} (den_pos : 0 < den) (k : ℤ) :
    (if 0 ≤ k then num < den <<< k.toNat else num <<< (-k).toNat < den) ↔
      (num : ℚ) / den < 2 ^ k := by
  have den_pos' : (0 : ℚ) < den := by exact_mod_cast den_pos
  rw [div_lt_iff₀ den_pos']
  by_cases large : 0 ≤ k
  · have scaled := natCast_shiftLeft den k.toNat
    rw [Int.toNat_of_nonneg large] at scaled
    rw [if_pos large, ← Nat.cast_lt (α := ℚ), scaled, mul_comm]
  · have scaled := natCast_shiftLeft num (-k).toNat
    rw [Int.toNat_of_nonneg (by omega), zpow_neg] at scaled
    rw [if_neg large, ← Nat.cast_lt (α := ℚ), scaled, ← div_eq_mul_inv, div_lt_iff₀ (two_zpow_pos k),
      mul_comm]

/-- In its unit a quotient has at most 53 binary digits before the point, and exactly as many unless the
unit is the least one. -/
theorem unitExponent_spec {num den : ℕ} (num_pos : 0 < num) (den_pos : 0 < den) :
    -1074 ≤ unitExponent num den ∧
    (num : ℚ) / den < 2 ^ (unitExponent num den + 53) ∧
    (-1074 < unitExponent num den → (2 : ℚ) ^ (unitExponent num den + 52) ≤ num / den) := by
  rcases estimate_spec num_pos den_pos with ⟨low, high⟩
  -- the estimate is right, or one too small
  have unit : unitExponent num den =
      max (if (num : ℚ) / den < 2 ^ ((num.log2 : ℤ) - den.log2) then (num.log2 : ℤ) - den.log2 - 53
        else (num.log2 : ℤ) - den.log2 - 52) (-1074) := by
    have fits := lt_zpow_iff num den_pos ((num.log2 : ℤ) - den.log2 - 53 + 53)
    unfold unitExponent
    dsimp only
    rw [if_congr fits rfl rfl, Int.sub_add_cancel]
    congr 2
    omega
  generalize (num.log2 : ℤ) - den.log2 = k at low high unit
  rw [unit]
  by_cases fits : (num : ℚ) / den < 2 ^ k
  · rw [if_pos fits]
    refine ⟨le_max_right _ _, fits.trans_le (zpow_le_zpow_right₀ one_le_two (by omega)), fun more => ?_⟩
    rw [max_eq_left (by omega)]
    exact (zpow_le_zpow_right₀ one_le_two (by omega)).trans low.le
  · rw [if_neg fits]
    refine ⟨le_max_right _ _, high.trans_le (zpow_le_zpow_right₀ one_le_two (by omega)), fun more => ?_⟩
    rw [max_eq_left (by omega)]
    exact (zpow_le_zpow_right₀ one_le_two (by omega)).trans (not_lt.mp fits)

/-- The magnitude that is computed for a quotient is a closest one. -/
theorem nearest_spec (num : ℕ) {den : ℕ} (pos : 0 < den) : Nearest (num / den) (nearest num den) := by
  have unit : (nearest num den).exponent = unitExponent num den := rfl
  have rounds : Rounds ((num : ℚ) / den / 2 ^ unitExponent num den) (nearest num den).significand := by
    unfold nearest
    dsimp only
    split
    · next large =>
      have scaled : (num : ℚ) / den / 2 ^ unitExponent num den =
          (num : ℚ) / (den <<< (unitExponent num den).toNat : ℕ) := by
        rw [natCast_shiftLeft, Int.toNat_of_nonneg large, div_div]
      rw [scaled]
      exact rounds_roundHalfEven num (by rw [Nat.shiftLeft_eq]; positivity)
    · next small =>
      have scaled : (num : ℚ) / den / 2 ^ unitExponent num den =
          (num <<< (-unitExponent num den).toNat : ℕ) / (den : ℚ) := by
        rw [natCast_shiftLeft, Int.toNat_of_nonneg (by omega), zpow_neg, div_right_comm]
        rfl
      rw [scaled]
      exact rounds_roundHalfEven _ pos
  rcases Nat.eq_zero_or_pos num with rfl | num_pos
  · refine ⟨le_max_right _ _, rounds, ?_, fun _ positive => ?_⟩
    · rw [Nat.cast_zero, zero_div]
      exact two_zpow_pos _
    · rw [Nat.cast_zero, zero_div] at positive
      exact absurd positive (lt_irrefl 0)
  · rcases unitExponent_spec num_pos pos with ⟨least, below, above⟩
    exact ⟨least, rounds, below, fun more _ => above more⟩

/-! ## Order -/

variable {q q' : ℚ} {m m' : Magnitude}

/-- A closest magnitude has at most 53 digits, or is the next power of two. -/
theorem Nearest.significand_le (h : Nearest q m) : m.significand ≤ 2 ^ 53 := by
  have whole := rounds_natCast (2 ^ 53)
  refine h.rounds.mono whole ?_
  rw [div_le_iff₀ (two_zpow_pos _)]
  refine h.below.le.trans_eq ?_
  rw [zpow_add₀ two_ne_zero, mul_comm]
  norm_num

/-- Above the least unit a closest magnitude has all its 53 digits. -/
theorem Nearest.le_significand (h : Nearest q m) (positive : 0 < q) (more : -1074 < m.exponent) :
    2 ^ 52 ≤ m.significand := by
  have whole := rounds_natCast (2 ^ 52)
  refine whole.mono h.rounds ?_
  rw [le_div_iff₀ (two_zpow_pos _)]
  refine (h.above more positive).trans_eq' ?_
  rw [zpow_add₀ two_ne_zero, mul_comm]
  norm_num

/-- What is closest to nothing is nothing. -/
theorem Nearest.significand_zero (h : Nearest q m) (none : q ≤ 0) : m.significand = 0 := by
  have whole := rounds_natCast 0
  refine Nat.le_zero.mp (h.rounds.mono whole ?_)
  rw [Nat.cast_zero]
  exact div_nonpos_of_nonpos_of_nonneg none (two_zpow_pos _).le

/-- A larger number has a larger exponent, or the same one and a larger significand. -/
theorem Nearest.order (h : Nearest q m) (h' : Nearest q' m') (le : q ≤ q') :
    m.significand = 0 ∨ (m.exponent = m'.exponent ∧ m.significand ≤ m'.significand) ∨
    (m.exponent < m'.exponent ∧ m.significand ≤ 2 ^ 53 ∧ 2 ^ 52 ≤ m'.significand) := by
  rcases le_or_gt q 0 with none | positive
  · exact .inl (h.significand_zero none)
  · refine .inr ?_
    rcases lt_trichotomy m.exponent m'.exponent with less | same | greater
    · have more : -1074 < m'.exponent := h.least.trans_lt less
      exact .inr ⟨less, h.significand_le, h'.le_significand (positive.trans_le le) more⟩
    · refine .inl ⟨same, h.rounds.mono h'.rounds ?_⟩
      rw [same]
      gcongr
    -- the smaller number would not need the larger exponent
    · have above := h.above (h'.least.trans_lt greater) positive
      have below := h'.below
      have between : (2 : ℚ) ^ (m'.exponent + 53) ≤ 2 ^ (m.exponent + 52) :=
        zpow_le_zpow_right₀ one_le_two (by omega)
      linarith

/-- Of two numbers in order, the closest floats have their codes in order. -/
theorem Nearest.code_le (h : Nearest q m) (h' : Nearest q' m') (le : q ≤ q') : m.code ≤ m'.code := by
  have least := h.least
  have least' := h'.least
  unfold Magnitude.code
  rw [Nat.shiftLeft_eq, Nat.shiftLeft_eq]
  rcases h.order h' le with none | ⟨same, less⟩ | ⟨less, most, enough⟩
  · rw [if_pos none]
    exact Nat.zero_le _
  · split
    · exact Nat.zero_le _
    · rw [if_neg (by omega), same]
      omega
  · split
    · exact Nat.zero_le _
    · rw [if_neg (by omega)]
      omega

/-- Of two numbers in order, the closest magnitudes are in order. -/
theorem Nearest.value_le (h : Nearest q m) (h' : Nearest q' m') (le : q ≤ q') :
    m.value ≤ m'.value := by
  unfold Magnitude.value
  rcases h.order h' le with none | ⟨same, less⟩ | ⟨less, most, enough⟩
  · rw [none, Nat.cast_zero, zero_mul]
    positivity
  · rw [same]
    gcongr
  · calc (m.significand : ℚ) * 2 ^ m.exponent
        ≤ 2 ^ 53 * 2 ^ m.exponent := by
          have : (m.significand : ℚ) ≤ 2 ^ 53 := by exact_mod_cast most
          gcongr
      _ = 2 ^ 52 * 2 ^ (m.exponent + 1) := by
        rw [zpow_add₀ two_ne_zero]
        ring
      _ ≤ 2 ^ 52 * 2 ^ m'.exponent := by
        have := zpow_le_zpow_right₀ (one_le_two (α := ℚ)) (show m.exponent + 1 ≤ m'.exponent by omega)
        gcongr
      _ ≤ m'.significand * 2 ^ m'.exponent := by
        have : (2 : ℚ) ^ 52 ≤ m'.significand := by exact_mod_cast enough
        gcongr

end CallProfiler.Decimal
