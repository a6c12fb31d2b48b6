import CallProfiler.Proofs.Decimal.Floats
import CallProfiler.Proofs.Decimal.Rounding

/-!
# Proofs.Decimal.Scaling: what reading a decimal comes to

A decimal is read with up to three roundings and more where its exponent is small. None of them changes
the order of numbers, so what is read is at most what is read from a decimal that is larger in digits and
exponent alike (`mul_code_le`, `div_code_le`), and only few of those have to be computed.
`ofScaled_fits` is the result: no decimal up to the shortest one of the largest float is read as
infinite, and none up to a hundred as more than that.
-/

namespace CallProfiler.Decimal

variable {a b m : Magnitude} {q : ℚ}

/-! ## Products and quotients -/

/-- A product is rounded once. -/
theorem nearest_mul (a b : Magnitude) : Nearest (a.value * b.value) (a.mul b) := by
  have spec := nearest_spec (a.num * b.num) (Nat.mul_pos a.den_pos b.den_pos)
  have same : ((a.num * b.num : ℕ) : ℚ) / (a.den * b.den : ℕ) = a.value * b.value := by
    rw [a.value_eq, b.value_eq]
    push_cast
    exact (div_mul_div_comm _ _ _ _).symm
  rw [same] at spec
  exact spec

/-- A quotient is rounded once. -/
theorem nearest_div (a : Magnitude) (positive : 0 < b.value) : Nearest (a.value / b.value) (a.div b) := by
  have some : 0 < b.num := by
    rw [b.value_eq] at positive
    apply Nat.pos_of_ne_zero
    intro zero
    rw [zero, Nat.cast_zero, zero_div] at positive
    exact lt_irrefl 0 positive
  have spec := nearest_spec (a.num * b.den) (Nat.mul_pos a.den_pos some)
  have same : ((a.num * b.den : ℕ) : ℚ) / (a.den * b.num : ℕ) = a.value / b.value := by
    rw [a.value_eq, b.value_eq]
    push_cast
    exact (div_div_div_eq _ _ _ _).symm
  rw [same] at spec
  exact spec

/-- An integer is rounded to a closest magnitude. -/
theorem nearest_natCast (n : ℕ) : Nearest n (nearest n 1) := by
  have spec := nearest_spec n Nat.one_pos
  rwa [Nat.cast_one, div_one] at spec

theorem nearest_one_value : (nearest 1 1).value = 1 := by
  have computed : nearest 1 1 = ⟨2 ^ 52, -52⟩ := by decide +kernel
  rw [computed]
  unfold Magnitude.value
  norm_num

theorem nearest_value_le {n n' : ℕ} (le : n ≤ n') : (nearest n 1).value ≤ (nearest n' 1).value :=
  (nearest_natCast n).value_le (nearest_natCast n') (by exact_mod_cast le)

theorem powerOfTen_value_le {k k' : ℕ} (le : k ≤ k') :
    (powerOfTen k).value ≤ (powerOfTen k').value :=
  nearest_value_le (Nat.pow_le_pow_right (by decide) le)

theorem one_le_powerOfTen (k : ℕ) : 1 ≤ (powerOfTen k).value := by
  unfold powerOfTen
  exact nearest_one_value.symm.trans_le (nearest_value_le (Nat.one_le_pow k 10 (by decide)))

/-- Numbers of at most eighteen digits are at most the larger powers of ten. -/
theorem value_le_powerOfTen {n k : ℕ} (few : n ≤ 10 ^ 18) (enough : 18 ≤ k) :
    (nearest n 1).value ≤ (powerOfTen k).value :=
  nearest_value_le (few.trans (Nat.pow_le_pow_right (by decide) enough))

/-- Of two decimals with whole powers of ten, the one that is larger in both parts is read as a larger
number. -/
theorem mul_code_le {n n' k k' : ℕ} (digits : n ≤ n') (power : k ≤ k') :
    ((nearest n 1).mul (powerOfTen k)).code ≤ ((nearest n' 1).mul (powerOfTen k')).code := by
  refine (nearest_mul _ _).code_le (nearest_mul _ _) ?_
  exact mul_le_mul (nearest_value_le digits) (powerOfTen_value_le power)
    (Magnitude.value_nonneg _) (Magnitude.value_nonneg _)

/-- Of two decimals with tenths, the one with more digits and fewer places is read as a larger number.
-/
theorem div_code_le {n n' k k' : ℕ} (digits : n ≤ n') (power : k' ≤ k) :
    ((nearest n 1).div (powerOfTen k)).code ≤ ((nearest n' 1).div (powerOfTen k')).code := by
  have positive (k : ℕ) : 0 < (powerOfTen k).value := one_pos.trans_le (one_le_powerOfTen k)
  refine (nearest_div _ (positive k)).code_le (nearest_div _ (positive k')) ?_
  exact div_le_div₀ (Magnitude.value_nonneg _) (nearest_value_le digits) (positive k')
    (powerOfTen_value_le power)

/-! ## Powers of ten -/

/-- A whole power of ten in the table is multiplied once, unless the product is too large. -/
theorem scaleByTen_natCast {k : ℕ} (small : k ≤ greatestPower)
    (fits : (m.mul (powerOfTen k)).overflows = false) :
    scaleByTen m k = some (m.mul (powerOfTen k)) := by
  rw [scaleByTen]
  rw [if_pos (Int.natCast_nonneg k), if_pos (by exact_mod_cast small), Int.toNat_natCast]
  dsimp only
  rw [fits]
  rfl

/-- A power of ten in the table is divided away once. -/
theorem scaleByTen_neg {k : ℕ} (some : 0 < k) (small : k ≤ greatestPower) :
    scaleByTen m (-k) = Option.some (m.div (powerOfTen k)) := by
  rw [scaleByTen]
  rw [if_neg (by omega), neg_neg, if_pos (by exact_mod_cast small), Int.toNat_natCast]

theorem code_of_zero (zero : m.significand = 0) : m.code = 0 := by
  unfold Magnitude.code
  rw [if_pos zero]

/-- A number up to a power of ten is read as one at most when that power is divided away. -/
theorem div_small {k : ℕ} (small : m.value ≤ (powerOfTen k).value) :
    (m.div (powerOfTen k)).code ≤ (nearest 1 1).code ∧ (m.div (powerOfTen k)).value ≤ 1 := by
  have power := one_le_powerOfTen k
  have spec := nearest_div m (one_pos.trans_le power)
  have below : m.value / (powerOfTen k).value ≤ 1 :=
    div_le_one_of_le₀ small (zero_le_one.trans power)
  have one := nearest_natCast 1
  rw [Nat.cast_one] at one
  constructor
  · exact spec.code_le one below
  · exact (spec.value_le one below).trans_eq nearest_one_value

/-- A number up to one stays there, also if it takes several steps. -/
theorem scaleByTen_small (small : m.value ≤ 1) {e : ℤ} (shrinks : e < 0) :
    ∃ m', scaleByTen m e = some m' ∧ m'.code ≤ (nearest 1 1).code := by
  have limit : (greatestPower : ℤ) = 308 := rfl
  induction size : e.natAbs using Nat.strongRecOn generalizing e m with
  | _ n ih =>
    rw [scaleByTen, if_neg (by omega)]
    by_cases last : -e ≤ greatestPower
    · rw [if_pos last]
      exact ⟨_, rfl, (div_small (small.trans (one_le_powerOfTen _))).1⟩
    · rw [if_neg last]
      by_cases zero : m.significand = 0
      · rw [if_pos zero]
        exact ⟨m, rfl, by rw [code_of_zero zero]; exact Nat.zero_le _⟩
      · rw [if_neg zero]
        have next := (div_small (small.trans (one_le_powerOfTen greatestPower))).2
        generalize m.div (powerOfTen greatestPower) = m' at next
        exact ih (e + greatestPower).natAbs (by omega) next (by omega) rfl

/-! ## Decimals that are not too large -/

/-- The shortest decimal of the largest float, a whole number. -/
def greatestDecimal : ℕ := 17976931348623157 * 10 ^ 292

/-- The decimals that are larger than all others which are read by a multiplication: from the power 292
on the bound leaves fewer than seventeen digits. -/
theorem mul_corners :
    ((nearest (10 ^ 17) 1).mul (powerOfTen 291)).code < 2047 * 2 ^ 52 ∧
    (∀ k < 309, 292 ≤ k →
      ((nearest (greatestDecimal / 10 ^ k) 1).mul (powerOfTen k)).code < 2047 * 2 ^ 52) ∧
    ∀ k < 3, ((nearest (100 / 10 ^ k) 1).mul (powerOfTen k)).code ≤ hundredCode := by
  decide +kernel

theorem div_corners :
    ((nearest (10 ^ 18) 1).div (powerOfTen 0)).code < 2047 * 2 ^ 52 ∧
    (∀ k < 17, ((nearest (100 * 10 ^ k) 1).div (powerOfTen k)).code ≤ hundredCode) ∧
    (nearest 1 1).code ≤ hundredCode ∧ hundredCode < 2047 * 2 ^ 52 := by
  decide +kernel

/-- What is read from a decimal with a whole power of ten. -/
theorem scaleByTen_mul {n k : ℕ} (some : 0 < n) (few : n ≤ 10 ^ 17)
    (below : n * 10 ^ k ≤ greatestDecimal) :
    ∃ m, scaleByTen (nearest n 1) k = Option.some m ∧ m.code < 2047 * 2 ^ 52 ∧
      (n * 10 ^ k ≤ 100 → m.code ≤ hundredCode) := by
  rcases mul_corners with ⟨first, later, hundred⟩
  have power : 10 ^ k ≤ n * 10 ^ k := Nat.le_mul_of_pos_left _ some
  have short : k < 17 + 292 := by
    have bound : greatestDecimal < 10 ^ 17 * 10 ^ 292 :=
      Nat.mul_lt_mul_of_pos_right (by decide) (by positivity)
    rw [← pow_add] at bound
    exact (pow_lt_pow_iff_right₀ (by decide)).mp (power.trans_lt (below.trans_lt bound))
  have finite : ((nearest n 1).mul (powerOfTen k)).code < 2047 * 2 ^ 52 := by
    by_cases small : k ≤ 291
    · exact (mul_code_le few small).trans_lt first
    · have digits : n ≤ greatestDecimal / 10 ^ k := (Nat.le_div_iff_mul_le (by positivity)).mpr below
      exact (mul_code_le digits (le_refl k)).trans_lt (later k short (by omega))
  refine ⟨_, scaleByTen_natCast (by unfold greatestPower; omega) ?_, finite, ?_⟩
  · unfold Magnitude.overflows
    rw [infinityCode_eq]
    exact decide_eq_false (by omega)
  · intro percent
    have digits : n ≤ 100 / 10 ^ k := (Nat.le_div_iff_mul_le (by positivity)).mpr percent
    have few : k < 3 := (Nat.pow_lt_pow_iff_right (by decide)).mp
      ((power.trans percent).trans_lt (show 100 < 10 ^ 3 by decide))
    exact (mul_code_le digits (le_refl k)).trans (hundred k few)

/-- What is read from a decimal with places after the point. -/
theorem scaleByTen_div {n k : ℕ} (places : 0 < k) (few : n ≤ 10 ^ 18) :
    ∃ m, scaleByTen (nearest n 1) (-k) = some m ∧ m.code < 2047 * 2 ^ 52 ∧
      (n ≤ 100 * 10 ^ k → m.code ≤ hundredCode) := by
  rcases div_corners with ⟨first, hundred, one, finite⟩
  by_cases small : k ≤ greatestPower
  · refine ⟨_, scaleByTen_neg places small, (div_code_le few (Nat.zero_le k)).trans_lt first, ?_⟩
    intro percent
    -- from sixteen places on all digits that there can be make at most a hundred
    by_cases short : k ≤ 16
    · exact (div_code_le percent (le_refl k)).trans (hundred k (by omega))
    · have digits : n ≤ 100 * 10 ^ 16 := few.trans (by decide)
      exact (div_code_le digits (show 16 ≤ k by omega)).trans (hundred 16 (by decide))
  · have tiny : ∃ m, scaleByTen (nearest n 1) (-k) = some m ∧ m.code ≤ (nearest 1 1).code := by
      rw [scaleByTen, if_neg (by omega), if_neg (by omega)]
      by_cases zero : (nearest n 1).significand = 0
      · rw [if_pos zero]
        exact ⟨_, rfl, by rw [code_of_zero zero]; exact Nat.zero_le _⟩
      · have next := (div_small (value_le_powerOfTen few (show 18 ≤ greatestPower by decide))).2
        rw [if_neg zero]
        exact scaleByTen_small next (by omega)
    rcases tiny with ⟨m, read, least⟩
    exact ⟨m, read, (least.trans one).trans_lt finite, fun _ => least.trans one⟩

/-- A decimal up to the shortest one of the largest float is read as a finite float with its sign, and a
decimal up to a hundred as a hundred at most. -/
theorem ofScaled_fits {n : ℕ} {e : ℤ} (negative : Bool) (some : 0 < n) (few : n ≤ 10 ^ 18)
    (whole : 0 ≤ e → n ≤ 10 ^ 17) (below : (n : ℚ) * 10 ^ e ≤ greatestDecimal) :
    ∃ y, ofScaled negative n e = Option.some y ∧ isNegative y = negative ∧
      codeOf y < 2047 * 2 ^ 52 ∧ ((n : ℚ) * 10 ^ e ≤ 100 → codeOf y ≤ hundredCode) := by
  have scaled : ∃ m, scaleByTen (nearest n 1) e = Option.some m ∧ m.code < 2047 * 2 ^ 52 ∧
      ((n : ℚ) * 10 ^ e ≤ 100 → m.code ≤ hundredCode) := by
    by_cases nonneg : 0 ≤ e
    · obtain ⟨k, rfl⟩ := Int.eq_ofNat_of_zero_le nonneg
      rw [zpow_natCast] at below ⊢
      rcases scaleByTen_mul some (whole nonneg) (by exact_mod_cast below) with ⟨m, read, finite, percent⟩
      exact ⟨m, read, finite, fun small => percent (by exact_mod_cast small)⟩
    · obtain ⟨k, rfl⟩ : ∃ k : ℕ, e = -(k : ℤ) := ⟨(-e).toNat, by omega⟩
      rcases scaleByTen_div (show 0 < k by omega) few with ⟨m, read, finite, percent⟩
      refine ⟨m, read, finite, fun small => percent ?_⟩
      rw [zpow_neg, zpow_natCast, ← div_eq_mul_inv, div_le_iff₀ (by positivity)] at small
      exact_mod_cast small
  rcases scaled with ⟨m, read, finite, percent⟩
  have fits : m.overflows = false := by
    unfold Magnitude.overflows
    rw [infinityCode_eq]
    exact decide_eq_false (by omega)
  rcases toFloat_code fits negative with ⟨code, sign⟩
  refine ⟨m.toFloat negative, ?_, sign, ?_, ?_⟩
  · unfold ofScaled
    rw [read]
    rfl
  · rw [code]
    exact finite
  · rw [code]
    exact percent

end CallProfiler.Decimal
