import CallProfiler.Decimal.Binary
import Mathlib

/-!
# Proofs.Decimal.Floats: floats and their bit patterns

`Decimal.magnitude` and `Magnitude.toFloat` work on bit patterns, while floats are compared by what the
patterns stand for. Both are tied together here by the code of a float, its bit pattern without the sign:
`stands` says what a float with some code stands for, and `toFloat_code` which code a float has that was
made from a magnitude. Comparisons with fixed floats then become inequalities between codes
(`zero_le_iff`, `lt_zero_iff`, `le_hundred_iff`).
-/

namespace CallProfiler.Decimal

open Float.Model Float.Model.UnpackedFloat

/-! ## The parts of a bit pattern -/

section Parts

variable (b : BitVec 64)

theorem toNat_unpackExponent :
    (@unpackExponent .binary64 b).toNat = b.toNat / 2 ^ 52 % 2 ^ 11 := by
  simp [unpackExponent, BitVec.extractLsb, Nat.shiftRight_eq_div_pow]

theorem toNat_unpackMantissa :
    (@unpackMantissa .binary64 b).toNat = b.toNat % 2 ^ 52 := by
  simp [unpackMantissa, BitVec.extractLsb]

theorem toNat_unpackSign :
    (@unpackSign .binary64 b).toNat = b.toNat / 2 ^ 63 := by
  have bound : b.toNat < 2 ^ 64 := b.isLt
  simp [unpackSign, BitVec.extractLsb, Nat.shiftRight_eq_div_pow]
  omega

/-- A packed float is its sign, its exponent and its mantissa, one above the other. -/
theorem toNat_packComponents (s : Sign) (e : BitVec 11) (m : BitVec 52) :
    (packComponents .binary64 s e m).toNat =
      s.toBitVec.toNat * 2 ^ 63 + e.toNat * 2 ^ 52 + m.toNat := by
  have he : e.toNat < 2 ^ 11 := e.isLt
  have hm : m.toNat < 2 ^ 52 := m.isLt
  unfold packComponents
  rw [BitVec.toNat_append, BitVec.toNat_append]
  rw [← Nat.shiftLeft_add_eq_or_of_lt he, ← Nat.shiftLeft_add_eq_or_of_lt hm]
  simp only [Nat.shiftLeft_eq]
  omega

end Parts

/-! ## Codes -/

/-- The bit pattern of a float without its sign. -/
def codeOf (x : Float) : Nat := x.toBits.toNat % 2 ^ 63

/-- The magnitude with a finite code. -/
def Magnitude.ofCode (code : Nat) : Magnitude :=
  if code < 2 ^ 52 then ⟨code, -1074⟩ else ⟨2 ^ 52 + code % 2 ^ 52, (code / 2 ^ 52 : Nat) - 1075⟩

/-- The significand of a code is its mantissa, with the hidden digit for a normal float. -/
theorem ofCode_significand (code : Nat) :
    (Magnitude.ofCode code).significand = if code < 2 ^ 52 then code else 2 ^ 52 + code % 2 ^ 52 := by
  unfold Magnitude.ofCode
  split <;> rfl

/-- The exponent of a code is that of its unit, and the least one for a subnormal float. -/
theorem ofCode_exponent (code : Nat) :
    (Magnitude.ofCode code).exponent =
      if code < 2 ^ 52 then (-1074 : Int) else (code / 2 ^ 52 : Nat) - 1075 := by
  unfold Magnitude.ofCode
  split <;> rfl

theorem ofCode_significand_lt (code : Nat) : (Magnitude.ofCode code).significand < 2 ^ 53 := by
  rw [ofCode_significand]
  split <;> omega

/-- Codes are in the order of exponents, and of significands where those are the same. -/
theorem ofCode_less {code code' : Nat} (less : code < code') :
    (Magnitude.ofCode code).exponent < (Magnitude.ofCode code').exponent ∨
    (Magnitude.ofCode code).exponent = (Magnitude.ofCode code').exponent ∧
      (Magnitude.ofCode code).significand < (Magnitude.ofCode code').significand := by
  simp only [ofCode_exponent, ofCode_significand]
  split <;> split <;> omega

/-- What a magnitude and a sign stand for. -/
def Magnitude.unpacked (negative : Bool) (m : Magnitude) : UnpackedFloat :=
  let sign : Sign := if negative then .negative else .positive
  if zero : m.significand = 0 then .zero sign
  else .finite sign m.significand m.exponent (Nat.pos_of_ne_zero zero)

theorem infinityCode_eq : Magnitude.infinityCode = 2047 * 2 ^ 52 := rfl

/-- A float has a magnitude if its code is less than that of infinity. -/
theorem magnitude_eq (x : Float) :
    magnitude x = if codeOf x < 2047 * 2 ^ 52 then some (.ofCode (codeOf x)) else none := by
  have same : x.toBits.toNat % (1 <<< 63) = codeOf x := rfl
  unfold magnitude Magnitude.ofCode
  rw [same, infinityCode_eq]
  generalize codeOf x = code
  dsimp only
  rw [Nat.shiftRight_eq_div_pow]
  by_cases finite : code < 2047 * 2 ^ 52
  · rw [if_neg (by omega), if_pos finite]
    by_cases small : code < 2 ^ 52
    · rw [if_pos (by omega), if_pos small]
    · rw [if_neg (by omega), if_neg small]
      rfl
  · rw [if_pos (by omega), if_neg finite]

theorem isNegative_eq (x : Float) : isNegative x = decide (2 ^ 63 ≤ x.toBits.toNat) := rfl

theorem toNat_append_one (m : BitVec 52) : (1#1 ++ m).toNat = 2 ^ 52 + m.toNat := by
  rw [BitVec.toNat_append, ← Nat.shiftLeft_add_eq_or_of_lt m.isLt]
  rfl

theorem ofBitVec_unpackSign (b : BitVec 64) :
    Sign.ofBitVec (@unpackSign .binary64 b) =
      if decide (2 ^ 63 ≤ b.toNat) then .negative else .positive := by
  have bound : b.toNat < 2 ^ 64 := b.isLt
  have top := toNat_unpackSign b
  unfold Sign.ofBitVec
  by_cases large : 2 ^ 63 ≤ b.toNat
  · have one : @unpackSign .binary64 b ≠ 0#1 := by
      intro zero
      rw [zero, BitVec.toNat_zero] at top
      omega
    rw [if_neg one, if_pos (decide_eq_true large)]
  · have zero : @unpackSign .binary64 b = 0#1 := by
      apply BitVec.eq_of_toNat_eq
      rw [top, BitVec.toNat_zero]
      omega
    rw [if_pos zero, if_neg (by simpa using large)]

/-- A finite float unpacks to the magnitude of its code. -/
theorem unpack_code (b : BitVec 64) (finite : b.toNat % 2 ^ 63 < 2047 * 2 ^ 52) :
    unpack .binary64 b =
      (Magnitude.ofCode (b.toNat % 2 ^ 63)).unpacked (decide (2 ^ 63 ≤ b.toNat)) := by
  have bound : b.toNat < 2 ^ 64 := b.isLt
  have exponent := toNat_unpackExponent b
  have mantissa := toNat_unpackMantissa b
  have sign := ofBitVec_unpackSign b
  have ordinary : @unpackExponent .binary64 b ≠ -1#11 := by
    intro full
    rw [full] at exponent
    have : (-1#11 : BitVec 11).toNat = 2047 := rfl
    omega
  unfold UnpackedFloat.unpack Magnitude.ofCode
  dsimp only
  rw [if_neg ordinary, sign]
  by_cases small : b.toNat % 2 ^ 63 < 2 ^ 52
  · have least : @unpackExponent .binary64 b = 0#11 := by
      apply BitVec.eq_of_toNat_eq
      rw [exponent, BitVec.toNat_zero]
      omega
    have digits : b.toNat % 2 ^ 63 = (@unpackMantissa .binary64 b).toNat := by omega
    rw [if_pos least, if_pos small, digits, least]
    unfold Magnitude.unpacked
    dsimp only
    by_cases zero : @unpackMantissa .binary64 b = 0#52
    · rw [dif_pos zero, dif_pos (by rw [zero]; rfl)]
    · have some : (@unpackMantissa .binary64 b).toNat ≠ 0 := fun none =>
        zero (BitVec.eq_of_toNat_eq none)
      rw [dif_neg zero, dif_neg some]
      rfl
  · have more : @unpackExponent .binary64 b ≠ 0#11 := by
      intro least
      rw [least, BitVec.toNat_zero] at exponent
      omega
    have digits : 2 ^ 52 + b.toNat % 2 ^ 63 % 2 ^ 52 =
        (1#1 ++ @unpackMantissa .binary64 b).toNat := by
      rw [toNat_append_one]
      omega
    have field : b.toNat % 2 ^ 63 / 2 ^ 52 = (@unpackExponent .binary64 b).toNat := by
      omega
    rw [if_neg more, if_neg small, digits, field]
    unfold Magnitude.unpacked
    dsimp only
    rw [dif_neg (by omega)]
    rfl

/-- A float that is not finite unpacks to an infinity or to no number. -/
theorem unpack_special (b : BitVec 64) (special : 2047 * 2 ^ 52 ≤ b.toNat % 2 ^ 63) :
    unpack .binary64 b =
      if b.toNat % 2 ^ 63 = 2047 * 2 ^ 52 then
        .infinity (if decide (2 ^ 63 ≤ b.toNat) then .negative else .positive)
      else .notANumber := by
  have exponent := toNat_unpackExponent b
  have mantissa := toNat_unpackMantissa b
  have full : @unpackExponent .binary64 b = -1#11 := by
    apply BitVec.eq_of_toNat_eq
    rw [exponent]
    show _ = 2047
    omega
  unfold UnpackedFloat.unpack
  dsimp only
  rw [if_pos full, ofBitVec_unpackSign]
  by_cases infinite : b.toNat % 2 ^ 63 = 2047 * 2 ^ 52
  · have zero : @unpackMantissa .binary64 b = 0#52 := by
      apply BitVec.eq_of_toNat_eq
      rw [mantissa, BitVec.toNat_zero]
      omega
    rw [if_pos zero, if_pos infinite]
  · have some : @unpackMantissa .binary64 b ≠ 0#52 := by
      intro zero
      rw [zero, BitVec.toNat_zero] at mantissa
      omega
    rw [if_neg some, if_neg infinite]

/-- The bit of a sign. -/
def signBit (negative : Bool) : Nat := if negative then 2 ^ 63 else 0

theorem signBit_false : signBit false = 0 := rfl

theorem signBit_true : signBit true = 2 ^ 63 := rfl

/-- A code and a sign are found again in their bit pattern. -/
theorem code_add_signBit {code : Nat} (finite : code < 2047 * 2 ^ 52) (negative : Bool) :
    (code + signBit negative) % 2 ^ 63 = code ∧
    decide (2 ^ 63 ≤ code + signBit negative) = negative := by
  cases negative with
  | false =>
    rw [signBit_false]
    exact ⟨by omega, decide_eq_false (by omega)⟩
  | true =>
    rw [signBit_true]
    exact ⟨by omega, decide_eq_true (by omega)⟩

theorem sign_toBitVec (negative : Bool) :
    (if negative then Sign.negative else Sign.positive).toBitVec.toNat * 2 ^ 63 =
      signBit negative := by
  cases negative <;> rfl

/-- The magnitude of a code packs to that code and its sign. -/
theorem pack_code {code : Nat} (finite : code < 2047 * 2 ^ 52) (negative : Bool) :
    (UnpackedFloat.pack .binary64 ((Magnitude.ofCode code).unpacked negative)).toNat =
      code + signBit negative := by
  have bits : Format.binary64.mantissaBits = 53 := rfl
  have bias : (Format.binary64.exponentBias : Int) = 1023 := rfl
  unfold Magnitude.unpacked Magnitude.ofCode
  dsimp only
  by_cases small : code < 2 ^ 52
  · rw [if_pos small]
    dsimp only
    by_cases zero : code = 0
    · rw [dif_pos zero, zero]
      cases negative <;> rfl
    · have short : ¬ code.log2 + 1 = 53 := by
        have := (Nat.log2_lt zero).mpr small
        omega
      rw [dif_neg zero]
      unfold UnpackedFloat.pack
      dsimp only
      rw [bits, bias, if_neg (by decide), if_neg short, toNat_packComponents, sign_toBitVec]
      rw [BitVec.toNat_zero, BitVec.toNat_ofNat, Nat.mod_eq_of_lt small]
      omega
  · have long : (2 ^ 52 + code % 2 ^ 52).log2 + 1 = 53 := by
      have least := (Nat.le_log2 (show 2 ^ 52 + code % 2 ^ 52 ≠ 0 by omega)).mpr
        (show 2 ^ 52 ≤ 2 ^ 52 + code % 2 ^ 52 by omega)
      have most := (Nat.log2_lt (show 2 ^ 52 + code % 2 ^ 52 ≠ 0 by omega)).mpr
        (show 2 ^ 52 + code % 2 ^ 52 < 2 ^ 53 by omega)
      omega
    have field : (((code / 2 ^ 52 : Nat) : Int) - 1075 + 1023 + (52 : Nat)).toNat = code / 2 ^ 52 := by
      omega
    rw [if_neg small]
    dsimp only
    rw [dif_neg (by omega)]
    unfold UnpackedFloat.pack
    dsimp only
    rw [bits, bias, field, if_neg (by omega), if_pos long, toNat_packComponents, sign_toBitVec]
    rw [BitVec.toNat_ofNat, BitVec.toNat_ofNat]
    omega

/-- The bits of a finite float are the code and the sign it was made of. -/
theorem toNat_toBits_ofBits {code : Nat} (finite : code < 2047 * 2 ^ 52) (negative : Bool) :
    (Float.ofBits (UInt64.ofNat (code + signBit negative))).toBits.toNat = code + signBit negative := by
  rcases code_add_signBit finite negative with ⟨rest, sign⟩
  have small : code + signBit negative < 2 ^ 64 := by
    cases negative with
    | false =>
      rw [signBit_false]
      omega
    | true =>
      rw [signBit_true]
      omega
  have pattern : (UInt64.ofNat (code + signBit negative)).toBitVec.toNat = code + signBit negative :=
    Nat.mod_eq_of_lt small
  show (UnpackedFloat.pack .binary64 (UnpackedFloat.unpack .binary64
    (UInt64.ofNat (code + signBit negative)).toBitVec)).toNat = _
  rw [unpack_code _ (by rw [pattern, rest]; exact finite), pattern, rest, sign]
  exact pack_code finite negative

/-- A float that was made from a magnitude which is not too large has its code and its sign. -/
theorem toFloat_code {m : Magnitude} (fits : m.overflows = false) (negative : Bool) :
    codeOf (m.toFloat negative) = m.code ∧ isNegative (m.toFloat negative) = negative := by
  have finite : m.code < 2047 * 2 ^ 52 := by
    unfold Magnitude.overflows at fits
    rw [infinityCode_eq] at fits
    simpa using fits
  have bits : (m.toFloat negative).toBits.toNat = m.code + signBit negative :=
    toNat_toBits_ofBits finite negative
  rw [isNegative_eq]
  unfold codeOf
  rw [bits]
  exact code_add_signBit finite negative

/-! ## Comparisons -/

/-- The sign of a float. -/
def signOf (x : Float) : Sign := if isNegative x then .negative else .positive

theorem signOf_cases (x : Float) :
    (isNegative x = false ∧ signOf x = .positive) ∨ (isNegative x = true ∧ signOf x = .negative) := by
  unfold signOf
  cases isNegative x with
  | false => exact .inl ⟨rfl, rfl⟩
  | true => exact .inr ⟨rfl, rfl⟩

/-- What a float stands for, by its code. -/
inductive Stands (x : Float) : UnpackedFloat → Prop where
  | zero : codeOf x = 0 → Stands x (.zero (signOf x))
  | finite (pos : 0 < (Magnitude.ofCode (codeOf x)).significand) : 0 < codeOf x →
      codeOf x < 2047 * 2 ^ 52 →
      Stands x (.finite (signOf x) _ (Magnitude.ofCode (codeOf x)).exponent pos)
  | infinity : codeOf x = 2047 * 2 ^ 52 → Stands x (.infinity (signOf x))
  | notANumber : 2047 * 2 ^ 52 < codeOf x → Stands x .notANumber

/-- Every float stands for what its code says. -/
theorem stands (x : Float) : Stands x x.toModel.unpack := by
  by_cases finite : codeOf x < 2047 * 2 ^ 52
  · have unpacked : x.toModel.unpack = (Magnitude.ofCode (codeOf x)).unpacked (isNegative x) :=
      unpack_code x.toBits.toBitVec finite
    have digits := ofCode_significand (codeOf x)
    rw [unpacked]
    unfold Magnitude.unpacked
    dsimp only
    split
    · refine .zero ?_
      split at digits <;> omega
    · next some =>
      refine .finite _ ?_ finite
      apply Nat.pos_of_ne_zero
      intro zero
      apply some
      rw [digits, zero]
      rfl
  · have unpacked : x.toModel.unpack =
        if codeOf x = 2047 * 2 ^ 52 then .infinity (signOf x) else .notANumber :=
      unpack_special x.toBits.toBitVec (Nat.le_of_not_lt finite)
    rw [unpacked]
    split
    · next infinite => exact .infinity infinite
    · exact .notANumber (by omega)

/-- A float is no number if its code is greater than that of infinity. -/
theorem isNaN_iff (x : Float) : x.isNaN = true ↔ 2047 * 2 ^ 52 < codeOf x := by
  have found := stands x
  unfold Float.isNaN Float.Model.isNaN
  generalize x.toModel.unpack = u at found
  cases found with
  | zero none => exact iff_of_false Bool.false_ne_true (by omega)
  | finite _ _ finite => exact iff_of_false Bool.false_ne_true (by omega)
  | infinity infinite => exact iff_of_false Bool.false_ne_true (by omega)
  | notANumber beyond => exact iff_of_true rfl beyond

/-- A float is finite if its code is less than that of infinity. -/
theorem isFinite_iff (x : Float) : x.isFinite = true ↔ codeOf x < 2047 * 2 ^ 52 := by
  have found := stands x
  unfold Float.isFinite Float.Model.isFinite
  generalize x.toModel.unpack = u at found
  cases found with
  | zero none => exact iff_of_true rfl (by omega)
  | finite _ _ finite => exact iff_of_true rfl finite
  | infinity infinite => exact iff_of_false Bool.false_ne_true (by omega)
  | notANumber beyond => exact iff_of_false Bool.false_ne_true (by omega)

/-- Comparing with zero is looking at the sign, unless the float is a zero itself. -/
theorem zero_le_iff (x : Float) :
    0.0 ≤ x ↔ codeOf x ≤ 2047 * 2 ^ 52 ∧ (isNegative x = true → codeOf x = 0) := by
  have found := stands x
  have unpacked : 0.0 ≤ x ↔ (UnpackedFloat.zero .positive).le x.toModel.unpack = true := by
    show decide ((0.0 : Float).toModel ≤ x.toModel) = true ↔ _
    rw [decide_eq_true_iff]
    rfl
  rw [unpacked]
  generalize x.toModel.unpack = u at found
  rcases signOf_cases x with ⟨negative, sign⟩ | ⟨negative, sign⟩
  · have none : isNegative x = true → codeOf x = 0 := fun h => absurd (negative.symm.trans h) (by simp)
    cases found with
    | zero code => exact iff_of_true rfl ⟨by omega, none⟩
    | finite _ some finite =>
      rw [sign]
      exact iff_of_true rfl ⟨by omega, none⟩
    | infinity infinite =>
      rw [sign]
      exact iff_of_true rfl ⟨by omega, none⟩
    | notANumber beyond => exact iff_of_false Bool.false_ne_true fun h => by omega
  · cases found with
    | zero code => exact iff_of_true rfl ⟨by omega, fun _ => code⟩
    | finite _ some finite =>
      rw [sign]
      exact iff_of_false Bool.false_ne_true fun h => by have := h.2 negative; omega
    | infinity infinite =>
      rw [sign]
      exact iff_of_false Bool.false_ne_true fun h => by have := h.2 negative; omega
    | notANumber beyond => exact iff_of_false Bool.false_ne_true fun h => by omega

/-- A float is less than zero if it has a sign and is a number other than zero. -/
theorem lt_zero_iff (x : Float) :
    x < 0.0 ↔ codeOf x ≤ 2047 * 2 ^ 52 ∧ isNegative x = true ∧ codeOf x ≠ 0 := by
  have found := stands x
  have unpacked : x < 0.0 ↔ x.toModel.unpack.lt (.zero .positive) = true := by
    show decide (x.toModel < (0.0 : Float).toModel) = true ↔ _
    rw [decide_eq_true_iff]
    rfl
  rw [unpacked]
  generalize x.toModel.unpack = u at found
  rcases signOf_cases x with ⟨negative, sign⟩ | ⟨negative, sign⟩
  · rw [negative]
    cases found with
    | zero code => exact iff_of_false Bool.false_ne_true (by simp)
    | finite _ some finite =>
      rw [sign]
      exact iff_of_false Bool.false_ne_true (by simp)
    | infinity infinite =>
      rw [sign]
      exact iff_of_false Bool.false_ne_true (by simp)
    | notANumber beyond => exact iff_of_false Bool.false_ne_true (by simp)
  · cases found with
    | zero code => exact iff_of_false Bool.false_ne_true fun h => h.2.2 code
    | finite _ some finite =>
      rw [sign]
      exact iff_of_true rfl ⟨by omega, negative, by omega⟩
    | infinity infinite =>
      rw [sign]
      exact iff_of_true rfl ⟨by omega, negative, by omega⟩
    | notANumber beyond => exact iff_of_false Bool.false_ne_true fun h => by omega

/-- Positive floats compare by their exponents, and with the same exponent by their significands. -/
theorem finite_le_iff {m m' : Nat} {e e' : Int} (pos : 0 < m) (pos' : 0 < m') :
    (UnpackedFloat.finite .positive m e pos).le (.finite .positive m' e' pos') = true ↔
      e < e' ∨ e = e' ∧ m ≤ m' := by
  show ((compare e e').then (compare m m')).isLE = true ↔ _
  rcases lt_trichotomy e e' with less | rfl | greater
  · rw [compare_lt_iff_lt.mpr less]
    exact iff_of_true rfl (.inl less)
  · rw [compare_eq_iff_eq.mpr rfl]
    show (compare m m').isLE = true ↔ _
    rw [Nat.isLE_compare]
    omega
  · rw [compare_gt_iff_gt.mpr greater]
    exact iff_of_false Bool.false_ne_true (by omega)

/-- The code of a hundred. -/
def hundredCode : Nat := 1029 * 2 ^ 52 + 9 * 2 ^ 48

/-- A float that is not below zero is at most a hundred if its code is. -/
theorem le_hundred_iff {x : Float} (sign : isNegative x = true → codeOf x = 0) :
    x ≤ 100.0 ↔ codeOf x ≤ hundredCode := by
  have found := stands x
  have unpacked : x ≤ 100.0 ↔
      x.toModel.unpack.le (.finite .positive (25 * 2 ^ 48) (-46) (by decide)) = true := by
    show decide (x.toModel ≤ (100.0 : Float).toModel) = true ↔ _
    rw [decide_eq_true_iff]
    rfl
  have positive (some : codeOf x ≠ 0) : signOf x = .positive := by
    unfold signOf
    rw [if_neg (mt sign some)]
  rw [unpacked]
  unfold hundredCode
  generalize x.toModel.unpack = u at found
  cases found with
  | zero code => exact iff_of_true rfl (by omega)
  | finite pos some finite =>
    rw [positive (by omega), finite_le_iff]
    unfold Magnitude.ofCode
    split
    · exact iff_of_true (.inl (show (-1074 : Int) < -46 by decide)) (by omega)
    · dsimp only
      omega
  | infinity infinite =>
    rw [positive (by omega)]
    exact iff_of_false Bool.false_ne_true (by omega)
  | notANumber beyond => exact iff_of_false Bool.false_ne_true (by omega)

end CallProfiler.Decimal
