import CallProfiler.Proofs.Decimal.Scaling
import CallProfiler.Proofs.Decimal.Shortest
import CallProfiler.Proofs.Json.Pieces

/-!
# Proofs.Json.Floats: floats are read from what was written for them

A float is written with its point at one of three places, or with an exponent. Whichever it is, the digits
before and after the point are those of the shortest decimal, with zeros around them, and the reader comes
to this decimal (`layout_reads`). Of what is read then, `readFloat_float` says what is needed to go on: it
is finite, has the sign of what was written, and is a hundred at most if that was.
-/

namespace CallProfiler.Json

open Decimal

/-! ## Digits -/

/-- The number that comes of another one when digits are appended. -/
def continued (start : Nat) (digits : List Char) : Nat :=
  digits.foldl (fun n c => n * 10 + digitValue c) start

/-- To go on with digits and then with more is to go on with all of them. -/
theorem continued_append (start : Nat) (cs ds : List Char) :
    continued start (cs ++ ds) = continued (continued start cs) ds := List.foldl_append

theorem le_continued (start : Nat) (cs : List Char) : start ≤ continued start cs := by
  induction cs generalizing start with
  | nil => exact Nat.le_refl start
  | cons c cs ih =>
    have next := ih (start * 10 + digitValue c)
    show start ≤ continued (start * 10 + digitValue c) cs
    omega

theorem continued_zeros (start k : Nat) :
    continued start (List.replicate k '0') = start * 10 ^ k := by
  induction k generalizing start with
  | zero => exact (Nat.mul_one start).symm
  | succ k ih =>
    show continued (start * 10 + digitValue '0') (List.replicate k '0') = _
    rw [ih, pow_succ]
    show (start * 10 + 0) * 10 ^ k = _
    ring

/-- The digits of a number stand for it. -/
theorem continued_natural (n : Nat) : continued 0 (natural n) = n := by
  induction n using Nat.strongRecOn with
  | _ n ih =>
    rcases Nat.lt_or_ge n 10 with short | long
    · rw [natural_digit short]
      show 0 * 10 + digitValue (Nat.digitChar n) = n
      rw [digitValue_digitChar short]
      omega
    · rw [natural_step long, continued_append, ih (n / 10) (by omega)]
      show n / 10 * 10 + digitValue (Nat.digitChar (n % 10)) = n
      rw [digitValue_digitChar (by omega)]
      omega

/-- All digits are appended as long as the number fits. -/
theorem appendDigits_continued {start : Nat} {cs : List Char}
    (fits : continued start cs < UInt64.size) : appendDigits start cs = (continued start cs, []) := by
  induction cs generalizing start with
  | nil => rfl
  | cons c cs ih =>
    have next := le_continued (start * 10 + digitValue c) cs
    have fits' : continued (start * 10 + digitValue c) cs < UInt64.size := fits
    rw [appendDigits, if_pos (next.trans_lt fits'), ih fits']
    rfl

theorem continued_int (start : Nat) (cs : List Char) :
    cs.foldl (fun (n : Int) c => n * 10 + digitValue c) start = continued start cs := by
  induction cs generalizing start with
  | nil => rfl
  | cons c cs ih => exact_mod_cast ih (start * 10 + digitValue c)

/-- Digits are split off up to the first character that is none. -/
theorem splitDigits_append {cs rest : List Char} (digits : ∀ c ∈ cs, c.isDigit = true)
    (ends : ∀ c ∈ rest.head?, c.isDigit = false) : splitDigits (cs ++ rest) = (cs, rest) := by
  have stop : rest.takeWhile Char.isDigit = [] ∧ rest.dropWhile Char.isDigit = rest := by
    cases rest with
    | nil => exact ⟨rfl, rfl⟩
    | cons c rest =>
      have other := ends c rfl
      constructor
      · rw [List.takeWhile_cons, other]
        rfl
      · rw [List.dropWhile_cons, other]
        rfl
  unfold splitDigits
  rw [List.takeWhile_append_of_pos digits, List.dropWhile_append_of_pos digits, stop.1, stop.2,
    List.append_nil]

theorem ends_of_delimited {rest : List Char} (ends : Delimited rest) :
    ∀ c ∈ rest.head?, c.isDigit = false := by
  intro c hc
  rcases ends c hc with rfl | rfl | rfl <;> rfl

theorem ends_cons {c : Char} (other : c.isDigit = false) (rest : List Char) :
    ∀ d ∈ (c :: rest).head?, d.isDigit = false := by
  intro d hd
  obtain rfl := Option.some.inj hd
  exact other

/-! ## Parts of a number -/

section Parts

variable {negative : Bool} {significand : Nat} {exponent : Int} {cs ds rest : List Char}

/-- The exponent part after its mark. -/
theorem readExponent_written (shrinks : Bool) (power : Nat) (ends : Delimited rest) :
    readExponent negative significand exponent
        ((if shrinks then '-' else '+') :: (natural power ++ rest)) =
      (scaledNumber negative significand
        (if shrinks then exponent - power else exponent + power)).map (·, rest) := by
  have split := splitDigits_append (fun c => isDigit_of_mem_natural (n := power)) (ends_of_delimited ends)
  have value : (natural power).foldl (fun (n : Int) c => n * 10 + digitValue c) 0 = power := by
    have nat := continued_int 0 (natural power)
    rwa [continued_natural] at nat
  have some := List.isEmpty_eq_false_iff.mpr (natural_ne_nil power)
  have signed (c : Char) (sign : c = if shrinks then '-' else '+') :
      (if c = '-' then (true, natural power ++ rest)
        else if c = '+' then (false, natural power ++ rest)
        else (false, c :: (natural power ++ rest))) = (shrinks, natural power ++ rest) := by
    rw [sign]
    cases shrinks <;> rfl
  unfold readExponent
  generalize sign : (if shrinks then '-' else '+') = c
  dsimp only
  rw [signed c sign.symm]
  dsimp only
  rw [split]
  dsimp only
  rw [some, value]
  rfl

/-- The fraction after its point, up to the end of the number. -/
theorem readFraction_written (digits : ∀ c ∈ cs, c.isDigit = true) (some : cs ≠ [])
    (fits : continued significand cs < UInt64.size) (ends : Delimited rest) :
    readFraction negative significand exponent (cs ++ rest) =
      (scaledNumber negative (continued significand cs) (exponent - cs.length)).map (·, rest) := by
  unfold readFraction
  rw [splitDigits_append digits (ends_of_delimited ends)]
  dsimp only
  rw [List.isEmpty_eq_false_iff.mpr some, appendDigits_continued fits]
  dsimp only [List.length_nil, Nat.sub_zero, Bool.false_eq_true, if_false]
  cases rest with
  | nil => rfl
  | cons c rest =>
    -- what follows is no mark of an exponent
    have unmarked : marksExponent c = false := by
      rcases ends c rfl with rfl | rfl | rfl <;> rfl
    dsimp only
    rw [unmarked]
    rfl

/-- The fraction after its point, up to the mark of the exponent part. -/
theorem readFraction_marked (digits : ∀ c ∈ cs, c.isDigit = true) (some : cs ≠ [])
    (fits : continued significand cs < UInt64.size) :
    readFraction negative significand exponent (cs ++ 'e' :: rest) =
      readExponent negative (continued significand cs) (exponent - cs.length) rest := by
  unfold readFraction
  rw [splitDigits_append digits (ends_cons rfl rest)]
  dsimp only
  rw [List.isEmpty_eq_false_iff.mpr some, appendDigits_continued fits]
  rfl

/-- Digits before a point or a mark: there are some, and a zero is not followed by others. -/
structure Leading (cs : List Char) : Prop where
  digits : ∀ c ∈ cs, c.isDigit = true
  some : cs ≠ []
  alone : ∀ ds, cs = '0' :: ds → ds = []

/-- What is before the point or the mark of the exponent part. -/
theorem readNumber_leading (leading : Leading cs) (fits : continued 0 cs < UInt64.size) {c : Char}
    (goesOn : c = '.' ∨ c = 'e') :
    readNumber negative (cs ++ c :: rest) =
      if c = '.' then readFraction negative (continued 0 cs) 0 rest
      else readExponent negative (continued 0 cs) 0 rest := by
  have other : c.isDigit = false := by
    rcases goesOn with rfl | rfl <;> rfl
  unfold readNumber
  rw [splitDigits_append leading.digits (ends_cons other rest)]
  dsimp only
  split
  · exact absurd rfl leading.some
  · next first others =>
    have proper : ¬ (first = '0' ∧ others ≠ []) := by
      rintro ⟨rfl, more⟩
      exact more (leading.alone others rfl)
    rw [if_neg proper, appendDigits_continued fits]
    rcases goesOn with rfl | rfl <;> rfl

end Parts

/-! ## Layouts -/

/-- A text that is read as a decimal, with either sign in front of it. -/
def Reads (text : List Char) (n : Nat) (e : Int) : Prop :=
  ∀ (negative : Bool) (rest : List Char), Delimited rest →
    readNumber negative (text ++ rest) = (scaledNumber negative n e).map (·, rest)

/-- Digits, a point and more digits. -/
theorem reads_point {cs ds : List Char} (leading : Leading cs) (digits : ∀ c ∈ ds, c.isDigit = true)
    (some : ds ≠ []) (fits : continued 0 (cs ++ ds) < UInt64.size) :
    Reads (cs ++ '.' :: ds) (continued 0 (cs ++ ds)) (-ds.length) := by
  rw [continued_append] at fits ⊢
  have fits' := (le_continued (continued 0 cs) ds).trans_lt fits
  intro negative rest ends
  rw [List.append_assoc, List.cons_append, readNumber_leading leading fits' (.inl rfl), if_pos rfl,
    readFraction_written digits some fits ends, Int.zero_sub]

/-- Digits, a point, more digits and an exponent. -/
theorem reads_scientific {cs ds : List Char} (leading : Leading cs) (digits : ∀ c ∈ ds, c.isDigit = true)
    (fits : continued 0 (cs ++ ds) < UInt64.size) (shrinks : Bool) (power : Nat) :
    Reads (cs ++ (if ds.isEmpty then [] else '.' :: ds) ++
        'e' :: (if shrinks then '-' else '+') :: natural power)
      (continued 0 (cs ++ ds)) (if shrinks then -ds.length - power else -ds.length + power) := by
  rw [continued_append] at fits ⊢
  have fits' := (le_continued (continued 0 cs) ds).trans_lt fits
  intro negative rest ends
  have marked : 'e' :: (if shrinks then '-' else '+') :: natural power ++ rest =
      'e' :: (if shrinks then '-' else '+') :: (natural power ++ rest) := rfl
  rw [List.append_assoc, List.append_assoc, marked]
  cases ds with
  | nil =>
    rw [List.isEmpty_nil, if_pos rfl, List.nil_append, readNumber_leading leading fits' (.inr rfl),
      if_neg (by decide), readExponent_written shrinks power ends]
    rfl
  | cons d ds =>
    rw [List.isEmpty_cons, if_neg (by decide), List.cons_append,
      readNumber_leading leading fits' (.inl rfl), if_pos rfl,
      readFraction_marked digits (List.cons_ne_nil d ds) fits, readExponent_written shrinks power ends,
      Int.zero_sub]

section Layouts

variable {n : Nat} {e : Int}

/-- The digits of a number that is not zero may lead, with zeros behind them. -/
theorem leading_natural (some : 0 < n) (zeros : Nat) :
    Leading (natural n ++ List.replicate zeros '0') where
  digits := by
    intro c hc
    rcases List.mem_append.mp hc with digit | zero
    · exact isDigit_of_mem_natural digit
    · rw [List.eq_of_mem_replicate zero]
      rfl
  some := by
    intro none
    exact natural_ne_nil n (List.append_eq_nil_iff.mp none).1
  alone := by
    intro ds zero
    obtain ⟨c, cs, digits⟩ := List.exists_cons_of_ne_nil (natural_ne_nil n)
    have first := head_natural some
    rw [digits] at first zero
    exact absurd (congrArg List.head? zero) first

/-- The first digits of a number that is not zero. -/
theorem leading_take (some : 0 < n) {k : Nat} (positive : 0 < k) : Leading ((natural n).take k) where
  digits := by
    intro c hc
    exact isDigit_of_mem_natural (List.mem_of_mem_take hc)
  some := by
    intro none
    rcases List.take_eq_nil_iff.mp none with zero | none
    · omega
    · exact natural_ne_nil n none
  alone := by
    intro ds zero
    have first := head_natural some
    obtain ⟨c, cs, digits⟩ := List.exists_cons_of_ne_nil (natural_ne_nil n)
    obtain ⟨k, rfl⟩ : ∃ j, k = j + 1 := ⟨k - 1, by omega⟩
    rw [digits] at first zero
    exact absurd (congrArg List.head? zero) first

theorem isDigit_of_mem_zero : ∀ c ∈ ['0'], c.isDigit = true := List.forall_mem_singleton.mpr rfl

theorem leading_zero : Leading ['0'] where
  digits := isDigit_of_mem_zero
  some := List.cons_ne_nil _ _
  alone := by
    intro ds same
    exact (List.cons.inj same).2.symm

/-- A whole number in positional notation is read with one place, which is zero. -/
theorem layoutPositional_whole (some : 0 < n) (k : Nat) (fits : n * 10 ^ (k + 1) < UInt64.size) :
    Reads (layoutPositional true (natural n) k) (n * 10 ^ (k + 1)) (-1) := by
  have value : continued 0 (natural n ++ List.replicate k '0' ++ ['0']) = n * 10 ^ (k + 1) := by
    rw [List.append_assoc, ← List.replicate_succ', continued_append, continued_natural,
      continued_zeros]
  have reads := reads_point (leading_natural some k) isDigit_of_mem_zero (by decide)
    (by rw [value]; exact fits)
  rw [value] at reads
  unfold layoutPositional
  rw [if_pos (Int.natCast_nonneg k), Int.toNat_natCast]
  exact reads

/-- A number with its point among the digits is read as these digits and its exponent. -/
theorem layoutPositional_inside (some : 0 < n) (fits : n < UInt64.size) (negative : e < 0)
    (point : 0 < (natural n).length + e) : Reads (layoutPositional true (natural n) e) n e := by
  have value : continued 0 ((natural n).take ((natural n).length + e).toNat ++
      (natural n).drop ((natural n).length + e).toNat) = n := by
    rw [List.take_append_drop, continued_natural]
  have length : ((natural n).drop ((natural n).length + e).toNat).length = (-e).toNat := by
    rw [List.length_drop]
    omega
  have digits : ∀ c ∈ (natural n).drop ((natural n).length + e).toNat, c.isDigit = true := by
    intro c hc
    exact isDigit_of_mem_natural (List.mem_of_mem_drop hc)
  have some' : (natural n).drop ((natural n).length + e).toNat ≠ [] := by
    intro none
    rw [none, List.length_nil] at length
    omega
  have reads := reads_point (leading_take some (show 0 < ((natural n).length + e).toNat by omega)) digits
    some' (by rw [value]; exact fits)
  rw [value, length, Int.toNat_of_nonneg (by omega), Int.neg_neg] at reads
  unfold layoutPositional
  dsimp only
  rw [if_neg (by omega), if_pos point]
  exact reads

/-- A number with its point before the digits is read as these digits and its exponent. -/
theorem layoutPositional_small (fits : n < UInt64.size) (negative : e < 0)
    (point : (natural n).length + e ≤ 0) : Reads (layoutPositional true (natural n) e) n e := by
  have value : continued 0 (['0'] ++ (List.replicate (-((natural n).length + e)).toNat '0' ++ natural n)) =
      n := by
    rw [← List.append_assoc, ← List.replicate_one, ← List.replicate_add, continued_append, continued_zeros,
      Nat.zero_mul, continued_natural]
  have length : (List.replicate (-((natural n).length + e)).toNat '0' ++ natural n).length =
      (-e).toNat := by
    rw [List.length_append, List.length_replicate]
    omega
  have digits : ∀ c ∈ List.replicate (-((natural n).length + e)).toNat '0' ++ natural n,
      c.isDigit = true := by
    intro c hc
    rcases List.mem_append.mp hc with zero | digit
    · rw [List.eq_of_mem_replicate zero]
      rfl
    · exact isDigit_of_mem_natural digit
  have reads := reads_point leading_zero digits (by simp [natural_ne_nil]) (by rw [value]; exact fits)
  rw [value, length, Int.toNat_of_nonneg (by omega), Int.neg_neg] at reads
  unfold layoutPositional
  dsimp only
  rw [if_neg (by omega), if_neg (by omega)]
  exact reads

/-- A number in scientific notation is read as its digits and its exponent. -/
theorem layoutScientific_reads (some : 0 < n) (fits : n < UInt64.size) (e : Int) :
    Reads (layoutScientific true (natural n) (e + (natural n).length - 1)) n e := by
  have value : continued 0 ((natural n).take 1 ++ (natural n).drop 1) = n := by
    rw [List.take_append_drop, continued_natural]
  have digits : ∀ c ∈ (natural n).drop 1, c.isDigit = true := by
    intro c hc
    exact isDigit_of_mem_natural (List.mem_of_mem_drop hc)
  have positive := List.length_pos_iff.mpr (natural_ne_nil n)
  have reads := reads_scientific (leading_take some Nat.one_pos) digits (by rw [value]; exact fits)
    (decide (e + (natural n).length - 1 < 0)) (e + (natural n).length - 1).natAbs
  have exponent : (if decide (e + (natural n).length - 1 < 0) = true
      then -(((natural n).drop 1).length : Int) - (e + (natural n).length - 1).natAbs
      else -(((natural n).drop 1).length : Int) + (e + (natural n).length - 1).natAbs) = e := by
    rw [List.length_drop]
    by_cases shrinks : e + (natural n).length - 1 < 0
    · rw [if_pos (decide_eq_true shrinks)]
      omega
    · rw [if_neg (by simpa using shrinks)]
      omega
  rw [value, exponent] at reads
  have mark : (if e + (natural n).length - 1 < 0 then ['e', '-'] else if true then ['e', '+'] else ['e']) =
      ['e', if decide (e + (natural n).length - 1 < 0) then '-' else '+'] := by
    by_cases shrinks : e + (natural n).length - 1 < 0
    · rw [if_pos shrinks, decide_eq_true shrinks]
      rfl
    · rw [if_neg shrinks, decide_eq_false shrinks]
      rfl
  unfold layoutScientific
  dsimp only
  rw [mark, List.append_assoc]
  exact reads

/-! ## The text of a float -/

theorem lt_pow_length (n : Nat) : n < 10 ^ (natural n).length := by
  induction n using Nat.strongRecOn with
  | _ n ih =>
    rcases Nat.lt_or_ge n 10 with short | long
    · rw [natural_digit short]
      exact short
    · have tenth := ih (n / 10) (by omega)
      rw [natural_step long, List.length_append, List.length_singleton, pow_succ]
      omega

/-- The shortest decimal is read from its text. -/
theorem layout_reads {d : Digits} (some : 0 < d.digits) (few : d.digits ≤ 10 ^ 17) :
    ∃ (n : Nat) (e : Int), (n : ℚ) * 10 ^ e = d.value ∧ 0 < n ∧ n ≤ 10 ^ 18 ∧ (0 ≤ e → n ≤ 10 ^ 17) ∧
      Reads (FloatNotation.json.layout d) n e := by
  have fits : d.digits < UInt64.size := few.trans_lt (by decide)
  have itself : (d.digits : ℚ) * 10 ^ d.exponent = d.value := rfl
  have json : FloatNotation.json.layout d =
      if -5 ≤ d.exponent + (natural d.digits).length - 1 ∧
          d.exponent + (natural d.digits).length - 1 ≤ 15 then
        layoutPositional true (natural d.digits) d.exponent
      else layoutScientific true (natural d.digits) (d.exponent + (natural d.digits).length - 1) := by
    unfold FloatNotation.layout FloatNotation.json
    dsimp only
    simp only [decide_eq_true_eq]
    rfl
  rw [json]
  split
  · next positional =>
    by_cases whole : 0 ≤ d.exponent
    · obtain ⟨k, power⟩ := Int.eq_ofNat_of_zero_le whole
      have small : d.digits * 10 ^ (k + 1) < 10 ^ 17 := by
        have places : 10 ^ (natural d.digits).length * 10 ^ (k + 1) ≤ 10 ^ 17 := by
          rw [← pow_add]
          exact Nat.pow_le_pow_right (by decide) (by omega)
        exact (Nat.mul_lt_mul_of_pos_right (lt_pow_length d.digits) (by positivity)).trans_le places
      refine ⟨d.digits * 10 ^ (k + 1), -1, ?_, by positivity, by omega, by omega, ?_⟩
      · unfold Digits.value
        rw [power, zpow_natCast, pow_succ]
        push_cast
        ring
      · rw [power]
        exact layoutPositional_whole some k (small.trans (by decide))
    · refine ⟨d.digits, d.exponent, itself, some, few.trans (by decide), fun _ => few, ?_⟩
      by_cases point : 0 < (natural d.digits).length + d.exponent
      · exact layoutPositional_inside some fits (by omega) point
      · exact layoutPositional_small fits (by omega) (by omega)
  · exact ⟨d.digits, d.exponent, itself, some, few.trans (by decide), fun _ => few,
      layoutScientific_reads some fits d.exponent⟩

end Layouts

/-! ## Reading it -/

/-- What is read as a number starts with a digit. -/
theorem isDigit_of_readNumber {negative : Bool} {input : List Char} {answer : Number × List Char}
    (read : readNumber negative input = .ok answer) :
    ∃ c cs, input = c :: cs ∧ c.isDigit = true := by
  unfold readNumber splitDigits at read
  cases input with
  | nil => exact nomatch read
  | cons c cs =>
    cases digit : c.isDigit with
    | true => exact ⟨c, cs, rfl, digit⟩
    | false =>
      rw [List.takeWhile_cons, digit] at read
      exact nomatch read

/-- A number that is read as digits and an exponent is read as the float that these stand for, with its
sign. -/
theorem readFloat_reads {text : List Char} {n : Nat} {e : Int} (reads : Reads text n e)
    {negative : Bool} {y : Float} (stands : ofScaled negative n e = some y) :
    Answers readFloat (if negative then '-' :: text else text) (.ok y) := by
  have scaled : scaledNumber negative n e = .ok (.float y) := by
    unfold scaledNumber
    rw [stands]
  intro rest ends
  have read := reads negative rest ends
  rw [scaled] at read
  unfold readFloat readNumberAs
  cases negative with
  | true =>
    rw [if_pos rfl, List.cons_append, skipBlanks_cons (by decide)]
    dsimp only
    rw [if_pos rfl, read]
    rfl
  | false =>
    obtain ⟨c, cs, input, digit⟩ := isDigit_of_readNumber read
    have unsigned : c ≠ '-' := by
      rintro rfl
      exact absurd digit (by decide)
    rw [if_neg (by decide), input, skipBlanks_cons (isBlank_of_isDigit digit)]
    rw [input] at read
    dsimp only
    rw [if_neg unsigned, if_pos digit, read]
    rfl

/-- What is known of a float that was read from the text of another one. -/
structure Resembles (x y : Float) : Prop where
  sign : isNegative y = isNegative x
  finite : codeOf y < 2047 * 2 ^ 52
  zero : codeOf x = 0 → codeOf y = 0
  percent : codeOf x ≤ hundredCode → codeOf y ≤ hundredCode

/-- Zero is read as zero with its sign. -/
theorem ofScaled_zero (negative : Bool) :
    ∃ y, ofScaled negative 0 (-1) = some y ∧ isNegative y = negative ∧ codeOf y = 0 := by
  have read : scaleByTen (nearest 0 1) (-(1 : ℕ)) = some ((nearest 0 1).div (powerOfTen 1)) :=
    scaleByTen_neg Nat.one_pos (by decide)
  have zero : ((nearest 0 1).div (powerOfTen 1)).code = 0 ∧
      ((nearest 0 1).div (powerOfTen 1)).overflows = false := by decide +kernel
  rcases toFloat_code zero.2 negative with ⟨code, sign⟩
  refine ⟨_, ?_, sign, code.trans zero.1⟩
  unfold ofScaled
  rw [show (-1 : Int) = -((1 : ℕ) : Int) from rfl, read]
  rfl

theorem reads_zero : Reads (FloatNotation.json.layout ⟨0, 0⟩) 0 (-1) := by
  have text : FloatNotation.json.layout ⟨0, 0⟩ = ['0'] ++ '.' :: ['0'] := by decide +kernel
  rw [text]
  exact reads_point leading_zero isDigit_of_mem_zero (by decide) (by decide)

/-- What is written for floats up to a largest one lies below any bound for that one itself and for the
middle between it and its lower neighbour. -/
theorem shortest_bounded {code top : Nat} {bound : ℚ} (le : code ≤ top)
    (full : 2 ^ 52 < (Magnitude.ofCode top).significand)
    (itself : (shortest .even (Magnitude.ofCode top)).value ≤ bound)
    (middle : ((Magnitude.ofCode top).significand - 1 / 2 : ℚ) * 2 ^ (Magnitude.ofCode top).exponent ≤
      bound) (written : Written (Magnitude.ofCode code) (shortest .even (Magnitude.ofCode code))) :
    (shortest .even (Magnitude.ofCode code)).value ≤ bound := by
  rcases Nat.lt_or_eq_of_le le with less | rfl
  · exact (written_le_of_less written (ofCode_significand_lt code) full (ofCode_less less)).trans middle
  · exact itself

/-- Half a unit below the largest float. -/
theorem below_greatest : ((2 ^ 53 - 1 : ℕ) - 1 / 2 : ℚ) * 2 ^ (971 : ℤ) ≤ greatestDecimal := by
  have nat : (2 ^ 54 - 3) * 1 <<< 970 ≤ greatestDecimal := by decide +kernel
  have cast : (((2 ^ 54 - 3) * 1 <<< 970 : ℕ) : ℚ) ≤ greatestDecimal := Nat.cast_le.mpr nat
  have power : (2 : ℚ) ^ (971 : ℤ) = 2 ^ ((970 : ℕ) : ℤ) * 2 := zpow_add_one₀ two_ne_zero 970
  rw [Nat.cast_mul, natCast_shiftLeft] at cast
  rw [power]
  generalize (2 : ℚ) ^ ((970 : ℕ) : ℤ) = p at cast ⊢
  refine cast.trans_eq' ?_
  norm_num
  ring

/-- What is written for finite floats is at most what is written for the greatest one. -/
theorem greatest_bound {code : Nat} (finite : code < 2047 * 2 ^ 52)
    (written : Written (Magnitude.ofCode code) (shortest .even (Magnitude.ofCode code))) :
    (shortest .even (Magnitude.ofCode code)).value ≤ greatestDecimal := by
  have top : Magnitude.ofCode (2047 * 2 ^ 52 - 1) = ⟨2 ^ 53 - 1, 971⟩ := by decide +kernel
  have decimal : shortest .even ⟨2 ^ 53 - 1, 971⟩ = ⟨17976931348623157, 292⟩ := by decide +kernel
  refine shortest_bounded (show code ≤ 2047 * 2 ^ 52 - 1 by omega) ?_ ?_ ?_ written
  · rw [top]
    decide
  · rw [top, decimal]
    unfold Digits.value greatestDecimal
    norm_num
  · rw [top]
    exact below_greatest

/-- What is written for floats up to a hundred is at most a hundred. -/
theorem hundred_bound {code : Nat} (percent : code ≤ hundredCode)
    (written : Written (Magnitude.ofCode code) (shortest .even (Magnitude.ofCode code))) :
    (shortest .even (Magnitude.ofCode code)).value ≤ 100 := by
  have top : Magnitude.ofCode hundredCode = ⟨25 * 2 ^ 48, -46⟩ := by decide +kernel
  have decimal : shortest .even ⟨25 * 2 ^ 48, -46⟩ = ⟨1, 2⟩ := by decide +kernel
  refine shortest_bounded percent ?_ ?_ ?_ written
  · rw [top]
    decide
  · rw [top, decimal]
    unfold Digits.value
    norm_num
  · rw [top]
    norm_num

/-- A finite float is read from its text as a float that resembles it. -/
theorem readFloat_float {x : Float} (finite : codeOf x < 2047 * 2 ^ 52) :
    ∃ y, Answers readFloat (float x) (.ok y) ∧ Resembles x y := by
  have text : float x =
      if isNegative x then '-' :: FloatNotation.json.layout (shortest .even (.ofCode (codeOf x)))
      else FloatNotation.json.layout (shortest .even (.ofCode (codeOf x))) := by
    unfold float FloatNotation.chars
    rw [magnitude_eq, if_pos finite]
    rfl
  have zero : shortest .even (.ofCode (codeOf x)) = ⟨0, 0⟩ →
      ∃ y, Answers readFloat (float x) (.ok y) ∧ Resembles x y := by
    intro none
    rcases ofScaled_zero (isNegative x) with ⟨y, read, sign, code⟩
    rw [text, none]
    refine ⟨y, readFloat_reads reads_zero read, sign, ?_, fun _ => code, ?_⟩
    · rw [code]
      decide
    · rw [code]
      intro _
      exact Nat.zero_le _
  rcases Nat.eq_zero_or_pos (Magnitude.ofCode (codeOf x)).significand with none | some
  · apply zero
    unfold shortest
    rw [if_pos none]
  rcases shortest_spec .even some with none | written
  · exact zero none
  · rcases layout_reads written.positive written.few with ⟨n, e, value, positive, few, whole, reads⟩
    have below := greatest_bound finite written
    rw [← value] at below
    rcases ofScaled_fits (isNegative x) positive few whole below with ⟨y, read, sign, fits, percent⟩
    rw [text]
    refine ⟨y, readFloat_reads reads read, sign, fits, ?_, ?_⟩
    · intro none
      rw [none] at some
      exact absurd some (by decide)
    · intro small
      apply percent
      rw [value]
      exact hundred_bound small written

end CallProfiler.Json
