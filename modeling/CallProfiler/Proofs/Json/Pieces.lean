import CallProfiler.Json.Scalar
import CallProfiler.Json.Text

/-!
# Proofs.Json.Pieces: reading what was written

A document is written piece by piece, and a reader finds each piece in front of what follows it. So
that pieces can be put together, `Answers` says what a reader answers on a piece whatever follows, as
long as it is `Delimited`: in a document a value is followed by a comma, by a closing bracket, or by
nothing. Only numbers need this, as more digits would make another number.

* `readString_quote`, `readUInt64_natural`, `readBool_boolean` — the scalars are read back
-/

namespace CallProfiler.Json

/-- What may follow a value in a document. -/
def Delimited (rest : List Char) : Prop := ∀ c ∈ rest.head?, c = ',' ∨ c = '}' ∨ c = ']'

/-- What a reader answers on a piece, whatever follows. -/
def Answers {α : Type} (read : Reader α) (piece : List Char) (answer : Except Fault α) : Prop :=
  ∀ rest, Delimited rest → read (piece ++ rest) = answer.map (·, rest)

/-- A reader that goes on with the value it has read. -/
theorem Answers.map {α β : Type} {read : Reader α} {piece : List Char} {answer : Except Fault α}
    (answers : Answers read piece answer) (f : α → β) :
    Answers (fun input => (read input).map fun (value, rest) => (f value, rest)) piece
      (answer.map f) := by
  intro rest ends
  show (read (piece ++ rest)).map _ = _
  rw [answers rest ends]
  cases answer <;> rfl

theorem delimited_nil : Delimited [] := by
  intro c hc
  exact absurd hc (by simp)

theorem delimited_cons {c : Char} (closing : c = ',' ∨ c = '}' ∨ c = ']') (rest : List Char) :
    Delimited (c :: rest) := by
  intro d hd
  obtain rfl := Option.some.inj hd
  exact closing

theorem skipBlanks_cons {c : Char} (dark : isBlank c = false) (rest : List Char) :
    skipBlanks (c :: rest) = c :: rest := by
  simp [skipBlanks, dark]

/-! ## Texts -/

theorem hexValue_hexDigit {n : Nat} (small : n < 16) : hexValue (hexDigit n) = some n := by
  revert n
  decide

/-- A character that is given by its number, after the `u`. -/
theorem readNumbered_escape {c : Char} (control : c.toNat < 32) (rest : List Char) :
    readNumbered ('0' :: '0' :: hexDigit (c.toNat / 16) :: hexDigit (c.toNat % 16) :: rest) =
      .ok (c, rest) := by
  have high := hexValue_hexDigit (show c.toNat / 16 < 16 by omega)
  have low := hexValue_hexDigit (show c.toNat % 16 < 16 by omega)
  have zero : hexValue '0' = some 0 := by decide
  have unit : ((0 * 16 + 0) * 16 + c.toNat / 16) * 16 + c.toNat % 16 = c.toNat := by omega
  have read : readHex ('0' :: '0' :: hexDigit (c.toNat / 16) :: hexDigit (c.toNat % 16) :: rest) =
      .ok (c.toNat, rest) := by
    simpa [readHex, List.mapM_cons, high, low, zero] using unit
  have trailing : isTrailingHalf c.toNat = false := by
    simp only [isTrailingHalf, decide_eq_false_iff_not]
    omega
  have leading : isLeadingHalf c.toNat = false := by
    simp only [isLeadingHalf, decide_eq_false_iff_not]
    omega
  unfold readNumbered
  rw [read]
  show (if isTrailingHalf c.toNat then _ else _) = _
  rw [trailing, leading, Char.ofNat_toNat]
  rfl

/-- A character is written as it is, as a letter after a backslash, or by its number. -/
theorem escape_cases (c : Char) :
    (escape c = [c] ∧ c ≠ '"' ∧ c ≠ '\\' ∧ ¬ c.toNat < 32) ∨
    (∃ letter, escape c = ['\\', letter] ∧ letter ≠ 'u' ∧ unescape letter = some c) ∨
    (escape c = ['\\', 'u', '0', '0', hexDigit (c.toNat / 16), hexDigit (c.toNat % 16)] ∧
      c.toNat < 32) := by
  unfold escape
  by_cases quote : c = '"'
  · exact .inr (.inl ⟨'"', by simp [quote], by decide, by rw [quote]; decide⟩)
  by_cases backslash : c = '\\'
  · exact .inr (.inl ⟨'\\', by simp [backslash], by decide, by rw [backslash]; decide⟩)
  by_cases backspace : c = '\x08'
  · exact .inr (.inl ⟨'b', by simp [backspace], by decide, by rw [backspace]; decide⟩)
  by_cases feed : c = '\x0c'
  · exact .inr (.inl ⟨'f', by simp [feed], by decide, by rw [feed]; decide⟩)
  by_cases newline : c = '\n'
  · exact .inr (.inl ⟨'n', by simp [newline], by decide, by rw [newline]; decide⟩)
  by_cases carriage : c = '\x0d'
  · exact .inr (.inl ⟨'r', by simp [carriage], by decide, by rw [carriage]; decide⟩)
  by_cases tab : c = '\t'
  · exact .inr (.inl ⟨'t', by simp [tab], by decide, by rw [tab]; decide⟩)
  -- none of the characters with a letter of their own
  by_cases control : c.toNat < 32
  · exact .inr (.inr ⟨by simp [quote, backslash, backspace, feed, newline, carriage, tab, control],
      control⟩)
  · exact .inl ⟨by simp [quote, backslash, backspace, feed, newline, carriage, tab, control], quote,
      backslash, control⟩

/-- A character is read back from its escape, wherever a text goes on. -/
theorem readCharacters_escape (fuel : Nat) (c : Char) (rest : List Char) :
    readCharacters false (fuel + 1) (escape c ++ rest) = (readCharacters false fuel rest).map
      fun (text, rest) => (c :: text, rest) := by
  have backslash : ('\\' : Char) ≠ '"' := by decide
  have goesOn (read : Except Fault (List Char × List Char)) :
      (do let (text, rest) ← read; .ok (c :: text, rest)) =
        read.map fun (text, rest) => (c :: text, rest) := by
    cases read <;> rfl
  -- however long the escape is, it takes one unit of fuel
  rcases escape_cases c with ⟨plain, quote, slash, dark⟩ | ⟨letter, pair, other, stands⟩ |
    ⟨numbered, control⟩
  · rw [plain, List.singleton_append, readCharacters, if_neg quote, if_neg slash, if_neg dark]
    exact goesOn _
  · rw [pair, List.cons_append, List.singleton_append, readCharacters, if_neg backslash, if_pos rfl]
    simp only [readEscape, other, if_false, stands]
    exact goesOn _
  · rw [numbered, List.cons_append, readCharacters, if_neg backslash, if_pos rfl]
    simp only [readEscape, List.cons_append, List.nil_append, if_true, Bool.false_eq_true, if_false,
      readNumbered_escape control]
    exact goesOn _

/-- Escaped characters are read as they were, up to the closing quote. -/
theorem readCharacters_written {cs : List Char} {fuel : Nat} (enough : cs.length < fuel)
    (rest : List Char) :
    readCharacters false fuel (cs.flatMap escape ++ '"' :: rest) = .ok (cs, rest) := by
  induction cs generalizing fuel with
  | nil =>
    obtain ⟨fuel, rfl⟩ := Nat.exists_eq_add_of_lt enough
    simp [readCharacters]
  | cons c cs ih =>
    rw [List.length_cons] at enough
    obtain ⟨fuel, rfl⟩ : ∃ k, fuel = k + 1 := ⟨fuel - 1, by omega⟩
    rw [List.flatMap_cons, List.append_assoc, readCharacters_escape, ih (by omega)]
    rfl

theorem length_escape_pos (c : Char) : 0 < (escape c).length := by
  rcases escape_cases c with ⟨plain, -⟩ | ⟨letter, pair, -⟩ | ⟨numbered, -⟩
  · rw [plain]
    exact Nat.one_pos
  · rw [pair]
    exact Nat.two_pos
  · rw [numbered]
    exact Nat.succ_pos _

theorem length_le_escaped (cs : List Char) : cs.length ≤ (cs.flatMap escape).length := by
  induction cs with
  | nil => exact Nat.le_refl 0
  | cons c cs ih =>
    have := length_escape_pos c
    rw [List.flatMap_cons, List.length_append, List.length_cons]
    omega

/-- A string is read as it was written, behind its opening quote. -/
theorem readQuoted_written (s : String) (rest : List Char) :
    readQuoted (s.toList.flatMap escape ++ '"' :: rest) = .ok (s, rest) := by
  have enough : s.toList.length < (s.toList.flatMap escape ++ '"' :: rest).length := by
    have := length_le_escaped s.toList
    rw [List.length_append, List.length_cons]
    omega
  unfold readQuoted
  rw [readCharacters_written enough rest]
  exact congrArg (fun t => Except.ok (t, rest)) String.ofList_toList

/-- A text is read back, whatever its characters are and whatever follows. -/
theorem readString_written (s : String) (rest : List Char) :
    readString (quote s ++ rest) = .ok (s, rest) := by
  have opened : quote s ++ rest = '"' :: (s.toList.flatMap escape ++ '"' :: rest) := by
    simp [quote]
  rw [opened]
  unfold readString
  rw [skipBlanks_cons (by decide)]
  exact readQuoted_written s rest

/-- A string is read as it was written. -/
theorem readString_quote (s : String) : Answers readString (quote s) (.ok s) :=
  fun rest _ => readString_written s rest

/-! ## Numbers -/

theorem natural_ne_nil (n : Nat) : natural n ≠ [] := Nat.toDigits_ne_nil

theorem isDigit_of_mem_natural {n : Nat} {c : Char} (h : c ∈ natural n) : c.isDigit = true :=
  Nat.isDigit_of_mem_toDigits (by decide) (by decide) h

/-- The digits of a longer number. -/
theorem natural_step {n : Nat} (long : 10 ≤ n) :
    natural n = natural (n / 10) ++ [Nat.digitChar (n % 10)] :=
  Nat.toDigits_of_base_le (by decide) long

theorem natural_digit {n : Nat} (short : n < 10) : natural n = [Nat.digitChar n] :=
  Nat.toDigits_of_lt_base short

theorem digitValue_digitChar {n : Nat} (small : n < 10) : digitValue (Nat.digitChar n) = n := by
  revert n
  decide

/-- A number that is not zero does not start with a zero. -/
theorem head_natural {n : Nat} (positive : 0 < n) : (natural n).head? ≠ some '0' := by
  induction n using Nat.strongRecOn with
  | _ n ih =>
    rcases Nat.lt_or_ge n 10 with short | long
    · have digit : ∀ k < 10, 0 < k → [Nat.digitChar k].head? ≠ some '0' := by decide
      rw [natural_digit short]
      exact digit n short positive
    -- the digits of a tenth come first, and a tenth is not zero either
    · obtain ⟨c, cs, digits⟩ := List.exists_cons_of_ne_nil (natural_ne_nil (n / 10))
      have first := ih (n / 10) (by omega) (by omega)
      rw [digits] at first
      rw [natural_step long, digits]
      exact first

theorem appendDigits_append {cs : List Char} {start m : Nat} (whole : appendDigits start cs = (m, []))
    (c : Char) : appendDigits start (cs ++ [c]) = appendDigits m [c] := by
  induction cs generalizing start with
  | nil =>
    obtain rfl : start = m := congrArg Prod.fst whole
    rfl
  | cons d cs ih =>
    rw [List.cons_append, appendDigits]
    rw [appendDigits] at whole
    by_cases fits : start * 10 + digitValue d < UInt64.size
    · simp only [fits, if_true] at whole ⊢
      exact ih whole
    · simp only [fits, if_false] at whole
      exact absurd (congrArg Prod.snd whole) (by simp)

/-- The digits of a number that fits are read as the number. -/
theorem appendDigits_natural {n : Nat} (fits : n < UInt64.size) :
    appendDigits 0 (natural n) = (n, []) := by
  induction n using Nat.strongRecOn with
  | _ n ih =>
    rcases Nat.lt_or_ge n 10 with short | long
    · rw [natural_digit short]
      simp [appendDigits, digitValue_digitChar short, fits]
    · have value : n / 10 * 10 + n % 10 = n := by omega
      rw [natural_step long, appendDigits_append (ih (n / 10) (by omega) (by omega))]
      simp [appendDigits, digitValue_digitChar (show n % 10 < 10 by omega), value, fits]

theorem splitDigits_natural (n : Nat) {rest : List Char} (ends : Delimited rest) :
    splitDigits (natural n ++ rest) = (natural n, rest) := by
  have stop : rest.takeWhile Char.isDigit = [] ∧ rest.dropWhile Char.isDigit = rest := by
    cases rest with
    | nil => exact ⟨rfl, rfl⟩
    | cons c rest =>
      rcases ends c rfl with rfl | rfl | rfl <;> exact ⟨rfl, rfl⟩
  have digits : ∀ c ∈ natural n, c.isDigit = true := fun c h => isDigit_of_mem_natural h
  unfold splitDigits
  rw [List.takeWhile_append_of_pos digits, List.dropWhile_append_of_pos digits, stop.1, stop.2,
    List.append_nil]

/-- Digits that fit make a whole number, whatever its sign is. -/
theorem readNumber_digits (negative : Bool) {n : Nat} (fits : n < UInt64.size) {rest : List Char}
    (ends : Delimited rest) :
    readNumber negative (natural n ++ rest) = .ok (wholeNumber negative n, rest) := by
  have leading : ∀ c cs, natural n = c :: cs → ¬ (c = '0' ∧ cs ≠ []) := by
    rintro c cs digits ⟨rfl, more⟩
    rcases Nat.eq_zero_or_pos n with rfl | positive
    · rw [natural_digit (by omega)] at digits
      exact more (List.cons.inj digits).2.symm
    · exact head_natural positive (by rw [digits]; rfl)
  have value := appendDigits_natural fits
  unfold readNumber
  rw [splitDigits_natural n ends]
  dsimp only
  split
  · next none => exact absurd none (natural_ne_nil n)
  · next c cs digits =>
    rw [if_neg (leading c cs digits), value]
    -- neither a point nor an exponent may follow
    cases rest with
    | nil => rfl
    | cons d rest =>
      rcases ends d rfl with rfl | rfl | rfl <;> rfl

/-- The digits of a number that fits are read as a whole number. -/
theorem readNumber_natural {n : Nat} (fits : n < UInt64.size) {rest : List Char}
    (ends : Delimited rest) : readNumber false (natural n ++ rest) = .ok (.whole n, rest) :=
  readNumber_digits false fits ends

theorem isBlank_of_isDigit {c : Char} (digit : c.isDigit = true) : isBlank c = false := by
  cases blank : isBlank c with
  | false => rfl
  | true =>
    simp only [isBlank, Bool.or_eq_true, decide_eq_true_eq] at blank
    rcases blank with ((rfl | rfl) | rfl) | rfl <;> exact absurd digit (by decide)

/-- A number is read back as whatever it stands for. -/
theorem readNumberAs_natural {α : Type} {convert : Number → Option α} {n : Nat} {value : α}
    (fits : n < UInt64.size) (stands : convert (.whole n) = some value) :
    Answers (readNumberAs convert) (natural n) (.ok value) := by
  intro rest ends
  have read := readNumber_natural fits ends
  obtain ⟨c, cs, digits⟩ := List.exists_cons_of_ne_nil (natural_ne_nil n)
  have digit : c.isDigit = true := isDigit_of_mem_natural (digits ▸ List.mem_cons_self ..)
  have unsigned : c ≠ '-' := by
    rintro rfl
    exact absurd digit (by decide)
  rw [digits, List.cons_append] at read ⊢
  unfold readNumberAs
  rw [skipBlanks_cons (isBlank_of_isDigit digit)]
  simp only [unsigned, if_false, digit, if_true, read, bind, Except.bind, stands]
  rfl

/-- An unsigned integer is read as it was written. -/
theorem readUInt64_natural (n : UInt64) : Answers readUInt64 (natural n.toNat) (.ok n) := by
  have fits : n.toNat < UInt64.size := n.toNat_lt
  have inRange : (0 : Int) ≤ n.toNat ∧ (n.toNat : Int) < UInt64.size := by omega
  apply readNumberAs_natural fits
  dsimp only
  rw [if_pos inRange, Int.toNat_natCast, UInt64.ofNat_toNat]

/-- A negative number is read as what it converts to. -/
theorem readNumberAs_negative {α : Type} {convert : Number → Option α} {n : Nat} {value : α}
    (fits : n < UInt64.size) (stands : convert (wholeNumber true n) = some value) :
    Answers (readNumberAs convert) ('-' :: natural n) (.ok value) := by
  intro rest ends
  have read := readNumber_digits true fits ends
  unfold readNumberAs
  rw [List.cons_append, skipBlanks_cons (by decide)]
  simp only [if_true, read, bind, Except.bind, stands]
  rfl

/-- A signed integer is read as it was written. -/
theorem readInt64_integer (i : Int64) : Answers readInt64 (integer i.toInt) (.ok i) := by
  have least : -2 ^ 63 ≤ i.toInt := i.le_toInt
  have most : i.toInt < 2 ^ 63 := i.toInt_lt
  have inRange : Int64.minValue.toInt ≤ i.toInt ∧ i.toInt ≤ Int64.maxValue.toInt := by
    have ends : Int64.minValue.toInt = -2 ^ 63 ∧ Int64.maxValue.toInt = 2 ^ 63 - 1 := by decide
    omega
  have fits : i.toInt.natAbs < UInt64.size := by
    show i.toInt.natAbs < 2 ^ 64
    omega
  unfold integer
  split
  · next negative =>
    have whole : wholeNumber true i.toInt.natAbs = .whole i.toInt := by
      unfold wholeNumber
      rw [if_pos rfl, if_neg (by omega), if_pos (show i.toInt.natAbs ≤ 1 <<< 63 by omega)]
      congr 1
      omega
    apply readNumberAs_negative fits
    rw [whole]
    dsimp only
    rw [if_pos inRange, Int64.ofInt_toInt]
  · next nonneg =>
    have same : (i.toInt.natAbs : Int) = i.toInt := by omega
    apply readNumberAs_natural fits
    dsimp only
    rw [same, if_pos inRange, Int64.ofInt_toInt]

/-! ## Truth values -/

/-- A truth value is read as it was written. -/
theorem readBool_boolean (b : Bool) : Answers readBool (boolean b) (.ok b) := by
  intro rest _
  cases b <;> rfl

/-! ## Absent values -/

/-- What is absent is read as absent. -/
theorem readOptional_null {α : Type} (read : Reader α) : Answers (readOptional read) null (.ok none) :=
  fun _ _ => rfl

/-- A value that does not look like the absent one. -/
theorem readOptional_some {α : Type} {read : Reader α} {piece : List Char} {answer : Except Fault α}
    (answers : Answers read piece answer)
    (opens : ∃ c ∈ piece.head?, isBlank c = false ∧ c ≠ 'n') :
    Answers (readOptional read) piece (answer.map some) := by
  obtain ⟨c, head, dark, other⟩ := opens
  obtain ⟨cs, rfl⟩ : ∃ cs, piece = c :: cs := List.head?_eq_some_iff.mp head
  intro rest ends
  have read := answers rest ends
  rw [List.cons_append] at read ⊢
  unfold readOptional
  rw [skipBlanks_cons dark]
  dsimp only
  rw [if_neg other, read]
  cases answer <;> rfl

theorem integer_opens (i : Int) : ∃ c ∈ (integer i).head?, isBlank c = false ∧ c ≠ 'n' := by
  unfold integer
  split
  · exact ⟨'-', rfl, by decide, by decide⟩
  · obtain ⟨c, cs, digits⟩ := List.exists_cons_of_ne_nil (natural_ne_nil i.natAbs)
    have digit : c.isDigit = true := isDigit_of_mem_natural (digits ▸ List.mem_cons_self ..)
    refine ⟨c, by rw [digits]; rfl, isBlank_of_isDigit digit, ?_⟩
    rintro rfl
    exact absurd digit (by decide)

/-- The absent value is no number. -/
theorem readNumberAs_null {α : Type} (convert : Number → Option α) :
    Answers (readNumberAs convert) null (.error .mismatched) :=
  fun _ _ => rfl

end CallProfiler.Json
