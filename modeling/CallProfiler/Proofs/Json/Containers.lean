import CallProfiler.Json.Record
import CallProfiler.Proofs.Json.Pieces

/-!
# Proofs.Json.Containers: arrays and records that were written

The elements of an array and the members of an object are answered one after the other, and the first
fault ends the reading. `Elements`, `Members` and `RecordShape.Fills` put the answers on the pieces together
to an answer on all of them; `readArray_written`, `readObject_written` and `RecordShape.reader_written` say
that this is what the reader of the container answers, as long as a bracket may still be opened. A record is
an object whose readers also keep the names that were given (`RecordShape.members_of_fills`).
-/

namespace CallProfiler.Json

/-- Pieces with a comma in front of each, but for the very first one. -/
def pieces : (first : Bool) → List (List Char) → List Char
  | _, [] => []
  | true, piece :: rest => piece ++ pieces false rest
  | false, piece :: rest => ',' :: piece ++ pieces false rest

theorem commaSeparated_eq (ps : List (List Char)) : commaSeparated ps = pieces true ps := by
  induction ps with
  | nil => rfl
  | cons piece rest ih =>
    cases rest with
    | nil => simp [commaSeparated, pieces]
    | cons next rest =>
      rw [commaSeparated, ih]
      rfl

theorem length_le_pieces {ps : List (List Char)} (some : ∀ p ∈ ps, p ≠ []) (first : Bool) :
    ps.length ≤ (pieces first ps).length := by
  induction ps generalizing first with
  | nil => exact Nat.zero_le _
  | cons piece rest ih =>
    have later := ih (fun p hp => some p (List.mem_cons_of_mem _ hp)) false
    have this := List.length_pos_iff.mpr (some piece (List.mem_cons_self ..))
    cases first <;> simp only [pieces, List.length_append, List.length_cons] <;> omega

/-- After a piece comes another one or the closing bracket. -/
theorem delimited_pieces (ps : List (List Char)) {closing : Char} (closes : closing = '}' ∨ closing = ']')
    (rest : List Char) : Delimited (pieces false ps ++ closing :: rest) := by
  cases ps with
  | nil => exact delimited_cons (.inr closes) rest
  | cons piece ps => exact delimited_cons (.inl rfl) _

/-! ## Arrays -/

section Arrays

variable {α : Type} {item : Reader α} {ps : List (List Char)} {answer : Except Fault (List α)}

/-- What a reader of elements answers on some pieces, one after the other. -/
inductive Elements (item : Reader α) : List (List Char) → Except Fault (List α) → Prop where
  | nil : Elements item [] (.ok [])
  | fault {piece : List Char} {rest : List (List Char)} {fault : Fault} :
      Answers item piece (.error fault) → Elements item (piece :: rest) (.error fault)
  | cons {piece : List Char} {rest : List (List Char)} {value : α} {answer : Except Fault (List α)} :
      Answers item piece (.ok value) → Elements item rest answer →
      Elements item (piece :: rest) (answer.map (value :: ·))

/-- The piece is not blank, and it does not look like the end of an array. -/
def Opens (piece : List Char) : Prop := ∃ c ∈ piece.head?, isBlank c = false ∧ c ≠ ']'

/-- The reader of arrays finds the next element behind its comma. -/
theorem nextElement_written {piece : List Char} (opens : Opens piece) (first : Bool)
    (rest : List (List Char)) (after : List Char) :
    nextElement first (pieces first (piece :: rest) ++ after) =
      .ok (some (piece ++ (pieces false rest ++ after))) := by
  obtain ⟨c, head, dark, other⟩ := opens
  obtain ⟨cs, rfl⟩ : ∃ cs, piece = c :: cs := List.head?_eq_some_iff.mp head
  cases first with
  | true =>
    unfold nextElement
    simp only [pieces, List.cons_append, List.append_assoc, skipBlanks_cons dark, other, if_false,
      if_true]
  | false =>
    unfold nextElement
    have comma : skipBlanks (',' :: (c :: (cs ++ (pieces false rest ++ after)))) =
      ',' :: (c :: (cs ++ (pieces false rest ++ after))) := skipBlanks_cons (by decide) _
    simp [pieces, comma, skipBlanks_cons dark, other]

/-- What is written for the elements of an array is read element by element, up to the first that is
refused. -/
theorem readElements_written (elements : Elements item ps answer) (opens : ∀ p ∈ ps, Opens p)
    (first : Bool) {fuel : Nat} (enough : ps.length < fuel) (rest : List Char) :
    readElements item fuel first (pieces first ps ++ ']' :: rest) = answer.map (·, ']' :: rest) := by
  induction elements generalizing first fuel with
  | nil =>
    obtain ⟨fuel, rfl⟩ : ∃ k, fuel = k + 1 := ⟨fuel - 1, by omega⟩
    rfl
  | @fault piece more fault bad =>
    obtain ⟨fuel, rfl⟩ : ∃ k, fuel = k + 1 := ⟨fuel - 1, by omega⟩
    have read := bad _ (delimited_pieces more (.inr rfl) rest)
    rw [readElements, nextElement_written (opens piece (List.mem_cons_self ..))]
    simp only [bind, Except.bind, read, Except.map]
  | @cons piece more value answer good _ ih =>
    -- every element takes one unit of fuel, and the rest has a comma in front
    obtain ⟨fuel, rfl⟩ : ∃ k, fuel = k + 1 := ⟨fuel - 1, by omega⟩
    rw [List.length_cons] at enough
    have read := good _ (delimited_pieces more (.inr rfl) rest)
    have later := ih (fun p hp => opens p (List.mem_cons_of_mem _ hp)) false
      (show more.length < fuel by omega)
    rw [readElements, nextElement_written (opens piece (List.mem_cons_self ..))]
    simp only [bind, Except.bind, read, Except.map, later]
    cases answer <;> rfl

theorem ne_nil_of_opens {piece : List Char} (opens : Opens piece) : piece ≠ [] := by
  obtain ⟨c, head, -⟩ := opens
  rintro rfl
  exact absurd head (by simp)

/-- An array that may be opened is read element by element. -/
theorem readArray_written (elements : Elements item ps answer) (opens : ∀ p ∈ ps, Opens p)
    (depth : Nat) : Answers (readArray (depth + 1) item) (array ps) answer := by
  intro rest _
  have inside : array ps ++ rest = '[' :: (pieces true ps ++ ']' :: rest) := by
    simp [array, commaSeparated_eq]
  -- no piece is empty, so the number of characters left is fuel enough
  have length := length_le_pieces (fun p hp => ne_nil_of_opens (opens p hp)) true
  have enough : ps.length < (pieces true ps ++ ']' :: rest).length + 1 := by
    rw [List.length_append]
    omega
  have read := readElements_written elements opens true enough rest
  rw [inside]
  unfold readArray
  rw [skipBlanks_cons (by decide)]
  simp only [if_true, Nat.succ_ne_zero, if_false, bind, Except.bind, read]
  cases answer <;> rfl

/-- An array that may not be opened is malformed. -/
theorem readArray_zero (item : Reader α) (ps : List (List Char)) :
    Answers (readArray 0 item) (array ps) (.error .malformed) := by
  intro rest _
  rfl

end Arrays

/-! ## Members -/

/-- The reader of objects finds the next member behind its comma. -/
theorem nextMember_written (name : String) (value : List Char) (first : Bool)
    (rest : List (List Char)) (after : List Char) :
    nextMember first (pieces first (member name value :: rest) ++ after) =
      .ok (some (quote name ++ ':' :: (value ++ (pieces false rest ++ after)))) := by
  cases first with
  | true => simp [nextMember, pieces, member, quote, skipBlanks_cons, isBlank]
  | false => simp [nextMember, pieces, member, quote, skipBlanks_cons, isBlank]

theorem expectColon_colon (rest : List Char) : expectColon (':' :: rest) = .ok rest := by
  simp [expectColon, skipBlanks_cons, isBlank]

section Members

variable {σ : Type} {readMember : σ → String → Reader σ} {start : σ}
  {given : List (String × List Char)} {answer : Except Fault σ}

/-- What the readers of some members answer on their pieces, one after the other. -/
inductive Members (readMember : σ → String → Reader σ) :
    σ → List (String × List Char) → Except Fault σ → Prop where
  | nil (value : σ) : Members readMember value [] (.ok value)
  | fault {value : σ} {name : String} {piece : List Char} {rest : List (String × List Char)}
      {fault : Fault} :
      Answers (fun input => readMember value name (':' :: input)) piece (.error fault) →
      Members readMember value ((name, piece) :: rest) (.error fault)
  | cons {value value' : σ} {name : String} {piece : List Char} {rest : List (String × List Char)}
      {answer : Except Fault σ} :
      Answers (fun input => readMember value name (':' :: input)) piece (.ok value') →
      Members readMember value' rest answer → Members readMember value ((name, piece) :: rest) answer

/-- What is written for the members of an object is read member by member, up to the first that is
refused. -/
theorem readMembers_answers (members : Members readMember start given answer) (first : Bool) {fuel : Nat}
    (enough : given.length < fuel) (rest : List Char) :
    readMembers readMember fuel first start
        (pieces first (given.map fun (name, piece) => member name piece) ++ '}' :: rest) =
      answer.map (·, '}' :: rest) := by
  induction members generalizing first fuel with
  | nil value =>
    obtain ⟨fuel, rfl⟩ : ∃ k, fuel = k + 1 := ⟨fuel - 1, by omega⟩
    rfl
  | @fault value name piece more fault bad =>
    obtain ⟨fuel, rfl⟩ : ∃ k, fuel = k + 1 := ⟨fuel - 1, by omega⟩
    have read := bad _ (delimited_pieces (more.map fun (name, piece) => member name piece) (.inl rfl) rest)
    rw [List.map_cons, readMembers, nextMember_written]
    simp only [bind, Except.bind, readString_written, read, Except.map]
  | @cons value value' name piece more answer good _ ih =>
    -- every member takes one unit of fuel, and the rest has a comma in front
    obtain ⟨fuel, rfl⟩ : ∃ k, fuel = k + 1 := ⟨fuel - 1, by omega⟩
    rw [List.length_cons] at enough
    have read := good _ (delimited_pieces (more.map fun (name, piece) => member name piece) (.inl rfl) rest)
    have later := ih false (show more.length < fuel by omega)
    rw [List.map_cons, readMembers, nextMember_written]
    simp only [bind, Except.bind, readString_written, read, Except.map, later]

/-- No member is empty, so the characters of an object are fuel enough for its members. -/
theorem length_lt_members (given : List (String × List Char)) (rest : List Char) :
    given.length < (pieces true (given.map fun (name, piece) => member name piece) ++
      '}' :: rest).length + 1 := by
  have some : ∀ p ∈ given.map fun (name, piece) => member name piece, p ≠ [] := by
    intro p hp
    obtain ⟨m, -, rfl⟩ := List.mem_map.mp hp
    simp [member, quote]
  have length := length_le_pieces some true
  rw [List.length_map] at length
  rw [List.length_append]
  omega

/-- An object whose bracket may be opened is read member by member. -/
theorem readObject_written (members : Members readMember start given answer) (depth : Nat) :
    Answers (readObject (depth + 1) readMember start)
      (object (given.map fun (name, piece) => member name piece)) answer := by
  intro rest _
  have inside : object (given.map fun (name, piece) => member name piece) ++ rest =
      '{' :: (pieces true (given.map fun (name, piece) => member name piece) ++ '}' :: rest) := by
    simp [object, commaSeparated_eq]
  have read := readMembers_answers members true (length_lt_members given rest) rest
  rw [inside]
  unfold readObject
  rw [skipBlanks_cons (by decide)]
  simp only [if_true, Nat.succ_ne_zero, if_false, bind, Except.bind, read]
  cases answer <;> rfl

end Members

/-! ## Records -/

namespace RecordShape

variable {φ σ : Type} {shape : RecordShape φ σ} {start : σ} {given : List (φ × List Char)}
  {answer : Except Fault σ}

/-- What the readers of some fields answer on their pieces, one after the other. -/
inductive Fills (shape : RecordShape φ σ) : σ → List (φ × List Char) → Except Fault σ → Prop where
  | nil (value : σ) : Fills shape value [] (.ok value)
  | fault {value : σ} {field : φ} {piece : List Char} {rest : List (φ × List Char)} {fault : Fault} :
      Answers (shape.read field value) piece (.error fault) →
      Fills shape value ((field, piece) :: rest) (.error fault)
  | cons {value value' : σ} {field : φ} {piece : List Char} {rest : List (φ × List Char)}
      {answer : Except Fault σ} : Answers (shape.read field value) piece (.ok value') →
      Fills shape value' rest answer → Fills shape value ((field, piece) :: rest) answer

/-- The members of a document, from the fields that are given and their pieces. -/
def members (shape : RecordShape φ σ) (given : List (φ × List Char)) : List (List Char) :=
  given.map fun (field, piece) => member (shape.name field) piece

/-- The fields that are given are found by their names, which are different, and none that must be
given is missing. -/
structure Given (shape : RecordShape φ σ) (given : List (φ × List Char)) : Prop where
  found : ∀ m ∈ given, shape.field? (shape.name m.1) = some m.1
  distinct : (given.map fun m => shape.name m.1).Nodup
  required : ∀ field ∈ shape.fields, shape.required field = true → ∃ m ∈ given, m.1 = field

/-- A member with a name that is known and new is read as its field. -/
theorem readMember_written {field : φ} {value : σ} {names : List String} {piece : List Char}
    {answer : Except Fault σ}
    (found : shape.field? (shape.name field) = some field) (new : shape.name field ∉ names)
    (read : Answers (shape.read field value) piece answer) :
    Answers (fun input => shape.readMember (value, names) (shape.name field) (':' :: input)) piece
      (answer.map fun value => (value, shape.name field :: names)) := by
  intro rest ends
  show shape.readMember (value, names) (shape.name field) (':' :: (piece ++ rest)) = _
  unfold readMember
  rw [found]
  simp only [List.contains_eq_mem, new, decide_false, Bool.false_eq_true, if_false, bind, Except.bind,
    expectColon_colon, read rest ends]
  cases answer <;> rfl

/-- The members of a record beside the fields: the names that were given are kept as well. -/
theorem members_of_fills (fills : shape.Fills start given answer)
    (found : ∀ m ∈ given, shape.field? (shape.name m.1) = some m.1)
    (distinct : (given.map fun m => shape.name m.1).Nodup) {names : List String}
    (new : ∀ m ∈ given, shape.name m.1 ∉ names) :
    Members shape.readMember (start, names) (given.map fun m => (shape.name m.1, m.2))
      (answer.map fun value => (value, (given.map fun m => shape.name m.1).reverse ++ names)) := by
  induction fills generalizing names with
  | nil value => exact .nil (value, names)
  | @fault value field piece more fault bad =>
    have here := List.mem_cons_self (a := (field, piece)) (l := more)
    exact .fault (readMember_written (found _ here) (new _ here) bad)
  | @cons value value' field piece more answer good _ ih =>
    rw [List.map_cons, List.nodup_cons] at distinct
    have here := List.mem_cons_self (a := (field, piece)) (l := more)
    have there {m : φ × List Char} (hm : m ∈ more) : m ∈ (field, piece) :: more :=
      List.mem_cons_of_mem _ hm
    -- the name that was just given is not given again
    have stillNew : ∀ m ∈ more, shape.name m.1 ∉ shape.name field :: names := by
      intro m hm
      rw [List.mem_cons, not_or]
      refine ⟨fun same => distinct.1 ?_, new m (there hm)⟩
      exact List.mem_map.mpr ⟨m, hm, same⟩
    have later := ih (fun m hm => found m (there hm)) distinct.2 stillNew
    rw [List.map_cons, List.map_cons, List.reverse_cons, List.append_assoc, List.singleton_append]
    exact .cons (readMember_written (found _ here) (new _ here) good) later

/-- A record whose bracket may be opened is read member by member. -/
theorem reader_written (fills : shape.Fills start given answer) (ok : shape.Given given) (depth : Nat) :
    Answers (shape.reader (depth + 1) start) (object (shape.members given)) answer := by
  intro rest _
  have named : shape.members given =
      (given.map fun m => (shape.name m.1, m.2)).map fun (name, piece) => member name piece := by
    rw [List.map_map]
    rfl
  have inside : object (shape.members given) ++ rest =
      '{' :: (pieces true (shape.members given) ++ '}' :: rest) := by
    simp [object, commaSeparated_eq]
  have new : ∀ m ∈ given, shape.name m.1 ∉ ([] : List String) := by simp
  have members := members_of_fills fills ok.found ok.distinct new
  have read := readMembers_answers members true (length_lt_members _ rest) rest
  rw [← named] at read
  -- the names that were read are those of the fields that are given
  have complete : shape.complete ((given.map fun m => shape.name m.1).reverse ++ []) = true := by
    unfold RecordShape.complete
    rw [List.all_eq_true]
    intro field hf
    cases needed : shape.required field with
    | false => rfl
    | true =>
      obtain ⟨m, hm, rfl⟩ := ok.required field hf needed
      have named : shape.name m.1 ∈ given.map fun m => shape.name m.1 := List.mem_map_of_mem hm
      simpa using named
  rw [inside]
  unfold reader
  rw [skipBlanks_cons (by decide)]
  simp only [if_true, Nat.succ_ne_zero, if_false, bind, Except.bind, read]
  cases answer with
  | error fault => rfl
  | ok value =>
    simp only [Except.map, complete, if_true]
    rfl

/-- A record whose bracket may not be opened is malformed. -/
theorem reader_zero (shape : RecordShape φ σ) (start : σ) (ps : List (List Char)) :
    Answers (shape.reader 0 start) (object ps) (.error .malformed) := by
  intro rest _
  rfl

end RecordShape

end CallProfiler.Json
