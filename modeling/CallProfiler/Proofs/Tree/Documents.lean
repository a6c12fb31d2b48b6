import CallProfiler.Tree.Snapshot
import CallProfiler.Proofs.Json.Containers

/-!
# Proofs.Tree.Documents: snapshots are read back from their documents

A document leaves out the flag of calls that were measured here and the children of calls that have
none, so what is given depends on the snapshot (`Snapshot.given`). What is left out is what a reader
starts from, and so it is still read back.

The only way to lose a snapshot is its depth. A level without children takes one bracket, and each
level above it takes one for the call and one for the list of its children. `answers_write` says by
induction on the snapshot what a reader answers that may open any number of brackets: the snapshot if
there are enough of them, and else that the document is malformed. `ofJson_toJson` is the case of whole
documents, whose brackets are enough for 64 levels.
-/

namespace CallProfiler

namespace Snapshot

mutual

/-- The number of levels of a snapshot. A call without children has one. -/
def levels : Snapshot → Nat
  | node _ _ _ _ children => levelsAll children + 1

/-- The number of levels of the deepest of several snapshots. -/
def levelsAll : List Snapshot → Nat
  | [] => 0
  | first :: rest => max first.levels (levelsAll rest)

end

/-- The fields that a document gives, in their order, with their pieces. -/
def given : Snapshot → List (Field × List Char)
  | node signature gross net ioCall children =>
    [(.signature, Json.quote signature),
      (.executionTime, Json.natural gross.toNat),
      (.netExecutionTime, Json.natural net.toNat)] ++
    (if ioCall then [(.ioCall, Json.boolean true)] else []) ++
    (if children.isEmpty then [] else [(.children, Json.array (writeAll children))])

/-! ## The members of a document -/

section Members

variable (readChildren : Json.Reader (List Snapshot)) (s : Snapshot)

/-- A document is an object of the given fields, so the result on records applies to it. -/
theorem write_eq_object : s.write = Json.object ((shape readChildren).members s.given) := by
  obtain ⟨signature, gross, net, ioCall, children⟩ := s
  cases ioCall <;> cases children <;> rfl

/-- Every field is found by its own name. -/
theorem field?_name (field : Field) : (shape readChildren).field? field.name = some field := by
  cases field <;> rfl

/-- The flag is left out of calls that were measured here, and the children where there are none. -/
theorem given_fields :
    s.given.map Prod.fst = [.signature, .executionTime, .netExecutionTime] ++
      (if s.ioCall then [.ioCall] else []) ++ (if s.children.isEmpty then [] else [.children]) := by
  obtain ⟨signature, gross, net, ioCall, children⟩ := s
  cases ioCall <;> cases children <;> rfl

/-- The fields that are given are in order and have all that is required. -/
theorem given_ok : (shape readChildren).Given s.given := by
  have fields := given_fields s
  constructor
  · intro m _
    exact field?_name readChildren m.1
  · have names : (s.given.map fun m => (shape readChildren).name m.1) =
        (s.given.map Prod.fst).map Field.name := (List.map_map ..).symm
    rw [names, fields]
    cases s.ioCall <;> cases s.children.isEmpty <;> decide
  · intro field _ needed
    have first : field ∈ s.given.map Prod.fst := by
      rw [fields]
      cases field with
      | signature | executionTime | netExecutionTime => simp
      | ioCall | children => exact Bool.noConfusion needed
    exact List.exists_of_mem_map first

end Members

/-! ## Reading the members -/

/-- What is read of a value with some levels: the value if there is room for two brackets a level, and
else it is malformed. The last level takes one bracket only. -/
def readBack {α : Type} (room levels : Nat) (value : α) : Except Json.Fault α :=
  if 2 * levels ≤ room then .ok value else .error .malformed

/-- The limit on nesting does not look at the value. -/
theorem readBack_map {α β : Type} (f : α → β) (room levels : Nat) (value : α) :
    (readBack room levels value).map f = readBack room levels (f value) := by
  unfold readBack
  split <;> rfl

/-- One level more takes two brackets more. -/
theorem readBack_level {α : Type} (room levels : Nat) (value : α) :
    readBack (room + 2) (levels + 1) value = readBack room levels value := by
  have same : 2 * (levels + 1) ≤ room + 2 ↔ 2 * levels ≤ room := by omega
  simp only [readBack, same]

/-- A reader of children for where `depth` brackets may be opened below the bracket of their parent. -/
def childReader : (depth : Nat) → Json.Reader (List Snapshot)
  | 0 => noChildren
  | depth + 1 => Json.readArray (depth + 1) (reader depth)

/-- The three readers for the depths are one reader, with one for the children below it. -/
theorem reader_succ (depth : Nat) :
    reader (depth + 1) =
      (shape (childReader depth)).reader (depth + 1) (node "" 0 0 false []) := by
  cases depth <;> rfl

/-! A reader starts without flag and children. What is read of a whole snapshot is decided by what is
read of its children, as the other members always fit. -/

section Fills

variable {readChildren : Json.Reader (List Snapshot)} {children : List Snapshot} {room : Nat}

/-- The list of children, left out if it is empty, is read back as far as the limit allows. -/
theorem fills_children (readBelow : children ≠ [] → Json.Answers readChildren
      (Json.array (writeAll children)) (readBack room (levelsAll children) children))
    (signature : String) (gross net : UInt64) (ioCall : Bool) :
    (shape readChildren).Fills (node signature gross net ioCall [])
      (if children.isEmpty then [] else [(.children, Json.array (writeAll children))])
      (readBack room (levelsAll children) (node signature gross net ioCall children)) := by
  cases children with
  | nil => exact .nil _
  | cons first rest =>
    have read : Json.Answers
        ((shape readChildren).read .children (node signature gross net ioCall []))
        (Json.array (writeAll (first :: rest)))
        ((readBack room (levelsAll (first :: rest)) (first :: rest)).map
          (node signature gross net ioCall)) :=
      (readBelow (by simp)).map _
    rw [readBack_map] at read
    by_cases fits : 2 * levelsAll (first :: rest) ≤ room
    · rw [readBack, if_pos fits] at read ⊢
      exact .cons read (.nil _)
    · rw [readBack, if_neg fits] at read ⊢
      exact .fault read

/-- All fields of a call are read back, if its children are. -/
theorem fills_given (readBelow : children ≠ [] → Json.Answers readChildren
      (Json.array (writeAll children)) (readBack room (levelsAll children) children))
    (signature : String) (gross net : UInt64) (ioCall : Bool) :
    (shape readChildren).Fills (node "" 0 0 false []) (node signature gross net ioCall children).given
      (readBack room (levelsAll children) (node signature gross net ioCall children)) := by
  have readSignature : Json.Answers ((shape readChildren).read .signature (node "" 0 0 false []))
      (Json.quote signature) (.ok (node signature 0 0 false [])) :=
    (Json.readString_quote signature).map fun text => node text 0 0 false []
  have readGross : Json.Answers
      ((shape readChildren).read .executionTime (node signature 0 0 false []))
      (Json.natural gross.toNat) (.ok (node signature gross 0 false [])) :=
    (Json.readUInt64_natural gross).map fun time => node signature time 0 false []
  have readNet : Json.Answers
      ((shape readChildren).read .netExecutionTime (node signature gross 0 false []))
      (Json.natural net.toNat) (.ok (node signature gross net false [])) :=
    (Json.readUInt64_natural net).map fun time => node signature gross time false []
  have last := fills_children readBelow signature gross net ioCall
  rw [given, List.append_assoc]
  refine .cons readSignature (.cons readGross (.cons readNet ?_))
  cases ioCall with
  | false => exact last
  | true =>
    have readFlag : Json.Answers
        ((shape readChildren).read .ioCall (node signature gross net false []))
        (Json.boolean true) (.ok (node signature gross net true [])) :=
      (Json.readBool_boolean true).map fun flag => node signature gross net flag []
    exact .cons readFlag last

end Fills

/-! ## Reading snapshots -/

/-- A document of a call opens with a brace. -/
theorem opens_write (s : Snapshot) : Json.Opens s.write := by
  rw [write_eq_object noChildren]
  exact ⟨'{', rfl, by decide, by decide⟩

theorem opens_of_mem_writeAll {calls : List Snapshot} {piece : List Char}
    (mem : piece ∈ writeAll calls) : Json.Opens piece := by
  induction calls with
  | nil => exact absurd mem (by simp [writeAll])
  | cons first rest ih =>
    rw [writeAll, List.mem_cons] at mem
    rcases mem with rfl | mem
    · exact opens_write first
    · exact ih mem

/-- Where no bracket may be opened, there is no room for the first child. -/
theorem readBack_zero {α : Type} {calls : List Snapshot} (some : calls ≠ []) (value : α) :
    readBack 0 (levelsAll calls) value = .error .malformed := by
  obtain ⟨first, rest, rfl⟩ := List.exists_cons_of_ne_nil some
  have one : 1 ≤ first.levels := by
    obtain ⟨signature, gross, net, ioCall, children⟩ := first
    rw [levels]
    omega
  have deep : ¬ 2 * levelsAll (first :: rest) ≤ 0 := by
    rw [levelsAll]
    omega
  rw [readBack, if_neg deep]

mutual

/-- A snapshot is read back if there are brackets enough for its levels, and else it is malformed. -/
theorem answers_write (s : Snapshot) (depth : Nat) :
    Json.Answers (reader depth) s.write (readBack (depth + 1) s.levels s) := by
  obtain ⟨signature, gross, net, ioCall, children⟩ := s
  cases depth with
  | zero =>
    -- even a call without children takes a bracket
    have deep : ¬ 2 * (levelsAll children + 1) ≤ 0 + 1 := by omega
    rw [write_eq_object noChildren, levels, readBack, if_neg deep]
    exact Json.RecordShape.reader_zero _ _ _
  | succ depth =>
    -- the call takes one bracket, and the list of its children another one if there are any
    have readBelow : children ≠ [] → Json.Answers (childReader depth)
        (Json.array (writeAll children)) (readBack depth (levelsAll children) children) := by
      intro some
      cases depth with
      | zero =>
        rw [readBack_zero some]
        exact Json.readArray_zero _ _
      | succ depth =>
        exact Json.readArray_written (elements_write children depth)
          (fun piece mem => opens_of_mem_writeAll mem) depth
    have fills := fills_given readBelow signature gross net ioCall
    rw [reader_succ, write_eq_object (childReader depth), levels, readBack_level]
    exact Json.RecordShape.reader_written fills (given_ok _ _) depth

/-- Several snapshots are read back if there are brackets enough for the deepest of them. -/
theorem elements_write (calls : List Snapshot) (depth : Nat) :
    Json.Elements (reader depth) (writeAll calls) (readBack (depth + 1) (levelsAll calls) calls) := by
  cases calls with
  | nil => exact .nil
  | cons first rest =>
    have here := answers_write first depth
    have later := elements_write rest depth
    rw [writeAll, levelsAll]
    by_cases fits : 2 * first.levels ≤ depth + 1
    -- the first one fits, so the others decide
    · have same : 2 * max first.levels (levelsAll rest) ≤ depth + 1 ↔
          2 * levelsAll rest ≤ depth + 1 := by omega
      have restDecides : readBack (depth + 1) (max first.levels (levelsAll rest)) (first :: rest) =
          (readBack (depth + 1) (levelsAll rest) rest).map (first :: ·) := by
        rw [readBack_map]
        simp only [readBack, same]
      rw [readBack, if_pos fits] at here
      rw [restDecides]
      exact .cons here later
    -- the first one ends the reading, whatever follows
    · have deep : ¬ 2 * max first.levels (levelsAll rest) ≤ depth + 1 := by omega
      rw [readBack, if_neg fits] at here
      rw [readBack, if_neg deep]
      exact .fault here

end

/-- A snapshot's document names its signature and its times, its flag only if it is set, and its
children only if there are any. Reading the document gives the same snapshot if it has at most 64
levels, and else the document is malformed. -/
theorem ofJson_toJson (s : Snapshot) :
    s.toJson = String.ofList (Json.object (s.given.map fun (field, piece) =>
      Json.member field.name piece)) ∧
    s.given.map Prod.fst = [.signature, .executionTime, .netExecutionTime] ++
      (if s.ioCall then [.ioCall] else []) ++ (if s.children.isEmpty then [] else [.children]) ∧
    ofJson s.toJson = if s.levels ≤ 64 then .ok s else .error .malformed := by
  refine ⟨congrArg String.ofList (write_eq_object noChildren s), given_fields s, ?_⟩
  have read := answers_write s Json.depthLimit [] Json.delimited_nil
  have room : 2 * s.levels ≤ Json.depthLimit + 1 ↔ s.levels ≤ 64 := by
    unfold Json.depthLimit
    omega
  rw [List.append_nil] at read
  unfold ofJson Json.readDocument toJson
  rw [String.toList_ofList, read]
  simp only [readBack, room]
  split <;> rfl

end Snapshot

end CallProfiler
