import CallProfiler.Config.Json
import CallProfiler.Proofs.Json.Containers
import CallProfiler.Proofs.Json.Floats

/-!
# Proofs.Config.Documents: configurations are read back from their documents

Settings that are no floats are read as they were written. A finite float is read as `reread` of it, which
need not be the same float but has the same sign and stays in range, and any other float is written as the
absent value, which no reader of floats accepts. So there is one question about a setting, whether its
floats are finite (`ConfigField.floats`, `whenFinite`). The reporting rates are kept by type and have no order
of their own; a document may give them in any order (`ConfigField.writeIn`).

* `ConfigField.answers_write` — one setting, whatever was read before it
* `ConfigField.fills_written` — several settings, by induction on their list
* `ProfilerConfig.parse_document` — whole documents, of configurations that need not be valid
* `ProfilerConfig.validate_iff`, `ProfilerConfig.valid_reread` — what is valid stays valid
* `ProfilerConfig.valid_settings_are_read_back` — the result
-/

namespace CallProfiler

/-! ## Floats -/

namespace Json

open Decimal

/-- What a finite float is read as after it was written. -/
def reread (x : Float) : Float :=
  match readFloat (float x) with
  | .ok (y, _) => y
  | .error _ => 0.0

/-- What is read if all floats in it are finite. -/
def whenFinite {α : Type} (floats : List Float) (value : α) : Except Fault α :=
  if floats.all Float.isFinite then .ok value else .error .mismatched

theorem whenFinite_map {α β : Type} (f : α → β) (floats : List Float) (value : α) :
    (whenFinite floats value).map f = whenFinite floats (f value) := by
  unfold whenFinite
  split <;> rfl

/-- With more floats behind them, either the first ones are finite and the others decide, or the reading
ends with the first ones. -/
theorem whenFinite_append {α : Type} (floats more : List Float) (value : α) :
    (whenFinite floats value = .ok value ∧
      ∀ final : α, whenFinite (floats ++ more) final = whenFinite more final) ∨
    (whenFinite floats value = .error .mismatched ∧
      ∀ final : α, whenFinite (floats ++ more) final = .error .mismatched) := by
  unfold whenFinite
  rw [List.all_append]
  cases floats.all Float.isFinite with
  | true => exact .inl ⟨rfl, fun final => rfl⟩
  | false => exact .inr ⟨rfl, fun final => rfl⟩

/-- A finite float is read back, and what is read resembles it. -/
theorem resembles_reread {x : Float} (finite : x.isFinite = true) : Resembles x (reread x) ∧
    Answers readFloat (float x) (.ok (reread x)) := by
  rcases readFloat_float ((isFinite_iff x).mp finite) with ⟨y, answers, resembles⟩
  have read := answers [] delimited_nil
  have same : reread x = y := by
    unfold reread
    rw [List.append_nil] at read
    rw [read]
    rfl
  rw [same]
  exact ⟨resembles, answers⟩

/-- What is not finite is written as the absent value. -/
theorem float_eq_null {x : Float} (infinite : ¬ x.isFinite = true) : float x = null := by
  rw [isFinite_iff] at infinite
  unfold float FloatNotation.chars
  rw [magnitude_eq, if_neg infinite]
  dsimp only
  split
  · rfl
  · split <;> rfl

/-- A float is read back if it is finite, and its document is refused otherwise. -/
theorem readFloat_written (x : Float) : Answers readFloat (float x) (whenFinite [x] (reread x)) := by
  unfold whenFinite
  rw [List.all_cons, List.all_nil, Bool.and_true]
  by_cases finite : x.isFinite = true
  · rw [if_pos finite]
    exact (resembles_reread finite).2
  · rw [if_neg finite, float_eq_null finite]
    exact readNumberAs_null _

end Json

/-! ## Rates by type -/

/-- An operation type is found by its name. -/
theorem OperationType.ofName?_name (t : OperationType) : ofName? t.name = some t := by
  cases t <;> rfl

namespace ByType

variable {α β : Type}

/-- The list of rates has the types with a rate, each with its own. -/
theorem mem_toList {m : ByType α} {t : OperationType} {value : α} :
    (t, value) ∈ m.toList ↔ m.get? t = some value := by
  obtain ⟨server, external⟩ := m
  unfold toList get?
  cases t <;> simp

/-- Rates of different types may be set in any order. -/
theorem set_comm (m : ByType α) {t u : OperationType} (other : t ≠ u) (x y : α) :
    (m.set t x).set u y = (m.set u y).set t x := by
  cases t with
  | server =>
    cases u with
    | server => exact absurd rfl other
    | external => rfl
  | external =>
    cases u with
    | server => rfl
    | external => exact absurd rfl other

/-- The order in which values are given does not matter, as each type has one value. -/
theorem foldl_set_perm {order : List (OperationType × α)} {m : ByType α} (perm : order.Perm m.toList)
    (f : α → β) : order.foldl (fun m (t, value) => m.set t (f value)) .empty = m.map f := by
  have sorted : order.foldl (fun m (t, value) => m.set t (f value)) ByType.empty =
      m.toList.foldl (fun m (t, value) => m.set t (f value)) ByType.empty := by
    refine perm.foldl_eq' ?_ _
    rintro ⟨t, x⟩ hx ⟨u, y⟩ hy sofar
    by_cases twice : t = u
    · subst twice
      have one := (mem_toList.mp (perm.subset hx)).symm.trans (mem_toList.mp (perm.subset hy))
      rw [Option.some.inj one]
    · exact set_comm sofar twice (f x) (f y)
  rw [sorted]
  obtain ⟨server, external⟩ := m
  cases server <;> cases external <;> rfl

end ByType

namespace ConfigField

open Json

/-- How `readRates` reads one member. -/
def readRate (rates : ByType Float) (name : String) : Reader (ByType Float) := fun input =>
  match OperationType.ofName? name with
  | none => .error .mismatched
  | some t => do
    let (rate, rest) ← readFloat (← expectColon input)
    .ok (rates.set t rate, rest)

/-- A reporting rate is read for its type, if it is finite. -/
theorem readRate_written (rates : ByType Float) (t : OperationType) (rate : Float) :
    Answers (fun input => readRate rates t.name (':' :: input)) (float rate)
      (whenFinite [rate] (rates.set t (reread rate))) := by
  have read := (readFloat_written rate).map (rates.set t)
  rw [whenFinite_map] at read
  intro rest ends
  rw [← read rest ends]
  unfold readRate
  rw [OperationType.ofName?_name]
  simp only [expectColon_colon, bind, Except.bind]
  cases readFloat (float rate ++ rest) <;> rfl

/-- The rates of several types in any order. -/
theorem members_rates (given : List (OperationType × Float)) (start : ByType Float) :
    Members readRate start (given.map fun (t, rate) => (t.name, float rate))
      (whenFinite (given.map Prod.snd)
        (given.foldl (fun rates (t, rate) => rates.set t (reread rate)) start)) := by
  induction given generalizing start with
  | nil => exact .nil start
  | cons first more ih =>
    obtain ⟨t, rate⟩ := first
    have here := readRate_written start t rate
    have later := ih (start.set t (reread rate))
    show Members readRate start ((t.name, float rate) :: _)
      (whenFinite ([rate] ++ more.map Prod.snd) _)
    rcases whenFinite_append [rate] (more.map Prod.snd) (start.set t (reread rate)) with
      ⟨read, all⟩ | ⟨fails, all⟩
    · rw [read] at here
      rw [all]
      exact .cons here later
    · rw [fails] at here
      rw [all]
      exact .fault here

/-- The rates of some types, in any order. -/
def writeRates (order : List (OperationType × Float)) : List Char :=
  object (order.map fun (t, rate) => member t.name (float rate))

/-- Reporting rates are read in whatever order they were written. -/
theorem readRates_written (depth : Nat) {order : List (OperationType × Float)} {rates : ByType Float}
    (perm : order.Perm rates.toList) :
    Answers (readRates (depth + 1)) (writeRates order)
      (whenFinite (rates.toList.map Prod.snd) (rates.map reread)) := by
  have read := readObject_written (members_rates order .empty) depth
  rw [List.map_map, ByType.foldl_set_perm perm] at read
  unfold whenFinite at read ⊢
  rw [(perm.map Prod.snd).all_eq] at read
  exact read

end ConfigField

/-! ## Settings -/

/-- The configuration with all its floats changed. -/
def ProfilerConfig.mapFloats (f : Float → Float) (config : ProfilerConfig) : ProfilerConfig :=
  { config with
    minExecutionTimePercent := f config.minExecutionTimePercent
    profilerRatePerMinute := f config.profilerRatePerMinute
    reportingRates := config.reportingRates.map f }

namespace ConfigField

open Json

/-- The floats in a setting. -/
def floats (config : ProfilerConfig) : ConfigField → List Float
  | .minExecutionTimePercent => [config.minExecutionTimePercent]
  | .profilerRate => [config.profilerRatePerMinute]
  | .reportingRates => config.reportingRates.toList.map Prod.snd
  | _ => []

/-- A configuration with one setting taken from another one. -/
def copy (source target : ProfilerConfig) : ConfigField → ProfilerConfig
  | .monitoringActive => { target with monitoringActive := source.monitoringActive }
  | .minExecutionTimeNanos => { target with minExecutionTimeNanos := source.minExecutionTimeNanos }
  | .minExecutionTimePercent =>
    { target with minExecutionTimePercent := source.minExecutionTimePercent }
  | .warmupRequests => { target with warmupRequests := source.warmupRequests }
  | .warmupSeconds => { target with warmupSeconds := source.warmupSeconds }
  | .groupInterval => { target with groupInterval := source.groupInterval }
  | .profilerRate => { target with profilerRatePerMinute := source.profilerRatePerMinute }
  | .reportingRates => { target with reportingRates := source.reportingRates }
  | .poolingEnabled => { target with poolingEnabled := source.poolingEnabled }
  | .logCallStacks => { target with logCallStacks := source.logCallStacks }
  | .asciiCallTree => { target with asciiCallTree := source.asciiCallTree }

/-- A configuration is what its settings are. -/
theorem foldl_copy_all (source start : ProfilerConfig) : all.foldl (copy source) start = source := by
  simp only [all, List.foldl_cons, List.foldl_nil, copy]

/-- The group interval is read as it was written, also when there is none. -/
theorem readInterval_written (interval : Option Int64) :
    Answers (readOptional readInt64)
      (match interval with
        | none => null
        | some interval => integer interval.toInt)
      (.ok interval) := by
  cases interval with
  | none => exact readOptional_null _
  | some interval => exact readOptional_some (readInt64_integer interval) (integer_opens _)

/-- The value of a setting as a document, with the reporting rates in some order. -/
def writeIn (config : ProfilerConfig) (order : List (OperationType × Float)) : ConfigField → List Char
  | .reportingRates => writeRates order
  | field => write config field

theorem writeIn_toList (config : ProfilerConfig) :
    writeIn config config.reportingRates.toList = write config := by
  funext field
  cases field <;> rfl

variable {config : ProfilerConfig} {order : List (OperationType × Float)}

/-- A setting is read into any configuration as it was written, but for its floats. -/
theorem answers_write (depth : Nat) (perm : order.Perm config.reportingRates.toList)
    (target : ProfilerConfig) (field : ConfigField) :
    Answers (read (depth + 1) field target) (writeIn config order field)
      (whenFinite (floats config field) (copy (config.mapFloats reread) target field)) := by
  cases field with
  | monitoringActive =>
    exact (readBool_boolean config.monitoringActive).map fun v =>
      { target with monitoringActive := v }
  | minExecutionTimeNanos =>
    exact (readUInt64_natural config.minExecutionTimeNanos).map fun v =>
      { target with minExecutionTimeNanos := v }
  | minExecutionTimePercent =>
    have read := (readFloat_written config.minExecutionTimePercent).map fun v =>
      { target with minExecutionTimePercent := v }
    rw [whenFinite_map] at read
    exact read
  | warmupRequests =>
    exact (readUInt64_natural config.warmupRequests).map fun v =>
      { target with warmupRequests := v }
  | warmupSeconds =>
    exact (readUInt64_natural config.warmupSeconds).map fun v =>
      { target with warmupSeconds := v }
  | groupInterval =>
    exact (readInterval_written config.groupInterval).map fun v =>
      { target with groupInterval := v }
  | profilerRate =>
    have read := (readFloat_written config.profilerRatePerMinute).map fun v =>
      { target with profilerRatePerMinute := v }
    rw [whenFinite_map] at read
    exact read
  | reportingRates =>
    have read := (readRates_written depth perm).map fun v =>
      { target with reportingRates := v }
    rw [whenFinite_map] at read
    exact read
  | poolingEnabled =>
    exact (readBool_boolean config.poolingEnabled).map fun v =>
      { target with poolingEnabled := v }
  | logCallStacks =>
    exact (readBool_boolean config.logCallStacks).map fun v =>
      { target with logCallStacks := v }
  | asciiCallTree =>
    exact (readBool_boolean config.asciiCallTree).map fun v =>
      { target with asciiCallTree := v }

/-- Several settings are read one after the other, up to the first one that is not finite. -/
theorem fills_written (depth : Nat) (perm : order.Perm config.reportingRates.toList)
    (start : ProfilerConfig) (fields : List ConfigField) :
    (shape (depth + 1)).Fills start (fields.map fun field => (field, writeIn config order field))
      (whenFinite (fields.flatMap (floats config))
        (fields.foldl (copy (config.mapFloats reread)) start)) := by
  induction fields generalizing start with
  | nil => exact .nil start
  | cons field more ih =>
    have here := answers_write depth perm start field
    have later := ih (copy (config.mapFloats reread) start field)
    rw [List.map_cons, List.flatMap_cons, List.foldl_cons]
    rcases whenFinite_append (floats config field) (more.flatMap (floats config))
      (copy (config.mapFloats reread) start field) with ⟨read, all⟩ | ⟨fails, all⟩
    · rw [read] at here
      rw [all]
      exact .cons here later
    · rw [fails] at here
      rw [all]
      exact .fault here

theorem given_all (depth : Nat) (piece : ConfigField → List Char) :
    (shape depth).Given (all.map fun field => (field, piece field)) where
  found := by
    intro m _
    cases m.1 <;> rfl
  distinct := by
    rw [List.map_map]
    show (all.map name).Nodup
    decide
  required := by
    intro field _ needed
    exact absurd needed Bool.false_ne_true

end ConfigField

namespace ProfilerConfig

open Decimal

/-- The floats of a configuration. -/
def floats (config : ProfilerConfig) : List Float := ConfigField.all.flatMap (ConfigField.floats config)

theorem floats_eq (config : ProfilerConfig) :
    config.floats = config.minExecutionTimePercent :: config.namedRates.map Prod.snd := by
  unfold floats namedRates ConfigField.all
  simp [ConfigField.floats]

/-- The configuration as a document, with the reporting rates in some order. -/
def document (config : ProfilerConfig) (order : List (OperationType × Float)) : String :=
  String.ofList (Json.object (ConfigField.all.map fun field =>
    Json.member field.name (field.writeIn config order)))

/-- The document of a configuration is the one with the reporting rates in their own order. -/
theorem toJson_eq_document (config : ProfilerConfig) :
    config.toJson = config.document config.reportingRates.toList := by
  unfold toJson document
  rw [ConfigField.writeIn_toList]

section Documents

variable {config : ProfilerConfig} {order : List (OperationType × Float)}

/-- A document is read back unless one of the floats in it is not finite. -/
theorem parse_document (perm : order.Perm config.reportingRates.toList) :
    parse (config.document order) =
      Json.whenFinite config.floats (config.mapFloats Json.reread) := by
  have fills := ConfigField.fills_written (Json.depthLimit - 2) perm .default ConfigField.all
  have read := Json.RecordShape.reader_written fills (ConfigField.given_all _ _)
    (Json.depthLimit - 1) [] Json.delimited_nil
  have pieces : (ConfigField.shape (Json.depthLimit - 2 + 1)).members
      (ConfigField.all.map fun field => (field, field.writeIn config order)) =
      ConfigField.all.map fun field => Json.member field.name (field.writeIn config order) :=
    List.map_map ..
  rw [ConfigField.foldl_copy_all, List.append_nil, pieces] at read
  unfold parse Json.readDocument document
  rw [String.toList_ofList]
  show (do
    let (value, rest) ← (ConfigField.shape (Json.depthLimit - 2 + 1)).reader
      (Json.depthLimit - 1 + 1) default _
    if (Json.skipBlanks rest).isEmpty then .ok value else .error .malformed) = _
  rw [read]
  unfold floats Json.whenFinite
  split <;> rfl

/-- A document is refused if a float was not finite when it was written. -/
theorem ofJson_infinite (perm : order.Perm config.reportingRates.toList)
    (infinite : ¬ config.floats.all Float.isFinite = true) :
    ofJson (config.document order) = .error (.unreadable .mismatched) := by
  have refused : parse (config.document order) = .error .mismatched := by
    rw [parse_document perm]
    unfold Json.whenFinite
    rw [if_neg infinite]
  unfold ofJson
  rw [refused]

end Documents

/-! ## Valid configurations -/

/-- A percentage is in range if it is a zero of any sign or a positive float of at most a hundred. -/
theorem percentInRange_iff (x : Float) :
    percentInRange x = true ↔ codeOf x ≤ hundredCode ∧ (isNegative x = true → codeOf x = 0) := by
  have least : hundredCode ≤ 2047 * 2 ^ 52 := by decide
  unfold percentInRange
  rw [Bool.and_eq_true, decide_eq_true_eq, decide_eq_true_eq, zero_le_iff]
  constructor
  · rintro ⟨⟨-, sign⟩, most⟩
    exact ⟨(le_hundred_iff sign).mp most, sign⟩
  · rintro ⟨most, sign⟩
    exact ⟨⟨most.trans least, sign⟩, (le_hundred_iff sign).mpr most⟩

/-- A rate is in range if it is a zero of any sign, a positive float or infinite. -/
theorem rateInRange_iff (x : Float) :
    rateInRange x = true ↔ codeOf x ≤ 2047 * 2 ^ 52 ∧ (isNegative x = true → codeOf x = 0) := by
  unfold rateInRange
  rw [Bool.not_eq_true', Bool.or_eq_false_iff, Bool.eq_false_iff, Ne, isNaN_iff, decide_eq_false_iff_not,
    lt_zero_iff]
  constructor
  · rintro ⟨number, above⟩
    refine ⟨Nat.le_of_not_lt number, ?_⟩
    intro negative
    by_contra some
    exact above ⟨Nat.le_of_not_lt number, negative, some⟩
  · rintro ⟨number, sign⟩
    refine ⟨Nat.not_lt.mpr number, ?_⟩
    rintro ⟨-, negative, some⟩
    exact some (sign negative)

/-- A percentage in range is finite. -/
theorem isFinite_of_percentInRange {x : Float} (inRange : percentInRange x = true) :
    x.isFinite = true := by
  have least : hundredCode < 2047 * 2 ^ 52 := by decide
  rw [percentInRange_iff] at inRange
  exact (isFinite_iff x).mpr (inRange.1.trans_lt least)

/-- A percentage in range is read back in range. -/
theorem percentInRange_reread {x : Float} (inRange : percentInRange x = true) :
    percentInRange (Json.reread x) = true := by
  have resembles := (Json.resembles_reread (isFinite_of_percentInRange inRange)).1
  rw [percentInRange_iff] at inRange ⊢
  refine ⟨resembles.percent inRange.1, ?_⟩
  intro negative
  rw [resembles.sign] at negative
  exact resembles.zero (inRange.2 negative)

/-- A finite rate in range is read back in range. -/
theorem rateInRange_reread {x : Float} (finite : x.isFinite = true) (inRange : rateInRange x = true) :
    rateInRange (Json.reread x) = true := by
  have resembles := (Json.resembles_reread finite).1
  rw [rateInRange_iff] at inRange ⊢
  refine ⟨resembles.finite.le, ?_⟩
  intro negative
  rw [resembles.sign] at negative
  exact resembles.zero (inRange.2 negative)

/-- A configuration is valid if its percentage and all of its rates are in range. -/
theorem validate_iff (config : ProfilerConfig) :
    config.validate = .ok () ↔
      percentInRange config.minExecutionTimePercent = true ∧
      ∀ r ∈ config.namedRates, rateInRange r.2 = true := by
  have accepted : config.validate = .ok () ↔ config.fault? = none := by
    unfold validate
    cases config.fault? with
    | none => exact iff_of_true rfl rfl
    | some e => exact iff_of_false (by simp) (by simp)
  rw [accepted]
  unfold fault?
  cases percentInRange config.minExecutionTimePercent <;> simp

theorem namedRates_mapFloats (f : Float → Float) (config : ProfilerConfig) :
    (config.mapFloats f).namedRates = config.namedRates.map fun (setting, rate) => (setting, f rate) := by
  obtain ⟨_, _, _, _, _, _, _, ⟨server, external⟩, _, _, _⟩ := config
  cases server <;> cases external <;> rfl

/-- A valid configuration is still valid after its floats were read back. -/
theorem valid_reread {config : ProfilerConfig} (valid : config.validate = .ok ())
    (finite : ∀ r ∈ config.namedRates, r.2.isFinite = true) :
    (config.mapFloats Json.reread).validate = .ok () := by
  rw [validate_iff] at valid ⊢
  refine ⟨percentInRange_reread valid.1, ?_⟩
  rw [namedRates_mapFloats]
  intro r mem
  obtain ⟨r, given, rfl⟩ := List.mem_map.mp mem
  exact rateInRange_reread (finite r given) (valid.2 r given)

/-! ## Reading back -/

/-- Two configurations with the same settings, except that their floats may differ: the same types have
a reporting rate of their own. -/
structure SameButFloats (config config' : ProfilerConfig) : Prop where
  monitoringActive : config.monitoringActive = config'.monitoringActive
  minExecutionTimeNanos : config.minExecutionTimeNanos = config'.minExecutionTimeNanos
  warmupRequests : config.warmupRequests = config'.warmupRequests
  warmupSeconds : config.warmupSeconds = config'.warmupSeconds
  groupInterval : config.groupInterval = config'.groupInterval
  reportingTypes : ∀ t,
    (config.reportingRates.get? t).isSome = (config'.reportingRates.get? t).isSome
  poolingEnabled : config.poolingEnabled = config'.poolingEnabled
  logCallStacks : config.logCallStacks = config'.logCallStacks
  asciiCallTree : config.asciiCallTree = config'.asciiCallTree

theorem sameButFloats_mapFloats (f : Float → Float) (config : ProfilerConfig) :
    (config.mapFloats f).SameButFloats config := by
  constructor
  case reportingTypes =>
    intro t
    show ((config.reportingRates.map f).get? t).isSome = _
    rw [ByType.get?_map, Option.isSome_map]
  all_goals rfl

/-- The floats of a valid configuration are finite if its rates are, since the percentage is. -/
theorem all_isFinite_iff {config : ProfilerConfig} (valid : config.validate = .ok ()) :
    config.floats.all Float.isFinite = true ↔ ∀ r ∈ config.namedRates, r.2.isFinite = true := by
  have percent := isFinite_of_percentInRange ((validate_iff config).mp valid).1
  rw [floats_eq]
  simp [percent]

/-- A valid configuration whose rates are finite is read back from its document, up to its floats and
whatever the order of its reporting rates. One with an infinite rate is valid as well, but its document is
refused. -/
theorem valid_settings_are_read_back (config : ProfilerConfig) (valid : config.validate = .ok ()) :
    config.toJson = config.document config.reportingRates.toList ∧
    ∀ order : List (OperationType × Float), order.Perm config.reportingRates.toList →
      ((∀ r ∈ config.namedRates, r.2.isFinite = true) →
        ∃ read, ofJson (config.document order) = .ok read ∧ read.SameButFloats config) ∧
      ((∃ r ∈ config.namedRates, r.2.isFinite = false) →
        ofJson (config.document order) = .error (.unreadable .mismatched)) := by
  have finite := all_isFinite_iff valid
  refine ⟨toJson_eq_document config, ?_⟩
  intro order perm
  constructor
  · intro rates
    have read : parse (config.document order) = .ok (config.mapFloats Json.reread) := by
      rw [parse_document perm]
      unfold Json.whenFinite
      rw [if_pos (finite.mpr rates)]
    refine ⟨config.mapFloats Json.reread, ?_, sameButFloats_mapFloats _ config⟩
    unfold ofJson
    rw [read]
    dsimp only
    rw [valid_reread valid rates]
    rfl
  · rintro ⟨r, given, infinite⟩
    apply ofJson_infinite perm
    intro all
    rw [finite.mp all r given] at infinite
    exact Bool.noConfusion infinite

/-- Settings at the ends of what can be held, with a rate for each type. -/
def outermost : ProfilerConfig :=
  { minExecutionTimeNanos := 18446744073709551615
    minExecutionTimePercent := 0.1
    groupInterval := some (-9223372036854775808)
    profilerRatePerMinute := 1.7976931348623157e308
    reportingRates := { server := some 0.0, external := some 5e-324 }
    poolingEnabled := false }

/-- Default settings but for an infinite rate. -/
def boundless : ProfilerConfig := { profilerRatePerMinute := Float.ofBits 0x7FF0000000000000 }

theorem valid_boundless : boundless.validate = .ok () := by
  rw [validate_iff]
  decide +kernel

theorem outermost_settings_are_read_back :
    (outermost.validate = .ok () ∧ (∀ r ∈ outermost.namedRates, r.2.isFinite = true) ∧
      [(.external, 5e-324), (.server, 0.0)].Perm outermost.reportingRates.toList ∧
      ∃ read, ofJson (outermost.document [(.external, 5e-324), (.server, 0.0)]) = .ok read ∧
        read.SameButFloats outermost) ∧
    boundless.validate = .ok () ∧ (∃ r ∈ boundless.namedRates, r.2.isFinite = false) ∧
      ofJson boundless.toJson = .error (.unreadable .mismatched) := by
  have valid : outermost.validate = .ok () := by
    rw [validate_iff]
    decide +kernel
  have finite : ∀ r ∈ outermost.namedRates, r.2.isFinite = true := by decide +kernel
  have infinite : ∃ r ∈ boundless.namedRates, r.2.isFinite = false := by decide +kernel
  have swapped : [(.external, 5e-324), (.server, 0.0)].Perm outermost.reportingRates.toList :=
    .swap _ _ _
  rcases valid_settings_are_read_back outermost valid with ⟨-, anyOrder⟩
  rcases valid_settings_are_read_back boundless valid_boundless with ⟨written, inOrder⟩
  rw [written]
  exact ⟨⟨valid, finite, swapped, (anyOrder _ swapped).1 finite⟩, valid_boundless, infinite,
    (inOrder _ (.refl _)).2 infinite⟩

/-- A valid configuration whose document is not accepted. -/
theorem infinite_rate_is_not_read_back :
    boundless.validate = .ok () ∧ ¬ ∃ read, ofJson boundless.toJson = .ok read := by
  refine ⟨valid_boundless, ?_⟩
  have refused : ofJson (boundless.document []) = .error (.unreadable .mismatched) :=
    ofJson_infinite (.refl _) (by decide +kernel)
  rintro ⟨read, accepted⟩
  rw [toJson_eq_document] at accepted
  exact nomatch refused.symm.trans accepted

end ProfilerConfig

end CallProfiler
