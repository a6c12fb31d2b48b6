import CallProfiler.Proofs.Monitor.Outline
import CallProfiler.Script.Move

/-!
# Proofs.Monitor.Deliveries: what the monitor adds to the journal

The journal only grows. What the monitor adds to it around the work of an execution has no step of
the program in it, and is in order in the sense of `Served`: a report that its reporter wants is
handed to that reporter, with nothing but notes in between, and no other report is handed over.

Each function of the lifecycle has one lemma, `m.Follows R (f m)`, where `R` is what is known of the
reports that are offered. `Monitor.Serves` is the same for whole programs, which do make steps.
-/

namespace CallProfiler

/-! ## Entries in order -/

/-- The report that an entry is about: it was offered or handed over. -/
def Entry.report? : Entry → Option ExecutionReport
  | .gate _ report _ => some report
  | .delivery _ report _ => some report
  | _ => none

/-- All reports in the entries satisfy `R`; what is wanted is handed over at once, and nothing else
is handed over. -/
inductive Served (R : ExecutionReport → Prop) : List Entry → Prop where
  | nil : Served R []
  | apart {entry : Entry} {entries : List Entry} (h : entry.report? = none) :
      Served R entries → Served R (entry :: entries)
  | declined {name : String} {report : ExecutionReport} {gate : Gate} {entries : List Entry}
      (holds : R report) (h : gate ≠ .wanted) :
      Served R entries → Served R (.gate name report gate :: entries)
  | handed {name : String} {report : ExecutionReport} (notes : List Note)
      {reply : Reply ReportError} {entries : List Entry} (holds : R report) :
      Served R entries →
      Served R (.gate name report .wanted ::
        (notes.map Entry.note ++ .delivery name report reply :: entries))

namespace Served

variable {R : ExecutionReport → Prop} {l l' : List Entry}

/-- What was served stays so in front of what was served as well. -/
theorem append (h : Served R l) (h' : Served R l') : Served R (l ++ l') := by
  induction h with
  | nil => exact h'
  | apart none _ ih => exact .apart none ih
  | declined holds gate _ ih => exact .declined holds gate ih
  | handed notes holds _ ih =>
    rw [List.cons_append, List.append_assoc, List.cons_append]
    exact .handed notes holds ih

/-- All reports in what was served are of the given kind. -/
theorem report (h : Served R l) : ∀ entry ∈ l, ∀ report, entry.report? = some report → R report := by
  induction h with
  | nil => intro entry hm; cases hm
  | apart none _ ih =>
    intro entry hm report hr
    rcases List.mem_cons.mp hm with rfl | hm
    · rw [none] at hr; cases hr
    · exact ih entry hm report hr
  | declined holds _ _ ih =>
    intro entry hm report hr
    rcases List.mem_cons.mp hm with rfl | hm
    · cases hr; exact holds
    · exact ih entry hm report hr
  | handed notes holds _ ih =>
    intro entry hm report hr
    simp only [List.mem_cons, List.mem_append, List.mem_map] at hm
    rcases hm with rfl | ⟨note, _, rfl⟩ | rfl | hm
    · cases hr; exact holds
    · cases hr
    · cases hr; exact holds
    · exact ih entry hm report hr

end Served

namespace Monitor

variable {R : ExecutionReport → Prop} {m m' m'' : Monitor}

/-- `m'` comes after `m`, and in between all reports satisfied `R` and were served. -/
def Serves (R : ExecutionReport → Prop) (m m' : Monitor) : Prop :=
  ∃ added, m'.journal.toList = m.journal.toList ++ added ∧ Served R added

/-- `m'` comes after `m`, all reports in between satisfied `R` and were served, and the program made
no step. -/
def Follows (R : ExecutionReport → Prop) (m m' : Monitor) : Prop :=
  ∃ added, m'.journal.toList = m.journal.toList ++ added ∧ Served R added ∧
    ∀ entry ∈ added, entry.isStep = false

namespace Serves

/-- With the same journal nobody has been told anything. -/
theorem of_journal_eq (h : m'.journal = m.journal) : m.Serves R m' :=
  ⟨[], by rw [h, List.append_nil], .nil⟩

theorem refl (m : Monitor) : m.Serves R m := of_journal_eq rfl

theorem trans (h : m.Serves R m') (h' : m'.Serves R m'') : m.Serves R m'' := by
  obtain ⟨added, eq, served⟩ := h
  obtain ⟨added', eq', served'⟩ := h'
  exact ⟨added ++ added', by rw [eq', eq, List.append_assoc], served.append served'⟩

theorem enter (m : Monitor) {entry : Entry} (h : entry.report? = none) :
    m.Serves R (m.enter entry) :=
  ⟨[entry], Array.toList_push, .apart h .nil⟩

theorem stepped (m : Monitor) (label : String) (answer : Answer) (stack : Option CallStack) :
    m.Serves R (m.stepped label answer stack) := enter m rfl

/-- A step that moves the profiler. -/
theorem moved (m : Monitor) (p : Profiler) (label : String) (answer : Answer)
    (stack : Option CallStack) :
    m.Serves R (({ m with profiler := p } : Monitor).stepped label answer stack) :=
  trans (of_journal_eq rfl) (stepped _ label answer stack)

end Serves

namespace Follows

/-- Following is the stronger of the two. -/
theorem serves (h : m.Follows R m') : m.Serves R m' := by
  obtain ⟨added, eq, served, _⟩ := h
  exact ⟨added, eq, served⟩

/-- With the same journal nothing has been told, and no step has been traced. -/
theorem of_journal_eq (h : m'.journal = m.journal) : m.Follows R m' :=
  ⟨[], by rw [h, List.append_nil], .nil, fun _ h => nomatch h⟩

theorem refl (m : Monitor) : m.Follows R m := of_journal_eq rfl

theorem trans (h : m.Follows R m') (h' : m'.Follows R m'') : m.Follows R m'' := by
  obtain ⟨added, eq, served, apart⟩ := h
  obtain ⟨added', eq', served', apart'⟩ := h'
  refine ⟨added ++ added', by rw [eq', eq, List.append_assoc], served.append served', ?_⟩
  intro entry hm
  rcases List.mem_append.mp hm with hm | hm
  · exact apart entry hm
  · exact apart' entry hm

/-- Only the journals matter. -/
theorem congr {n n' : Monitor} (h : m.Follows R m') (start : n.journal = m.journal)
    (finish : n'.journal = m'.journal) : n.Follows R n' := by
  obtain ⟨added, eq, rest⟩ := h
  exact ⟨added, by rw [start, finish, eq], rest⟩

theorem enter (m : Monitor) {entry : Entry} (h : entry.report? = none)
    (apart : entry.isStep = false) : m.Follows R (m.enter entry) := by
  refine ⟨[entry], Array.toList_push, .apart h .nil, ?_⟩
  intro entry' hm
  rw [List.mem_singleton.mp hm]
  exact apart

theorem logged (m : Monitor) (level : LogLevel) (message : String) :
    m.Follows R (m.logged level message) := enter m rfl rfl

end Follows

/-! ## The functions of the lifecycle -/

/-- Notes deliver nothing. -/
theorem Noted.follows (h : m.Noted m') : m.Follows R m' := by
  rcases h with rfl | ⟨message, rfl⟩
  · exact .refl _
  · exact .logged _ _ _

/-- Nothing is reported before the work. -/
theorem prepare_follows (m : Monitor) (stack : CallStack) (e : Execution) :
    m.Follows R (m.prepare stack e).2.2 := .of_journal_eq (prepare_journal m stack e)

/-- A hook is told of its execution, and no reporter is. -/
theorem runHook_follows (m : Monitor) (hook : Hook) (info : ExecutionInfo) :
    m.Follows R (m.runHook hook info) := by
  cases hook with
  | silent => exact .refl m
  | noted => exact .enter m rfl rfl
  | panicking => exact (Follows.enter m rfl rfl).trans (.logged _ _ _)

/-- Nor by an update of the metrics. -/
theorem updateMetrics_follows (m : Monitor) (update : MetricsUpdate) :
    m.Follows R (m.updateMetrics update).2 :=
  (Follows.enter m rfl rfl).congr rfl rfl

theorem countTime_follows (m : Monitor) (key : String) (info : ExecutionInfo) :
    m.Follows R (m.countTime key info) :=
  (updateMetrics_follows m _).trans (m.countTime_noted key info).follows

theorem countError_follows (m : Monitor) (key : String) : m.Follows R (m.countError key) :=
  (updateMetrics_follows m _).trans (m.countError_noted key).follows

theorem countUnder_follows (m : Monitor) (info : ExecutionInfo) (key : String) :
    m.Follows R (m.countUnder info key) := by
  unfold countUnder
  dsimp only
  split
  · exact (countTime_follows m key info).trans (countError_follows _ _)
  · exact countTime_follows m key info

theorem recordMetrics_follows (m : Monitor) (info : ExecutionInfo) :
    m.Follows R (m.recordMetrics info) :=
  (countUnder_follows m info _).trans (countUnder_follows _ info _)

/-- A trim is not written down. -/
theorem trim_journal (m : Monitor) (tree : CallTree) : (m.trim tree).2.journal = m.journal := by
  unfold trim
  dsimp only
  split <;> rfl

/-- Notes are written down one after the other. -/
theorem journal_enterNotes (m : Monitor) (notes : List Note) :
    (notes.foldl (fun m note => m.enter (.note note)) m).journal.toList =
      m.journal.toList ++ notes.map Entry.note := by
  induction notes generalizing m with
  | nil => exact (List.append_nil _).symm
  | cons note notes ih =>
    rw [List.foldl_cons, ih, List.map_cons]
    show (m.journal.push (.note note)).toList ++ _ = _
    rw [Array.toList_push, List.append_assoc, List.singleton_append]

/-- A gate that is not open is followed by no delivery. -/
theorem enter_gate_follows {report : ExecutionReport} (holds : R report) (m : Monitor)
    (name : String) {gate : Gate} (h : gate ≠ .wanted) :
    m.Follows R (m.enter (.gate name report gate)) := by
  refine ⟨[.gate name report gate], Array.toList_push, .declined holds h .nil, ?_⟩
  intro entry hm
  rw [List.mem_singleton.mp hm]
  rfl

/-- An open gate is followed by its delivery, with the reporter's own notes in between. -/
theorem delivered_follows {report : ExecutionReport} (holds : R report) (m : Monitor)
    (name : String) (notes : List Note) (reply : Reply ReportError) :
    m.Follows R (m.delivered name report notes reply) := by
  -- the whole delivery is one item of `Served`, so its entries are not added one after the other
  refine ⟨.gate name report .wanted :: (notes.map Entry.note ++ [.delivery name report reply]), ?_,
    .handed notes holds .nil, ?_⟩
  · show (Array.push _ _).toList = _
    rw [Array.toList_push, journal_enterNotes]
    show (m.journal.push _).toList ++ _ ++ _ = _
    rw [Array.toList_push, List.append_assoc, List.append_assoc]
    rfl
  · intro entry hm
    simp only [List.mem_cons, List.mem_append, List.mem_map, List.not_mem_nil, or_false] at hm
    rcases hm with rfl | ⟨note, _, rfl⟩ | rfl <;> rfl

/-- The one place where reports are handed over. -/
theorem offer_follows {report : ExecutionReport} (holds : R report) (m : Monitor)
    (reporter : Reporter) : m.Follows R (offer report m reporter) := by
  rcases m.offer_cases report reporter with ⟨gate, unwanted, noted⟩ | ⟨notes, reply, noted⟩
  · exact (enter_gate_follows holds m _ unwanted).trans noted.follows
  · exact (delivered_follows holds m _ notes reply).trans noted.follows

/-- A report is offered to the reporters in their order. -/
theorem offerAll_follows {report : ExecutionReport} (holds : R report) (reporters : List Reporter)
    (m : Monitor) : m.Follows R (reporters.foldl (offer report) m) := by
  induction reporters generalizing m with
  | nil => exact .refl m
  | cons reporter rest ih => exact (offer_follows holds m reporter).trans (ih _)

/-- A report is offered to all reporters, if the limit of its kind allows one. -/
theorem publish_follows {report : ExecutionReport} (holds : R report) (m : Monitor) :
    m.Follows R (m.publish report) := by
  unfold publish
  dsimp only
  split
  · exact .refl m
  · split
    · exact (Follows.of_journal_eq rfl).trans (offerAll_follows holds m.reporters _)
    · exact .of_journal_eq rfl

/-- What is reported at the end is the report of this execution, with the trimmed tree. -/
theorem finish_follows (m : Monitor) (stack : CallStack) (mode : Mode) (info : ExecutionInfo)
    (holds : R ⟨info, m.reportedTree stack mode⟩) : m.Follows R (m.finish stack mode info).2 := by
  cases mode with
  | bare => exact .refl m
  | nested depth forwardable =>
    cases forwardable with
    | false => exact .of_journal_eq rfl
    | true => exact (Follows.of_journal_eq rfl).trans (recordMetrics_follows _ info)
  | topLevel recorded =>
    cases recorded with
    | false => exact (recordMetrics_follows m info).trans (publish_follows holds _)
    | true =>
      have counted := recordMetrics_follows (R := R)
        { m with profiler := (stack.closeRoot m.profiler).2.2 } info
      unfold finish
      unfold reportedTree at holds
      dsimp only at holds ⊢
      rw [if_pos rfl]
      -- closing and recycling move the profiler only: `Follows.congr` passes over them
      cases closed : (stack.closeRoot m.profiler).1 with
      | none =>
        rw [closed] at holds
        exact (counted.trans (publish_follows holds _)).congr rfl rfl
      | some tree =>
        rw [closed, Option.map_some, ← recordMetrics_tree _ info] at holds
        refine Follows.trans (counted.congr rfl ?_) ((publish_follows holds _).congr rfl rfl)
        exact trim_journal _ _

/-- So is what is reported between the work of an execution and its end. -/
theorem conclude_follows (m : Monitor) (stack : CallStack) (mode : Mode) (e : Execution)
    (started : Reading) (failure : Option String)
    (holds : R ⟨m.infoOf e started failure, m.reportedTree stack mode⟩) :
    m.Follows R (m.conclude stack mode e started failure).2 := by
  unfold conclude
  dsimp only
  refine (runHook_follows m e.hook _).trans (finish_follows _ _ _ _ ?_)
  rw [runHook_reportedTree]
  exact holds

/-! ## Steps of a program on the monitor -/

/-- A new configuration is noted, and reported to nobody. -/
theorem reload_follows (m : Monitor) (next : ProfilerConfig) :
    m.Follows R (m.reload next).2 := by
  unfold reload reconfigure
  cases next.validate with
  | error e => exact .refl m
  | ok _ =>
    dsimp only
    rcases m.config.replace next with ⟨result, config⟩
    cases result with
    | error e => exact .of_journal_eq rfl
    | ok _ =>
      dsimp only
      split
      · exact (Follows.of_journal_eq rfl).trans (.logged _ _ _)
      · exact .of_journal_eq rfl

end Monitor

/-- No step between executions reports anything. -/
theorem MonitorMove.apply_follows {R : ExecutionReport → Prop} (step : MonitorMove) (m : Monitor) :
    m.Follows R (step.apply m).2 := by
  cases step with
  | reload next =>
    rw [apply_reload]
    exact m.reload_follows next
  | countError name => exact Monitor.updateMetrics_follows m _
  | _ => exact .of_journal_eq rfl

end CallProfiler
