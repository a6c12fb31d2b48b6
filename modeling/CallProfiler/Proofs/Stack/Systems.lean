import CallProfiler.Stack
import CallProfiler.Proofs.Tree.History
import Mathlib.Data.List.Forall2

/-!
# Proofs.Stack.Systems: several stacks in one run

What callers do with call stacks is a list of events: an operation on one of the stacks, the transfer
of a recording to a new stack, another stack, a movement of the clock, and what others do to the pool.
The events are data, so that the same list can be given to different implementations of a stack. A
`StackSystem` is such an implementation, and a `Bench` is what it works on.

`StackSystem.Simulates` relates two systems stack by stack, and `Simulates.step` carries the relation
over to benches. `related_runs` is the only induction over runs: related systems give related answers
and stay related.
-/

namespace CallProfiler

/-! ## Runs -/

section Runs

variable {σ σ' ι α β : Type}

/-- The answers to a list of inputs. -/
def answers (step : σ → ι → α × σ) (s : σ) : List ι → List α
  | [] => []
  | i :: rest => (step s i).1 :: answers step (step s i).2 rest

/-- All states of a run, the first and the last one included. -/
def states (step : σ → ι → α × σ) (s : σ) : List ι → List σ
  | [] => [s]
  | i :: rest => s :: states step (step s i).2 rest

/-- If every step of a safe state answers alike and keeps a relation, so does every safe run. -/
theorem related_runs {step : σ → ι → α × σ} {step' : σ' → ι → β × σ'} {R : σ → σ' → Prop}
    {A : α → β → Prop} {Safe : σ → Prop}
    (each : ∀ s s' i, R s s' → Safe s → A (step s i).1 (step' s' i).1 ∧ R (step s i).2 (step' s' i).2)
    (inputs : List ι) {s : σ} {s' : σ'} (start : R s s') (safe : ∀ v ∈ states step s inputs, Safe v) :
    List.Forall₂ A (answers step s inputs) (answers step' s' inputs) ∧
    List.Forall₂ R (states step s inputs) (states step' s' inputs) := by
  induction inputs generalizing s s' with
  | nil => exact ⟨.nil, .cons start .nil⟩
  | cons i rest ih =>
    have here := safe s (List.mem_cons_self ..)
    rcases each s s' i start here with ⟨answer, next⟩
    rcases ih next fun v hv => safe v (List.mem_cons_of_mem _ hv) with ⟨later, kept⟩
    exact ⟨.cons answer later, .cons start kept⟩

end Runs

/-! ## Operations and answers -/

/-- An operation on a call stack. -/
inductive StackOp where
  | activate (signature : String)
  | start (signature : String)
  | stop (signature : Option String)
  | io (description : String) (duration : UInt64)
  | rename (signature : String)
  | deactivate
  deriving DecidableEq, Repr

/-- The answer to an operation, with finished trees of some kind. -/
inductive StackAnswer (α : Type) where
  | silent
  | begun
  | renamed
  | refused (e : RecordError)
  | finished (tree : α)

/-- The tree that is handed over with an answer, if there is one. -/
def StackAnswer.tree? {α : Type} : StackAnswer α → Option α
  | .finished tree => some tree
  | _ => none

/-- Two answers are the same, up to a relation of finished trees. -/
inductive StackAnswer.Agree {α β : Type} (A : α → β → Prop) : StackAnswer α → StackAnswer β → Prop where
  | silent : Agree A .silent .silent
  | begun : Agree A .begun .begun
  | renamed : Agree A .renamed .renamed
  | refused (e : RecordError) : Agree A (.refused e) (.refused e)
  | finished {a : α} {b : β} : A a b → Agree A (.finished a) (.finished b)

/-- Answers that agree in one way agree in every weaker way. -/
theorem StackAnswer.Agree.imp {α β : Type} {A B : α → β → Prop} (weaker : ∀ {a b}, A a b → B a b)
    {x : StackAnswer α} {y : StackAnswer β} (agree : Agree A x y) : Agree B x y := by
  cases agree with
  | silent => exact .silent
  | begun => exact .begun
  | renamed => exact .renamed
  | refused e => exact .refused e
  | finished finished => exact .finished (weaker finished)

/-- Answers that agree with two agreeing answers agree in turn. -/
theorem StackAnswer.Agree.square {α β γ δ : Type} {A : α → β → Prop} {B : γ → δ → Prop}
    {C : β → δ → Prop} {D : α → γ → Prop}
    (closes : ∀ {a b c d}, A a b → B c d → C b d → D a c) {x : StackAnswer α} {x' : StackAnswer β}
    {y : StackAnswer γ} {y' : StackAnswer δ} (left : Agree A x x') (right : Agree B y y')
    (across : Agree C x' y') : Agree D x y := by
  cases left with
  | silent =>
    cases across
    cases right
    exact .silent
  | begun =>
    cases across
    cases right
    exact .begun
  | renamed =>
    cases across
    cases right
    exact .renamed
  | refused e =>
    cases across
    cases right
    exact .refused e
  | finished a =>
    cases across with
    | finished c =>
      cases right with
      | finished b => exact .finished (closes a b c)

/-- What can be read off a stack at any time. -/
structure StackReading where
  state : StackState
  depth : Nat
  signature : Option String
  deriving DecidableEq, Repr

/-! ## Systems -/

/-- What callers do with the stacks; `k` numbers a stack. -/
inductive StackEvent where
  | on (k : Nat) (op : StackOp)
  | take (k : Nat)
  | fresh
  | clock (step : ClockStep)
  | pool (e : PoolEvent)

/-- What callers do with the stacks and with what they share. -/
inductive ProfilerEvent where
  | stack (e : StackEvent)
  | threshold (nanos : UInt64)

/-- An implementation of call stacks: `ε` is what all stacks share, `σ` is a stack, and `α` is a
finished tree. -/
structure StackSystem (ε σ α : Type) where
  fresh : ε → σ
  apply : ε → σ → StackOp → StackAnswer α × σ × ε
  take : σ → σ × σ
  clock : ε → ClockStep → ε
  pool : ε → PoolEvent → ε
  threshold : ε → UInt64 → ε

/-- What a system works on. -/
structure Bench (ε σ : Type) where
  shared : ε
  members : List σ

namespace StackSystem

variable {ε σ α ε' σ' β : Type}

/-- A bench with one stack. -/
def bench (S : StackSystem ε σ α) (shared : ε) : Bench ε σ := ⟨shared, [S.fresh shared]⟩

/-- One event. The stack that a recording is moved to gets the next number, and an event for a stack
that does not exist is ignored. -/
def step (S : StackSystem ε σ α) (w : Bench ε σ) : StackEvent → StackAnswer α × Bench ε σ
  | .on k op =>
    match w.members[k]? with
    | none => (.silent, w)
    | some s =>
      let (answer, s, shared) := S.apply w.shared s op
      (answer, { shared, members := w.members.set k s })
  | .take k =>
    match w.members[k]? with
    | none => (.silent, w)
    | some s =>
      let (moved, left) := S.take s
      (.silent, { w with members := w.members.set k left ++ [moved] })
  | .fresh => (.silent, { w with members := w.members ++ [S.fresh w.shared] })
  | .clock c => (.silent, { w with shared := S.clock w.shared c })
  | .pool e => (.silent, { w with shared := S.pool w.shared e })

/-- One event, which may also change the threshold of the recordings to come. -/
def stepAny (S : StackSystem ε σ α) (w : Bench ε σ) : ProfilerEvent → StackAnswer α × Bench ε σ
  | .stack e => S.step w e
  | .threshold nanos => (.silent, { w with shared := S.threshold w.shared nanos })

/-- Two systems keep a relation of what their stacks share and a relation of stacks, and finish related
trees, as long as the stacks of the first one are safe. -/
structure Simulates (S : StackSystem ε σ α) (S' : StackSystem ε' σ' β) (E : ε → ε' → Prop)
    (R : σ → σ' → Prop) (A : α → β → Prop) (Safe : σ → Prop) : Prop where
  fresh : ∀ {e e'}, E e e' → R (S.fresh e) (S'.fresh e')
  apply : ∀ {e e' s s'}, E e e' → R s s' → Safe s → ∀ op,
    StackAnswer.Agree A (S.apply e s op).1 (S'.apply e' s' op).1 ∧
    R (S.apply e s op).2.1 (S'.apply e' s' op).2.1 ∧
    E (S.apply e s op).2.2 (S'.apply e' s' op).2.2
  take : ∀ {s s'}, R s s' → R (S.take s).1 (S'.take s').1 ∧ R (S.take s).2 (S'.take s').2
  clock : ∀ {e e'}, E e e' → ∀ c, E (S.clock e c) (S'.clock e' c)
  pool : ∀ {e e'}, E e e' → ∀ p, E (S.pool e p) (S'.pool e' p)

/-- The relation of benches: what the stacks share is related, and the stacks are, one by one. -/
def Related (E : ε → ε' → Prop) (R : σ → σ' → Prop) (w : Bench ε σ) (w' : Bench ε' σ') : Prop :=
  E w.shared w'.shared ∧ List.Forall₂ R w.members w'.members

/-- Related lists have related members at each place, or none. -/
theorem forall₂_getElem? {R : σ → σ' → Prop} {l : List σ} {l' : List σ'} (rel : List.Forall₂ R l l')
    (k : Nat) : l[k]? = none ∧ l'[k]? = none ∨ ∃ s s', l[k]? = some s ∧ l'[k]? = some s' ∧ R s s' := by
  induction rel generalizing k with
  | nil => exact Or.inl ⟨rfl, rfl⟩
  | @cons a b l l' first _ ih =>
    cases k with
    | zero => exact Or.inr ⟨a, b, rfl, rfl, first⟩
    | succ k => exact ih k

/-- Related lists stay so if related members are put in one place. -/
theorem forall₂_set {R : σ → σ' → Prop} {l : List σ} {l' : List σ'} (rel : List.Forall₂ R l l')
    (k : Nat) {s : σ} {s' : σ'} (r : R s s') : List.Forall₂ R (l.set k s) (l'.set k s') := by
  induction rel generalizing k with
  | nil => exact .nil
  | cons first rest ih =>
    cases k with
    | zero => exact .cons r rest
    | succ k => exact .cons first (ih k)

theorem forall₂_concat {R : σ → σ' → Prop} {l : List σ} {l' : List σ'} (rel : List.Forall₂ R l l')
    {s : σ} {s' : σ'} (r : R s s') : List.Forall₂ R (l ++ [s]) (l' ++ [s']) := by
  induction rel with
  | nil => exact .cons r .nil
  | cons first _ ih => exact .cons first ih

theorem forall₂_map_eq {γ : Type} {R : σ → σ' → Prop} {f : σ → γ} {g : σ' → γ}
    (same : ∀ {s s'}, R s s' → f s = g s') {l : List σ} {l' : List σ'}
    (rel : List.Forall₂ R l l') : l.map f = l'.map g := by
  induction rel with
  | nil => rfl
  | cons first _ ih => rw [List.map_cons, List.map_cons, same first, ih]

theorem forall₂_exists {R : σ → σ' → Prop} {l : List σ} {l' : List σ'} (rel : List.Forall₂ R l l')
    {s : σ} (hs : s ∈ l) : ∃ s', R s s' := by
  induction rel with
  | nil => exact absurd hs (by simp)
  | cons first _ ih =>
    rcases List.mem_cons.mp hs with same | later
    · exact ⟨_, same ▸ first⟩
    · exact ih later

variable {S : StackSystem ε σ α} {S' : StackSystem ε' σ' β} {E : ε → ε' → Prop} {R : σ → σ' → Prop}
  {A : α → β → Prop} {Safe : σ → Prop}

/-- Benches that begin with related profilers are related. -/
theorem Simulates.bench (sim : S.Simulates S' E R A Safe) {e : ε} {e' : ε'} (shared : E e e') :
    Related E R (S.bench e) (S'.bench e') :=
  ⟨shared, .cons (sim.fresh shared) .nil⟩

/-- Related benches stay related in one event, if they do where the event is an operation. -/
theorem Simulates.step_of (sim : S.Simulates S' E R A Safe) {w : Bench ε σ} {w' : Bench ε' σ'}
    (event : StackEvent) (rel : Related E R w w')
    (each : ∀ k op s s', w.members[k]? = some s → w'.members[k]? = some s' → R s s' →
      event = .on k op →
      StackAnswer.Agree A (S.apply w.shared s op).1 (S'.apply w'.shared s' op).1 ∧
      R (S.apply w.shared s op).2.1 (S'.apply w'.shared s' op).2.1 ∧
      E (S.apply w.shared s op).2.2 (S'.apply w'.shared s' op).2.2) :
    StackAnswer.Agree A (S.step w event).1 (S'.step w' event).1 ∧
    Related E R (S.step w event).2 (S'.step w' event).2 := by
  rcases rel with ⟨shared, members⟩
  cases event with
  | on k op =>
    rcases forall₂_getElem? members k with ⟨none, none'⟩ | ⟨s, s', hs, hs', related⟩
    · simp only [StackSystem.step, none, none']
      exact ⟨.silent, shared, members⟩
    · rcases each k op s s' hs hs' related rfl with ⟨answer, next, shared'⟩
      simp only [StackSystem.step, hs, hs']
      exact ⟨answer, shared', forall₂_set members k next⟩
  | take k =>
    rcases forall₂_getElem? members k with ⟨none, none'⟩ | ⟨s, s', hs, hs', related⟩
    · simp only [StackSystem.step, none, none']
      exact ⟨.silent, shared, members⟩
    · rcases sim.take related with ⟨moved, left⟩
      simp only [StackSystem.step, hs, hs']
      exact ⟨.silent, shared, forall₂_concat (forall₂_set members k left) moved⟩
  | fresh => exact ⟨.silent, shared, forall₂_concat members (sim.fresh shared)⟩
  | clock c => exact ⟨.silent, sim.clock shared c, members⟩
  | pool e => exact ⟨.silent, sim.pool shared e, members⟩

/-- Related benches give agreeing answers to an event, and stay related. -/
theorem Simulates.step (sim : S.Simulates S' E R A Safe) {w : Bench ε σ} {w' : Bench ε' σ'}
    (event : StackEvent) (rel : Related E R w w') (safe : ∀ s ∈ w.members, Safe s) :
    StackAnswer.Agree A (S.step w event).1 (S'.step w' event).1 ∧
    Related E R (S.step w event).2 (S'.step w' event).2 := by
  apply sim.step_of event rel
  intro k op s s' hs _ related _
  exact sim.apply rel.1 related (safe s (List.mem_of_getElem? hs)) op

/-- The same for events that may also change the threshold. -/
theorem Simulates.stepAny (sim : S.Simulates S' E R A Safe)
    (threshold : ∀ {e e'}, E e e' → ∀ nanos, E (S.threshold e nanos) (S'.threshold e' nanos))
    {w : Bench ε σ} {w' : Bench ε' σ'} (event : ProfilerEvent) (rel : Related E R w w')
    (safe : ∀ s ∈ w.members, Safe s) :
    StackAnswer.Agree A (S.stepAny w event).1 (S'.stepAny w' event).1 ∧
    Related E R (S.stepAny w event).2 (S'.stepAny w' event).2 := by
  cases event with
  | stack e => exact sim.step e rel safe
  | threshold nanos => exact ⟨.silent, threshold rel.1 nanos, rel.2⟩

/-! ## Invariants -/

/-- A system keeps a property of what its stacks share and a property of stacks, and all trees that it
finishes are of one kind, as long as its stacks are safe. -/
structure Preserves (S : StackSystem ε σ α) (E : ε → Prop) (I : σ → Prop) (A : α → Prop)
    (Safe : σ → Prop) : Prop where
  fresh : ∀ {e}, E e → I (S.fresh e)
  apply : ∀ {e s}, E e → I s → Safe s → ∀ op,
    (∀ a, (S.apply e s op).1.tree? = some a → A a) ∧
    I (S.apply e s op).2.1 ∧ E (S.apply e s op).2.2
  take : ∀ {s}, I s → I (S.take s).1 ∧ I (S.take s).2
  clock : ∀ {e}, E e → ∀ c, E (S.clock e c)
  pool : ∀ {e}, E e → ∀ p, E (S.pool e p)
  threshold : ∀ {e}, E e → ∀ nanos, E (S.threshold e nanos)

variable {E : ε → Prop} {I : σ → Prop} {A : α → Prop}

/-- A system with an invariant simulates itself. -/
theorem Preserves.simulates (keeps : S.Preserves E I A Safe) :
    S.Simulates S (fun e e' => e = e' ∧ E e) (fun s s' => s = s' ∧ I s)
      (fun a a' => a = a' ∧ A a) Safe where
  fresh := by
    rintro e _ ⟨rfl, shared⟩
    exact ⟨rfl, keeps.fresh shared⟩
  apply := by
    rintro e _ s _ ⟨rfl, shared⟩ ⟨rfl, kept⟩ safe op
    rcases keeps.apply shared kept safe op with ⟨finished, next, shared'⟩
    refine ⟨?_, ⟨rfl, next⟩, ⟨rfl, shared'⟩⟩
    cases answer : (S.apply e s op).1 with
    | silent => exact .silent
    | begun => exact .begun
    | renamed => exact .renamed
    | refused e => exact .refused e
    | finished a => exact .finished ⟨rfl, finished a (by rw [answer]; rfl)⟩
  take := by
    rintro s _ ⟨rfl, kept⟩
    exact ⟨⟨rfl, (keeps.take kept).1⟩, ⟨rfl, (keeps.take kept).2⟩⟩
  clock := by
    rintro e _ ⟨rfl, shared⟩ c
    exact ⟨rfl, keeps.clock shared c⟩
  pool := by
    rintro e _ ⟨rfl, shared⟩ p
    exact ⟨rfl, keeps.pool shared p⟩

/-- Every tree that is finished in a safe run is of the kind that the system finishes. -/
theorem Preserves.finished (keeps : S.Preserves E I A Safe) {e : ε} (shared : E e)
    (events : List ProfilerEvent)
    (safe : ∀ w ∈ states S.stepAny (S.bench e) events, ∀ s ∈ w.members, Safe s) {a : α}
    (finished : a ∈ (answers S.stepAny (S.bench e) events).filterMap StackAnswer.tree?) : A a := by
  have sim := keeps.simulates
  have threshold : ∀ {e e' : ε}, e = e' ∧ E e → ∀ nanos,
      S.threshold e nanos = S.threshold e' nanos ∧ E (S.threshold e nanos) := by
    rintro e _ ⟨rfl, shared⟩ nanos
    exact ⟨rfl, keeps.threshold shared nanos⟩
  have agree := (related_runs (fun _ _ event rel safe => sim.stepAny threshold event rel safe)
    events (sim.bench ⟨rfl, shared⟩) safe).1
  rcases List.mem_filterMap.mp finished with ⟨answer, mem, handed⟩
  rcases forall₂_exists agree mem with ⟨answer', same⟩
  cases same with
  | finished both =>
    cases Option.some.inj handed
    exact both.2
  | _ => exact absurd handed (by simp [StackAnswer.tree?])

end StackSystem

end CallProfiler
