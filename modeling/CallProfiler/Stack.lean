import CallProfiler.Tree.Trim
import CallProfiler.Tree.Snapshot

/-!
# Stack: the cursor of one execution

A call stack is either inactive or records a tree, of which it holds the innermost open node. `start`
goes one call down and `stop` one call up; the `stop` that closes the root hands the finished tree
over and leaves the stack inactive. Inactive stacks ignore calls, which is what every execution that
is not recorded does. The threshold below which calls are dropped is fixed when a recording begins.

All stacks share one `Profiler`: the clock, the pool of nodes and the threshold of the recordings to
come. A tree or a stack that is dropped gives its nodes back.
-/

namespace CallProfiler

/-- What all stacks share. -/
structure Profiler where
  now : Reading := 0
  pool : NodePool := {}
  /-- The threshold of recordings that begin from now on. -/
  threshold : UInt64 := 0
  deriving DecidableEq, Repr, Inhabited

/-- A running recording: its tree and the innermost open node. -/
structure Recording where
  tree : CallTree
  current : NodeRef
  deriving DecidableEq, Repr, Inhabited

/-- The cursor of one execution. -/
structure CallStack where
  recording : Option Recording := none
  /-- The threshold of the running recording. -/
  minimum : UInt64 := 0
  deriving DecidableEq, Repr, Inhabited

/-- Whether a stack records, and how deep it is. -/
inductive StackState where
  | inactive
  | rootOpen
  | nestedOpen
  deriving DecidableEq, Repr

namespace Profiler

/-- A profiler for a threshold. -/
def start (now : Reading) (pooling : Bool) (threshold : UInt64) : Profiler where
  now := now
  pool := { enabled := pooling }
  threshold := threshold

/-- An inactive stack. -/
def stack (p : Profiler) : CallStack := { minimum := p.threshold }

/-- Moves the clock. -/
def tick (p : Profiler) (step : ClockStep) : Profiler := { p with now := step.apply p.now }

/-- Takes a tree back. -/
def recycle (p : Profiler) (tree : CallTree) : Profiler := { p with pool := tree.recycle p.pool }

/-- Takes a tree back, if there is one. -/
def recycle? (p : Profiler) : Option CallTree → Profiler
  | some tree => p.recycle tree
  | none => p

end Profiler

namespace CallStack

/-! ## Readings -/

/-- Whether the stack records. -/
def isActive (s : CallStack) : Bool := s.recording.isSome

/-- The state of the stack. -/
def state (s : CallStack) : StackState :=
  match s.recording with
  | none => .inactive
  | some r => if r.current = r.tree.root then .rootOpen else .nestedOpen

/-- The number of open calls. -/
def depth (s : CallStack) : Nat :=
  match s.recording with
  | none => 0
  | some r => r.tree.depth r.current + 1

/-- The signature of the innermost open call. -/
def currentSignature (s : CallStack) : Option String :=
  s.recording.bind fun r => (r.tree.get? r.current).map (·.signature)

/-- The tree that is recorded. -/
def tree? (s : CallStack) : Option CallTree := s.recording.map (·.tree)

/-- The handles of the open calls, the innermost first. -/
def openCalls (s : CallStack) : List NodeRef :=
  match s.recording with
  | none => []
  | some r => r.current :: r.tree.ancestors r.current

/-! ## Moves -/

/-- Begins a recording and returns the handle of its root; refused while one is running. -/
def activate (s : CallStack) (p : Profiler) (signature : String) :
    Except RecordError NodeRef × CallStack × Profiler :=
  if s.isActive then (.error (.alreadyActive (s.currentSignature.getD "")), s, p)
  else
    let (tree, pool) := CallTree.begin p.pool p.now signature
    (.ok tree.root, ⟨some ⟨tree, tree.root⟩, p.threshold⟩, { p with pool := pool })

/-- Starts a call below the innermost open one. -/
def start (s : CallStack) (p : Profiler) (signature : String) : CallStack × Profiler :=
  match s.recording with
  | none => (s, p)
  | some r =>
    let (result, tree, pool) := r.tree.openChild p.pool p.now r.current signature
    let current := match result with
      | .ok child => child
      | .error _ => r.current
    ({ s with recording := some ⟨tree, current⟩ }, { p with pool := pool })

/-- Ends the running recording without a result. -/
def deactivate (s : CallStack) (p : Profiler) : CallStack × Profiler :=
  ({ s with recording := none }, p.recycle? s.tree?)

/-- Ends the innermost open call, under a new signature if one is given. The end of the root ends the
recording and returns the tree. A recording whose innermost call is gone is given up. -/
def stopWith (s : CallStack) (p : Profiler) (signature : Option String) :
    Option CallTree × CallStack × Profiler :=
  match s.recording with
  | none => (none, s, p)
  | some r =>
    let parent := r.tree.parent? r.current
    let (result, tree, pool) := r.tree.close p.pool p.now r.current signature s.minimum
    let p := { p with pool := pool }
    match result, parent with
    | .error _, _ => (none, { s with recording := some ⟨tree, r.current⟩ }.deactivate p)
    | .ok _, some parent => (none, { s with recording := some ⟨tree, parent⟩ }, p)
    -- the root is closed: the tree leaves the stack, and its nodes stay out of the pool
    | .ok _, none => (some tree, { s with recording := none }, p)

/-- Ends the innermost open call. -/
def stop (s : CallStack) (p : Profiler) : Option CallTree × CallStack × Profiler := s.stopWith p none

/-- Gives the innermost open call another signature; refused while nothing is recorded. -/
def setCurrentSignature (s : CallStack) (signature : String) : Except RecordError Unit × CallStack :=
  match s.recording with
  | none => (.error .notActive, s)
  | some r =>
    let (result, tree) := r.tree.setSignature r.current signature
    (result, { s with recording := some { r with tree := tree } })

/-- Records a call of a known duration below the innermost open one, unless it is faster than the
threshold. -/
def addIoCall (s : CallStack) (p : Profiler) (description : String) (duration : UInt64) :
    CallStack × Profiler :=
  match s.recording with
  | none => (s, p)
  | some r =>
    if duration < s.minimum then (s, p)
    else
      let (_, tree, pool) := r.tree.addIoCall p.pool p.now r.current description duration
      ({ s with recording := some { r with tree := tree } }, { p with pool := pool })

/-- Moves the recording to a stack of its own: that stack, and this one without it. -/
def take (s : CallStack) : CallStack × CallStack := (s, { s with recording := none })

/-- Drops the stack: what all stacks share afterwards. -/
def drop (s : CallStack) (p : Profiler) : Profiler := p.recycle? s.tree?

/-- Enters a guarded scope: whether the guard will end the call that was started. -/
def enter (s : CallStack) (p : Profiler) (signature : String) : Bool × CallStack × Profiler :=
  (s.isActive, s.start p signature)

/-- Leaves a guarded scope. A tree that is finished by it is given back. -/
def leave (s : CallStack) (p : Profiler) (armed : Bool) : CallStack × Profiler :=
  if armed then
    let (tree, s, p) := s.stop p
    (s, p.recycle? tree)
  else (s, p)

end CallStack

end CallProfiler
