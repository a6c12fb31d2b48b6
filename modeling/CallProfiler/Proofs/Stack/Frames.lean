import CallProfiler.Proofs.Stack.Systems
import CallProfiler.Proofs.Tree.Copies

/-!
# Proofs.Stack.Frames: what a call stack stands for

The reference for a call stack is a plain list of open calls, the innermost first, with the threshold
that was fixed when the recording began. A `Frame` is an open call with the copies of its finished
children. There are no handles, no slots and no open nodes with half of a net time.

Both the stacks and their reference are systems (`CallStack.system`, `FrameStack.system`), so the same
events can be given to both.
-/

namespace CallProfiler

/-! ## The reference -/

/-- An open call. -/
structure Frame where
  signature : String
  start : Reading
  /-- The calls below it that have ended and were kept, in call order. -/
  children : List Snapshot := []

/-- A stack of open calls, the innermost first, with the threshold of the running recording. -/
structure FrameStack where
  frames : List Frame := []
  minimum : UInt64 := 0

/-- What all stacks of open calls share. -/
structure FrameClock where
  now : Reading := 0
  threshold : UInt64 := 0

/-- The call ends. -/
def Frame.finish (f : Frame) (now : Reading) (signature : Option String) : Snapshot :=
  let gross := saturatingSub now f.start
  .node (signature.getD f.signature) gross (Snapshot.netTime gross f.children) false f.children

/-- A call below this one has ended and is kept. -/
def Frame.keep (f : Frame) (call : Snapshot) : Frame := { f with children := f.children ++ [call] }

namespace FrameStack

/-- The reading of a stack of open calls. -/
def reading (s : FrameStack) : StackReading where
  state :=
    match s.frames with
    | [] => .inactive
    | [_] => .rootOpen
    | _ => .nestedOpen
  depth := s.frames.length
  signature := s.frames.head?.map (·.signature)

/-- An operation on a stack of open calls. -/
def apply (c : FrameClock) (s : FrameStack) (op : StackOp) :
    StackAnswer Snapshot × FrameStack × FrameClock :=
  match op, s.frames with
  | .activate signature, [] => (.begun, ⟨[⟨signature, c.now, []⟩], c.threshold⟩, c)
  | .activate _, f :: _ => (.refused (.alreadyActive f.signature), s, c)
  | .start _, [] => (.silent, s, c)
  | .start signature, fs => (.silent, { s with frames := ⟨signature, c.now, []⟩ :: fs }, c)
  | .stop _, [] => (.silent, s, c)
  | .stop signature, [f] => (.finished (f.finish c.now signature), { s with frames := [] }, c)
  | .stop signature, f :: g :: fs =>
    let call := f.finish c.now signature
    let caller := if call.gross < s.minimum then g else g.keep call
    (.silent, { s with frames := caller :: fs }, c)
  | .io _ _, [] => (.silent, s, c)
  | .io description duration, f :: fs =>
    if duration < s.minimum then (.silent, s, c)
    else
      let leaf := f.keep (.node description duration duration true [])
      (.silent, { s with frames := leaf :: fs }, c)
  | .rename _, [] => (.refused .notActive, s, c)
  | .rename signature, f :: fs =>
    (.renamed, { s with frames := { f with signature := signature } :: fs }, c)
  | .deactivate, _ => (.silent, { s with frames := [] }, c)

/-- Stacks of open calls. -/
def system : StackSystem FrameClock FrameStack Snapshot where
  fresh c := { minimum := c.threshold }
  apply := apply
  take s := (s, { s with frames := [] })
  clock c step := { c with now := step.apply c.now }
  pool c _ := c
  threshold c nanos := { c with threshold := nanos }

end FrameStack

namespace CallStack

/-- The reading of a stack. -/
def reading (s : CallStack) : StackReading := ⟨s.state, s.depth, s.currentSignature⟩

/-- An operation on a stack. A tree that is finished by it is handed over. -/
def apply (p : Profiler) (s : CallStack) : StackOp → StackAnswer CallTree × CallStack × Profiler
  | .activate signature =>
    match s.activate p signature with
    | (.ok _, s, p) => (.begun, s, p)
    | (.error e, s, p) => (.refused e, s, p)
  | .start signature => (.silent, s.start p signature)
  | .stop signature =>
    match s.stopWith p signature with
    | (some tree, s, p) => (.finished tree, s, p)
    | (none, s, p) => (.silent, s, p)
  | .io description duration => (.silent, s.addIoCall p description duration)
  | .rename signature =>
    match s.setCurrentSignature signature with
    | (.ok _, s) => (.renamed, s, p)
    | (.error e, s) => (.refused e, s, p)
  | .deactivate => (.silent, s.deactivate p)

/-- What activation answers and leaves, for rewriting. -/
theorem apply_activate (p : Profiler) (s : CallStack) (signature : String) :
    apply p s (.activate signature) =
      (match (s.activate p signature).1 with
        | .ok _ => StackAnswer.begun
        | .error e => .refused e, (s.activate p signature).2) := by
  unfold apply
  dsimp only
  split <;> next ran => rw [ran]

/-- What a stop answers and leaves, for rewriting. -/
theorem apply_stop (p : Profiler) (s : CallStack) (signature : Option String) :
    apply p s (.stop signature) =
      (match (s.stopWith p signature).1 with
        | some tree => StackAnswer.finished tree
        | none => .silent, (s.stopWith p signature).2) := by
  unfold apply
  dsimp only
  split <;> next ran => rw [ran]

/-- What a change of name answers and leaves, for rewriting. -/
theorem apply_rename (p : Profiler) (s : CallStack) (signature : String) :
    apply p s (.rename signature) =
      (match (s.setCurrentSignature signature).1 with
        | .ok _ => StackAnswer.renamed
        | .error e => .refused e, (s.setCurrentSignature signature).2, p) := by
  unfold apply
  dsimp only
  split <;> next ran => rw [ran]

/-- Only the end of a call hands over a tree. -/
theorem tree?_apply (p : Profiler) (s : CallStack) (op : StackOp) :
    (apply p s op).1.tree? = match op with
      | .stop signature => (s.stopWith p signature).1
      | _ => none := by
  cases op with
  | activate signature =>
    rw [apply_activate]
    dsimp only
    split <;> rfl
  | stop signature =>
    rw [apply_stop]
    dsimp only
    split <;> next ran => rw [ran]; rfl
  | rename signature =>
    rw [apply_rename]
    dsimp only
    split <;> rfl
  | _ => rfl

/-- Call stacks on one profiler. -/
def system : StackSystem Profiler CallStack CallTree where
  fresh := Profiler.stack
  apply := apply
  take := take
  clock := Profiler.tick
  pool p e := { p with pool := p.pool.after e }
  threshold p nanos := { p with threshold := nanos }

end CallStack

end CallProfiler
