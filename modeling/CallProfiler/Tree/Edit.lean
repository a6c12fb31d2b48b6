import CallProfiler.Tree.Trim

/-!
# Tree.Edit: the changes of a tree as data

Everything that changes a tree after it was begun is a `TreeEdit`, so that a history of a tree can be
given as a list. `CallTree.edit` makes one change, at the reading of the clock that goes with it.
-/

namespace CallProfiler

/-- A change of a tree. -/
inductive TreeEdit where
  | openChild (parent : NodeRef) (signature : String)
  | close (node : NodeRef) (signature : Option String) (minimum : UInt64)
  | addIoCall (parent : NodeRef) (description : String) (duration : UInt64)
  | setSignature (node : NodeRef) (signature : String)
  | trim (threshold : UInt64)
  deriving DecidableEq, Repr

/-- The answer to a change. -/
inductive EditAnswer where
  | issued (node : NodeRef)
  | closed (outcome : CloseOutcome)
  | done
  | refused (error : RecordError)
  deriving DecidableEq, Repr

namespace EditAnswer

/-- The answer from a result. -/
def ofExcept {α : Type} (f : α → EditAnswer) : Except RecordError α → EditAnswer
  | .ok value => f value
  | .error e => .refused e

end EditAnswer

namespace CallTree

/-- Makes one change at a reading. -/
def edit (t : CallTree) (pool : NodePool) (now : Reading) :
    TreeEdit → EditAnswer × CallTree × NodePool
  | .openChild parent signature =>
    let (result, t, pool) := t.openChild pool now parent signature
    (.ofExcept .issued result, t, pool)
  | .close node signature minimum =>
    let (result, t, pool) := t.close pool now node signature minimum
    (.ofExcept .closed result, t, pool)
  | .addIoCall parent description duration =>
    let (result, t, pool) := t.addIoCall pool now parent description duration
    (.ofExcept .issued result, t, pool)
  | .setSignature node signature =>
    let (result, t) := t.setSignature node signature
    (.ofExcept (fun _ => .done) result, t, pool)
  | .trim threshold =>
    let (t, pool) := t.removeCallsFasterThan pool threshold
    (.done, t, pool)

end CallTree

end CallProfiler
