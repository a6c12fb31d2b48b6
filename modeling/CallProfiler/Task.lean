import CallProfiler.Stack

/-!
# Task: stacks that travel with a task

Work that is suspended and resumed cannot hold its stack in a variable of its caller. Instead the
stack lies in a slot of the task while a scope runs. Scopes nest: an inner scope covers the slot of
the outer one until it is left. A stack can be taken out of the innermost slot and put back; while the
slot is empty, and outside of any scope, calls are ignored.
-/

namespace CallProfiler

/-- The slots of a task, and the stacks that its program has taken out. -/
structure Task where
  /-- The slots of the scopes that run, the innermost first. -/
  slots : List (Option CallStack) := []
  /-- The stacks that were taken out, the one taken last first. -/
  taken : List CallStack := []
  deriving DecidableEq, Repr

namespace Task

/-- The stack in the innermost slot. -/
def stack? (t : Task) : Option CallStack := t.slots.head?.join

/-- Puts something into the innermost slot. -/
def setSlot (t : Task) (slot : Option CallStack) : Task :=
  { t with slots := match t.slots with
      | [] => []
      | _ :: outer => slot :: outer }

/-- Runs something on the stack in the innermost slot, if there is one. -/
def withStack {α : Type} (t : Task) (p : Profiler)
    (f : CallStack → Profiler → α × CallStack × Profiler) : Option α × Task × Profiler :=
  match t.stack? with
  | none => (none, t, p)
  | some stack =>
    let (value, stack, p) := f stack p
    (some value, t.setSlot (some stack), p)

/-- Takes the stack out of the innermost slot. -/
def takeStack (t : Task) : Option CallStack × Task :=
  match t.stack? with
  | none => (none, t)
  | some stack => (some stack, t.setSlot none)

/-- Puts a stack into the innermost slot. The stack that was there is dropped; outside of any scope
the stack itself is dropped. -/
def restoreStack (t : Task) (p : Profiler) (stack : CallStack) : Task × Profiler :=
  match t.slots with
  | [] => (t, stack.drop p)
  | slot :: _ =>
    (t.setSlot (some stack), match slot with
      | some displaced => displaced.drop p
      | none => p)

/-- Opens a scope with a stack in its slot. -/
def enterScope (t : Task) (stack : CallStack) : Task := { t with slots := some stack :: t.slots }

/-- Leaves a scope: the stack in its slot, or the given one if the slot is empty. -/
def leaveScope (t : Task) (fallback : CallStack) : CallStack × Task :=
  (t.stack?.getD fallback, { t with slots := t.slots.tail })

/-! ## Calls -/

/-- Starts a call. -/
def start (t : Task) (p : Profiler) (signature : String) : Task × Profiler :=
  (t.withStack p fun s p => ((), s.start p signature)).2

/-- Ends the innermost open call. -/
def stop (t : Task) (p : Profiler) : Option CallTree × Task × Profiler :=
  let (tree, t, p) := t.withStack p CallStack.stop
  (tree.join, t, p)

/-- Records a call of a known duration. -/
def addIoCall (t : Task) (p : Profiler) (description : String) (duration : UInt64) :
    Task × Profiler :=
  (t.withStack p fun s p => ((), s.addIoCall p description duration)).2

/-- Whether the task records. -/
def isActive (t : Task) : Bool := (t.stack?.map CallStack.isActive).getD false

/-- Enters a guarded scope: whether the guard will end the call that was started. -/
def enter (t : Task) (p : Profiler) (signature : String) : Bool × Task × Profiler :=
  (t.isActive, t.start p signature)

/-- Leaves a guarded scope. A tree that is finished by it is given back. -/
def leave (t : Task) (p : Profiler) (armed : Bool) : Task × Profiler :=
  if armed then
    let (tree, t, p) := t.stop p
    (t, p.recycle? tree)
  else (t, p)

end Task

end CallProfiler
