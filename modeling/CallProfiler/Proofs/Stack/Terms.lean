import CallProfiler.Monitor.Lifecycle

/-!
# Proofs.Stack.Terms: what a stack leaves alone

The clock and the threshold of recordings to come are not for stacks to change: of all that they share,
operations on a stack change at most the pool (`Profiler.SameTerms`). The threshold of a recording is
fixed when it begins (`activate_moved`); every other operation begins no recording and leaves the
threshold of a running one as it is (`GoesOn`).
-/

namespace CallProfiler

/-- `p'` differs from `p` at most in its pool. -/
structure Profiler.SameTerms (p p' : Profiler) : Prop where
  now : p'.now = p.now
  threshold : p'.threshold = p.threshold

namespace Profiler

theorem SameTerms.refl (p : Profiler) : p.SameTerms p := ⟨rfl, rfl⟩

theorem SameTerms.trans {p p' p'' : Profiler} (h : p.SameTerms p') (h' : p'.SameTerms p'') :
    p.SameTerms p'' :=
  ⟨h'.now.trans h.now, h'.threshold.trans h.threshold⟩

theorem withPool_terms (p : Profiler) (pool : NodePool) : p.SameTerms { p with pool := pool } :=
  ⟨rfl, rfl⟩

/-- A recycled tree changes nothing but the pool. -/
theorem recycle?_terms (p : Profiler) (tree : Option CallTree) : p.SameTerms (p.recycle? tree) := by
  cases tree <;> exact ⟨rfl, rfl⟩

end Profiler

namespace CallStack

variable {s s' s'' : CallStack} {p p' p'' : Profiler}

/-- An operation that begins no recording: a running one keeps its threshold. -/
structure GoesOn (s : CallStack) (p : Profiler) (s' : CallStack) (p' : Profiler) : Prop where
  terms : p.SameTerms p'
  minimum : s'.minimum = s.minimum
  idle : s.isActive = false → s'.isActive = false

theorem GoesOn.refl (s : CallStack) (p : Profiler) : GoesOn s p s p := ⟨.refl p, rfl, id⟩

/-- Steps after which a recording goes on compose. -/
theorem GoesOn.trans (h : GoesOn s p s' p') (h' : GoesOn s' p' s'' p'') : GoesOn s p s'' p'' :=
  ⟨h.terms.trans h'.terms, h'.minimum.trans h.minimum, fun idle => h'.idle (h.idle idle)⟩

/-- A start leaves the clock, the threshold of the profiler and that of the recording alone. -/
theorem start_goesOn (s : CallStack) (p : Profiler) (signature : String) :
    GoesOn s p (s.start p signature).1 (s.start p signature).2 := by
  rcases s with ⟨_ | r, minimum⟩
  · exact .refl _ p
  · exact ⟨p.withPool_terms _, rfl, id⟩

theorem deactivate_goesOn (s : CallStack) (p : Profiler) :
    GoesOn s p (s.deactivate p).1 (s.deactivate p).2 :=
  ⟨p.recycle?_terms s.tree?, rfl, fun _ => rfl⟩

/-- So does a stop; if it ends the recording, there is none to go on. -/
theorem stopWith_goesOn (s : CallStack) (p : Profiler) (signature : Option String) :
    GoesOn s p (s.stopWith p signature).2.1 (s.stopWith p signature).2.2 := by
  rcases s with ⟨_ | r, minimum⟩
  · exact .refl _ p
  · unfold stopWith
    dsimp only
    split
    · exact ⟨(p.withPool_terms _).trans (deactivate_goesOn _ _).terms, rfl, fun _ => rfl⟩
    · exact ⟨p.withPool_terms _, rfl, id⟩
    · exact ⟨p.withPool_terms _, rfl, fun _ => rfl⟩

/-- So does a measured call. -/
theorem addIoCall_goesOn (s : CallStack) (p : Profiler) (description : String) (duration : UInt64) :
    GoesOn s p (s.addIoCall p description duration).1 (s.addIoCall p description duration).2 := by
  rcases s with ⟨_ | r, minimum⟩
  · exact .refl _ p
  · unfold addIoCall
    dsimp only
    split
    · exact .refl _ p
    · exact ⟨p.withPool_terms _, rfl, id⟩

/-- So does a change of name. -/
theorem setCurrentSignature_goesOn (s : CallStack) (p : Profiler) (signature : String) :
    GoesOn s p (s.setCurrentSignature signature).2 p := by
  rcases s with ⟨_ | r, minimum⟩
  · exact .refl _ p
  · exact ⟨.refl p, rfl, id⟩

/-- A tree that is finished is given back. -/
theorem GoesOn.recycle? (h : GoesOn s p s' p') (tree : Option CallTree) :
    GoesOn s p s' (p'.recycle? tree) :=
  ⟨h.terms.trans (p'.recycle?_terms tree), h.minimum, h.idle⟩

/-- So does entering a scope. -/
theorem enter_goesOn (s : CallStack) (p : Profiler) (signature : String) :
    GoesOn s p (s.enter p signature).2.1 (s.enter p signature).2.2 :=
  s.start_goesOn p signature

/-- So does leaving one. -/
theorem leave_goesOn (s : CallStack) (p : Profiler) (armed : Bool) :
    GoesOn s p (s.leave p armed).1 (s.leave p armed).2 := by
  cases armed with
  | false => exact .refl s p
  | true => exact (s.stopWith_goesOn p none).recycle? _

/-- So does unwinding, step by step. -/
theorem unwindSteps_goesOn (fuel depth : Nat) (s : CallStack) (p : Profiler) :
    GoesOn s p (unwindSteps fuel depth s p).1 (unwindSteps fuel depth s p).2 := by
  induction fuel generalizing s p with
  | zero => exact .refl s p
  | succ fuel ih =>
    unfold unwindSteps
    have stopped := s.stopWith_goesOn p none
    split
    · split <;> rename_i h <;> unfold stop at h <;> rw [h] at stopped
      · exact stopped.recycle? (some _)
      · exact stopped.trans (ih _ _)
    · exact .refl s p

/-- So does closing everything up to the root. -/
theorem closeSteps_goesOn (fuel : Nat) (s : CallStack) (p : Profiler) :
    GoesOn s p (closeSteps fuel s p).2.1 (closeSteps fuel s p).2.2 := by
  induction fuel generalizing s p with
  | zero => exact .refl s p
  | succ fuel ih =>
    unfold closeSteps
    have stopped := s.stopWith_goesOn p none
    split
    · split <;> rename_i h <;> unfold stop at h <;> rw [h] at stopped
      · exact stopped
      · exact stopped.trans (ih _ _)
    · exact .refl s p

/-- A recording that was running has kept its threshold, and one that has begun has the given one. -/
structure Held (s : CallStack) (threshold : UInt64) (s' : CallStack) : Prop where
  running : s.isActive = true → s'.minimum = s.minimum
  begun : s.isActive = false → s'.isActive = true → s'.minimum = threshold

theorem Held.refl (s : CallStack) (threshold : UInt64) : s.Held threshold s :=
  ⟨fun _ => rfl, fun idle active => absurd active (by simp [idle])⟩

/-- A recording that goes on keeps the threshold with which it began. -/
theorem GoesOn.held (h : GoesOn s p s' p') (threshold : UInt64) : s.Held threshold s' :=
  ⟨fun _ => h.minimum, fun idle active => absurd (h.idle idle) (by simp [active])⟩

/-- An operation that may begin a recording, with the threshold of the profiler. -/
structure Moved (s : CallStack) (p : Profiler) (s' : CallStack) (p' : Profiler) : Prop where
  terms : p.SameTerms p'
  held : s.Held p.threshold s'

theorem GoesOn.moved (h : GoesOn s p s' p') : Moved s p s' p' := ⟨h.terms, h.held _⟩

/-- Only activation takes over the threshold of the profiler. -/
theorem activate_moved (s : CallStack) (p : Profiler) (signature : String) :
    Moved s p (s.activate p signature).2.1 (s.activate p signature).2.2 := by
  cases active : s.isActive with
  | true =>
    simp only [activate, active, if_true]
    exact (GoesOn.refl s p).moved
  | false =>
    simp only [activate, active, Bool.false_eq_true, if_false]
    exact ⟨p.withPool_terms _, fun on => absurd on (by simp [active]), fun _ _ => rfl⟩

end CallStack

end CallProfiler
