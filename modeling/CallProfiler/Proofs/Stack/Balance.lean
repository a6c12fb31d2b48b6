import CallProfiler.Monitor.Lifecycle
import CallProfiler.Proofs.Stack.OpenPath

/-!
# Proofs.Stack.Balance: no move of a stack loses a node

For each move of a stack there is one lemma that says what becomes of the stack and of the nodes in
use: `CallStack.Keeps` for those that return no tree, and `CallStack.Stopped` for `stop`. From these
follow `unwindTo_keeps` and `closeRoot_closes`: what is left open when work has ended is closed, and
the tree that comes out is finished.
-/

namespace CallProfiler

namespace CallStack

variable {s s' s'' : CallStack} {p p' p'' : Profiler} {tree : Option CallTree}

/-- The open calls of the running recording, if there is one, are a path from the root. -/
def Upright (s : CallStack) : Prop := ∀ r, s.recording = some r → r.tree.OpenPath r.current

/-- The number of nodes that are in use for the running recording. -/
def nodes (s : CallStack) : Nat := ((s.recording.map (·.tree)).map CallTree.size).getD 0

/-- The running recording can take another node. -/
def HasRoom (s : CallStack) : Prop := ∀ r, s.recording = some r → r.tree.slots.size < 2 ^ 32

/-- A stack has moved. It stays upright, no node is lost, and no recording has begun. -/
structure Keeps (s : CallStack) (p : Profiler) (s' : CallStack) (p' : Profiler) : Prop where
  upright : s'.Upright
  blank : p'.pool.AllBlank
  balanced : p.pool.Balanced s.nodes p'.pool s'.nodes
  idle : s.isActive = false → s'.isActive = false

/-- The innermost call has ended, if there was one. A tree that is finished by it leaves the stack;
otherwise the stack is one call less deep. -/
structure Stopped (s : CallStack) (p : Profiler) (tree : Option CallTree) (s' : CallStack)
    (p' : Profiler) : Prop where
  upright : s'.Upright
  blank : p'.pool.AllBlank
  balanced : p.pool.Balanced s.nodes p'.pool (s'.nodes + (tree.map CallTree.size).getD 0)
  idle : s.isActive = false → s'.isActive = false
  finished : ∀ t, tree = some t → t.Complete ∧ s'.recording = none
  openCalls : s'.openCalls = s.openCalls.tail
  lower : tree = none → s.isActive = true → s'.isActive = true ∧ s'.depth + 1 = s.depth

theorem Keeps.refl (upright : s.Upright) (blank : p.pool.AllBlank) : Keeps s p s p :=
  ⟨upright, blank, .refl _ _, id⟩

/-- Steps that keep a stack in order do so one after the other. -/
theorem Keeps.trans (h : Keeps s p s' p') (h' : Keeps s' p' s'' p'') : Keeps s p s'' p'' :=
  ⟨h'.upright, h'.blank, h.balanced.trans h'.balanced, fun idle => h'.idle (h.idle idle)⟩

/-- A stack without a recording is in order, for there is nothing to be in order. -/
theorem upright_of_idle (idle : s.recording = none) : s.Upright := by
  intro r hr
  rw [idle] at hr
  exact absurd hr (by simp)

/-- An idle stack has no nodes in use. -/
theorem nodes_of_idle (idle : s.recording = none) : s.nodes = 0 := by
  unfold nodes
  rw [idle]
  rfl

theorem isActive_eq_false : s.isActive = false ↔ s.recording = none := by
  unfold isActive
  rw [Option.isSome_eq_false_iff, Option.isNone_iff_eq_none]

theorem nodes_mk (t : CallTree) (x : NodeRef) (minimum : UInt64) :
    nodes ⟨some ⟨t, x⟩, minimum⟩ = t.size := rfl

theorem upright_mk {t : CallTree} {x : NodeRef} {minimum : UInt64} :
    Upright ⟨some ⟨t, x⟩, minimum⟩ ↔ t.OpenPath x :=
  ⟨fun up => up _ rfl, fun op _ hr => Option.some.inj hr ▸ op⟩

/-- A finished tree is given back at once. -/
theorem Stopped.recycled (h : Stopped s p tree s' p') : Keeps s p s' (p'.recycle? tree) := by
  cases tree with
  | none => exact ⟨h.upright, h.blank, h.balanced, h.idle⟩
  | some t =>
    rcases h.finished t rfl with ⟨done, idle⟩
    have balanced := h.balanced
    have given := CallTree.balanced_recycle done.wellFormed.toSlotted p'.pool
    rw [nodes_of_idle idle, Nat.zero_add] at balanced
    refine ⟨h.upright, CallTree.allBlank_recycle t h.blank, ?_, h.idle⟩
    rw [nodes_of_idle idle]
    exact balanced.trans given

/-- The end of a call leaves the stack in order; if it was the root's, the tree that is handed over is
complete. -/
theorem stopWith_stopped (upright : s.Upright) (blank : p.pool.AllBlank)
    (signature : Option String) :
    Stopped s p (s.stopWith p signature).1 (s.stopWith p signature).2.1
      (s.stopWith p signature).2.2 := by
  rcases s with ⟨_ | ⟨t, x⟩, minimum⟩
  · exact ⟨upright, blank, .refl _ _, id, fun t ht => absurd ht (by simp [stopWith]),
      rfl, fun _ active => absurd active (by simp [isActive])⟩
  · have op := upright_mk.mp upright
    rcases op.live with ⟨n, hx⟩
    rcases op.close hx blank p.now signature minimum with
      ⟨outcome, t', pool', eq, blank', balanced, root, inner⟩
    have above : t.parent? x = n.parent := by
      unfold CallTree.parent?
      rw [hx]
      rfl
    unfold stopWith
    dsimp only
    rw [above, eq]
    -- only the end of the root hands the tree out
    cases hp : n.parent with
    | none =>
      exact ⟨upright_of_idle rfl, blank', by simpa [nodes] using balanced, fun _ => rfl,
        fun t ht => ⟨Option.some.inj ht ▸ root hp, rfl⟩,
        ((CallTree.Path.root hx hp).ancestors op.wellFormed).symm, fun no => absurd no (by simp)⟩
    | some q =>
      rcases inner q hp with ⟨op', above⟩
      refine ⟨upright_mk.mpr op', blank', balanced, id, fun t ht => absurd ht (by simp),
        above.symm, ?_⟩
      intro _ _
      exact ⟨rfl, congrArg (·.length + 1) above.symm⟩

/-- A recording that begins is in order, with its root in use. -/
theorem activate_upright (idle : s.isActive = false) (blank : p.pool.AllBlank)
    (signature : String) :
    (s.activate p signature).2.1.Upright ∧ (s.activate p signature).2.2.pool.AllBlank ∧
    p.pool.Balanced s.nodes (s.activate p signature).2.2.pool (s.activate p signature).2.1.nodes := by
  unfold activate
  rw [idle, nodes_of_idle (isActive_eq_false.mp idle)]
  exact ⟨upright_mk.mpr (CallTree.openPath_begin blank p.now signature),
    (CallTree.begin_spec blank p.now signature).2, CallTree.balanced_begin blank p.now signature⟩

/-- The start of a call keeps a stack in order, and takes the node that the call is in. -/
theorem start_keeps (upright : s.Upright) (blank : p.pool.AllBlank) (room : s.HasRoom)
    (signature : String) : Keeps s p (s.start p signature).1 (s.start p signature).2 := by
  rcases s with ⟨_ | ⟨t, x⟩, minimum⟩
  · exact .refl upright blank
  · have op := upright_mk.mp upright
    rcases op.live with ⟨n, hx⟩
    rcases CallTree.openChild_live op.wellFormed (room _ rfl) blank hx p.now signature with
      ⟨c, t', eq, graft⟩
    have ok' := graft.wellFormed op.wellFormed hx rfl rfl rfl rfl
    have op' := (op.grafted hx graft ok' rfl rfl rfl).1 rfl
    have taken := CallTree.balanced_grafted op.wellFormed.toSlotted graft p.pool
    unfold start
    dsimp only
    rw [eq]
    exact ⟨upright_mk.mpr op', blank.acquire_snd, taken, id⟩

/-- So does a measured call, unless it is dropped for being fast. -/
theorem addIoCall_keeps (upright : s.Upright) (blank : p.pool.AllBlank) (room : s.HasRoom)
    (description : String) (duration : UInt64) :
    Keeps s p (s.addIoCall p description duration).1 (s.addIoCall p description duration).2 := by
  rcases s with ⟨_ | ⟨t, x⟩, minimum⟩
  · exact .refl upright blank
  · by_cases fast : duration < minimum
    · simp only [addIoCall, fast, if_true]
      exact .refl upright blank
    · have op := upright_mk.mp upright
      rcases op.live with ⟨n, hx⟩
      rcases CallTree.addIoCall_live op.wellFormed (room _ rfl) blank hx p.now description
        duration with ⟨c, t', eq, graft⟩
      have ok' := graft.wellFormed op.wellFormed hx rfl rfl rfl rfl
      have op' := (op.grafted hx graft ok' rfl rfl rfl).2 rfl
      have taken := CallTree.balanced_grafted op.wellFormed.toSlotted graft p.pool
      simp only [addIoCall, fast, if_false, eq]
      exact ⟨upright_mk.mpr op', blank.acquire_snd, taken, id⟩

theorem setCurrentSignature_keeps (upright : s.Upright) (blank : p.pool.AllBlank)
    (signature : String) : Keeps s p (s.setCurrentSignature signature).2 p := by
  rcases s with ⟨_ | ⟨t, x⟩, minimum⟩
  · exact .refl upright blank
  · have op := upright_mk.mp upright
    rcases op.live with ⟨n, hx⟩
    have op' := op.update x (f := ({ · with signature := signature })) fun m _ => ⟨rfl, rfl, rfl⟩
    simp only [setCurrentSignature, CallTree.setSignature_live hx]
    refine ⟨upright_mk.mpr op', blank, ?_, id⟩
    rw [nodes_mk, nodes_mk, CallTree.nodes_update]
    exact .refl _ _

/-- A recording that is given up gives all its nodes back. -/
theorem deactivate_keeps (upright : s.Upright) (blank : p.pool.AllBlank) :
    Keeps s p (s.deactivate p).1 (s.deactivate p).2 := by
  rcases s with ⟨_ | ⟨t, x⟩, minimum⟩
  · exact .refl upright blank
  · have op := upright_mk.mp upright
    exact ⟨upright_of_idle rfl, CallTree.allBlank_recycle t blank,
      CallTree.balanced_recycle op.wellFormed.toSlotted p.pool, fun _ => rfl⟩

/-- A scope starts its call if the stack is active. -/
theorem enter_keeps (upright : s.Upright) (blank : p.pool.AllBlank) (room : s.HasRoom)
    (signature : String) : Keeps s p (s.enter p signature).2.1 (s.enter p signature).2.2 :=
  start_keeps upright blank room signature

/-- The end of a scope stops one call, or does nothing if the scope was entered on an idle stack. -/
theorem leave_keeps (upright : s.Upright) (blank : p.pool.AllBlank) (armed : Bool) :
    Keeps s p (s.leave p armed).1 (s.leave p armed).2 := by
  unfold leave
  split
  · exact (stopWith_stopped upright blank none).recycled
  · exact .refl upright blank

/-! ## Closing what is open -/

/-- Unwinding stops calls one by one, and each stop keeps the stack in order. -/
theorem unwindSteps_keeps (fuel depth : Nat) (upright : s.Upright) (blank : p.pool.AllBlank) :
    Keeps s p (unwindSteps fuel depth s p).1 (unwindSteps fuel depth s p).2 := by
  induction fuel generalizing s p with
  | zero => exact .refl upright blank
  | succ fuel ih =>
    have stopped := stopWith_stopped upright blank none
    have kept := stopped.recycled
    unfold unwindSteps
    split
    · split <;> rename_i h <;> unfold stop at h <;> rw [h] at stopped kept
      · exact kept
      · exact kept.trans (ih stopped.upright stopped.blank)
    · exact .refl upright blank

/-- An active stack has at least its root open. -/
theorem depth_pos (active : s.isActive = true) : 0 < s.depth := by
  rcases s with ⟨_ | r, minimum⟩
  · exact absurd active (by simp [isActive])
  · exact Nat.succ_pos _

/-- Closing the root ends the recording, and the tree that it leaves is finished. -/
theorem closeSteps_closes (fuel : Nat) (upright : s.Upright) (blank : p.pool.AllBlank)
    (enough : s.depth ≤ fuel) :
    let closed := closeSteps fuel s p
    closed.2.1.recording = none ∧ closed.2.2.pool.AllBlank ∧
    (∀ t, closed.1 = some t → t.Complete) ∧
    p.pool.Balanced s.nodes closed.2.2.pool ((closed.1.map CallTree.size).getD 0) := by
  induction fuel generalizing s p with
  | zero =>
    have idle : s.isActive = false := by
      by_contra active
      have := depth_pos (Bool.eq_true_of_not_eq_false active)
      omega
    have none := isActive_eq_false.mp idle
    refine ⟨none, blank, fun t ht => absurd ht (by simp [closeSteps]), ?_⟩
    rw [nodes_of_idle none]
    exact .refl _ _
  | succ fuel ih =>
    have stopped := stopWith_stopped upright blank none
    unfold closeSteps
    by_cases active : s.isActive = true
    · rw [if_pos active]
      split <;> rename_i h <;> unfold stop at h <;> rw [h] at stopped
      · rename_i t s' p'
        rcases stopped.finished t rfl with ⟨done, idle⟩
        have balanced := stopped.balanced
        rw [nodes_of_idle idle, Nat.zero_add] at balanced
        exact ⟨idle, stopped.blank, fun u hu => Option.some.inj hu ▸ done, balanced⟩
      -- no tree came out, so the stack is one call less deep and the fuel still reaches the root
      · rename_i s' p'
        rcases stopped.lower rfl active with ⟨-, depth⟩
        rcases ih stopped.upright stopped.blank (by omega) with ⟨idle, blank', done, balanced⟩
        exact ⟨idle, blank', done, stopped.balanced.trans balanced⟩
    · have none := isActive_eq_false.mp (Bool.eq_false_of_not_eq_true active)
      rw [if_neg active]
      refine ⟨none, blank, fun t ht => absurd ht (by simp), ?_⟩
      rw [nodes_of_idle none]
      exact .refl _ _

/-- Unwinding to a depth keeps the stack in order. -/
theorem unwindTo_keeps (upright : s.Upright) (blank : p.pool.AllBlank) (depth : Nat) :
    Keeps s p (s.unwindTo p depth).1 (s.unwindTo p depth).2 :=
  unwindSteps_keeps s.depth depth upright blank

/-- However many calls are open, closing the root leaves the stack idle and hands over a complete tree.
-/
theorem closeRoot_closes (upright : s.Upright) (blank : p.pool.AllBlank) :
    let closed := s.closeRoot p
    closed.2.1.recording = none ∧ closed.2.2.pool.AllBlank ∧
    (∀ t, closed.1 = some t → t.Complete) ∧
    p.pool.Balanced s.nodes closed.2.2.pool ((closed.1.map CallTree.size).getD 0) :=
  closeSteps_closes s.depth upright blank (Nat.le_refl _)

end CallStack

end CallProfiler
