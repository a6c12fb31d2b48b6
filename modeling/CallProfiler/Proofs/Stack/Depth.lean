import CallProfiler.Proofs.Stack.Balance

/-!
# Proofs.Stack.Depth: the open calls after a move

A stack that records goes one call down with `start` and one call up with `stop`; moves that neither
start nor end a call leave its open calls as they were. So whatever is balanced does not reach the
root of the recording: `Sustains`.

A move never touches open calls in the middle: it either starts calls below the innermost one, or
ends some of the innermost ones (`Shifts`). So the calls that were open when a stack was `depth` deep
are open for as long as it is at least that deep (`Shifts.suffix`), whichever calls have come and
gone in between.
-/

namespace CallProfiler

namespace CallStack

variable {s s' s'' : CallStack} {p : Profiler}

/-- A stack has moved. It records if it did before, and it is at least as deep. -/
structure Sustains (s s' : CallStack) : Prop where
  active : s'.isActive = s.isActive
  depth : s.depth ≤ s'.depth

theorem Sustains.refl (s : CallStack) : Sustains s s := ⟨rfl, Nat.le_refl _⟩

/-- Sustaining steps compose. -/
theorem Sustains.trans (h : Sustains s s') (h' : Sustains s' s'') : Sustains s s'' :=
  ⟨h'.active.trans h.active, Nat.le_trans h.depth h'.depth⟩

/-- An idle stack has no depth. -/
theorem depth_of_idle (idle : s.isActive = false) : s.depth = 0 := by
  unfold depth
  rw [isActive_eq_false.mp idle]

/-- While nothing is recorded, there is nothing to be sustained. -/
theorem sustains_of_idle (idle : s.isActive = false) (idle' : s'.isActive = false) : Sustains s s' :=
  ⟨idle'.trans idle.symm, by rw [depth_of_idle idle]; exact Nat.zero_le _⟩

/-! ## Starting calls and changing them -/

/-- The depth counts the open calls. -/
theorem depth_eq_length (s : CallStack) : s.depth = s.openCalls.length := by
  rcases s with ⟨_ | r, minimum⟩
  · rfl
  · rfl

/-- A call that has started is one call below the innermost one so far, and it is a call that the
recording did not have before. -/
theorem start_openCalls (upright : s.Upright) (blank : p.pool.AllBlank) (room : s.HasRoom)
    (active : s.isActive = true) (signature : String) :
    ∃ c, (s.start p signature).1.openCalls = c :: s.openCalls ∧
      (∀ t, s.tree? = some t → t.get? c = none) ∧
      (s.start p signature).1.isActive = true := by
  rcases s with ⟨_ | ⟨t, x⟩, minimum⟩
  · exact absurd active (by simp [isActive])
  · have op := upright_mk.mp upright
    rcases op.live with ⟨n, hx⟩
    rcases CallTree.openChild_live op.wellFormed (room _ rfl) blank hx p.now signature with
      ⟨c, t', eq, graft⟩
    have ok' := graft.wellFormed op.wellFormed hx rfl rfl rfl rfl
    have child := (graft.get? c).trans (if_pos rfl)
    have below := CallTree.ancestors_cons ok' child rfl
    rw [(graft.above op.wellFormed ok' hx rfl).2] at below
    refine ⟨c, ?_, fun u hu => Option.some.inj hu ▸ graft.fresh, ?_⟩
    · unfold start
      dsimp only
      rw [eq]
      exact congrArg (c :: ·) below
    · unfold start
      dsimp only
      rw [eq]
      rfl

/-- A start on an active stack makes it one deeper. -/
theorem start_depth (upright : s.Upright) (blank : p.pool.AllBlank) (room : s.HasRoom)
    (active : s.isActive = true) (signature : String) :
    (s.start p signature).1.isActive = true ∧ (s.start p signature).1.depth = s.depth + 1 := by
  rcases start_openCalls upright blank room active signature with ⟨c, calls, -, active'⟩
  refine ⟨active', ?_⟩
  rw [depth_eq_length, depth_eq_length, calls, List.length_cons]

/-- No start makes a stack less deep or active. -/
theorem start_sustains (upright : s.Upright) (blank : p.pool.AllBlank) (room : s.HasRoom)
    (signature : String) : Sustains s (s.start p signature).1 := by
  cases active : s.isActive with
  | false => exact sustains_of_idle active ((start_keeps upright blank room signature).idle active)
  | true =>
    rcases start_depth upright blank room active signature with ⟨active', depth⟩
    exact ⟨active'.trans active.symm, by omega⟩

/-- A measured call leaves the open calls alone, kept or dropped. -/
theorem addIoCall_openCalls (upright : s.Upright) (blank : p.pool.AllBlank) (room : s.HasRoom)
    (description : String) (duration : UInt64) :
    (s.addIoCall p description duration).1.openCalls = s.openCalls ∧
    (s.addIoCall p description duration).1.isActive = s.isActive := by
  rcases s with ⟨_ | ⟨t, x⟩, minimum⟩
  · exact ⟨rfl, rfl⟩
  · by_cases fast : duration < minimum
    · simp only [addIoCall, fast, if_true, and_self]
    · have op := upright_mk.mp upright
      rcases op.live with ⟨n, hx⟩
      rcases CallTree.addIoCall_live op.wellFormed (room _ rfl) blank hx p.now description
        duration with ⟨c, t', eq, graft⟩
      have ok' := graft.wellFormed op.wellFormed hx rfl rfl rfl rfl
      have same := (graft.above op.wellFormed ok' hx rfl).2
      simp only [addIoCall, fast, if_false, eq]
      exact ⟨congrArg (x :: ·) same, rfl⟩

/-- So does a change of name. -/
theorem setCurrentSignature_openCalls (upright : s.Upright) (signature : String) :
    (s.setCurrentSignature signature).2.openCalls = s.openCalls ∧
    (s.setCurrentSignature signature).2.isActive = s.isActive := by
  rcases s with ⟨_ | ⟨t, x⟩, minimum⟩
  · exact ⟨rfl, rfl⟩
  · have op := upright_mk.mp upright
    rcases op.live with ⟨n, hx⟩
    have op' := op.update x (f := ({ · with signature := signature })) fun m _ => ⟨rfl, rfl, rfl⟩
    have same : (t.update x ({ · with signature := signature })).ancestors x = t.ancestors x := by
      refine (CallTree.above_congr op.wellFormed op'.wellFormed op.live ?_).2
      intro y m _ hy
      rw [CallTree.get?_update]
      split
      · rename_i here
        subst here
        exact ⟨{ m with signature := signature }, congrArg (Option.map _) hy, rfl⟩
      · exact ⟨m, hy, rfl⟩
    simp only [setCurrentSignature, CallTree.setSignature_live hx]
    exact ⟨congrArg (x :: ·) same, rfl⟩

theorem sustains_of_openCalls
    (same : s'.openCalls = s.openCalls ∧ s'.isActive = s.isActive) : Sustains s s' :=
  ⟨same.2, by rw [depth_eq_length, depth_eq_length, same.1]⟩

theorem addIoCall_sustains (upright : s.Upright) (blank : p.pool.AllBlank) (room : s.HasRoom)
    (description : String) (duration : UInt64) :
    Sustains s (s.addIoCall p description duration).1 :=
  sustains_of_openCalls (addIoCall_openCalls upright blank room description duration)

theorem setCurrentSignature_sustains (upright : s.Upright) (signature : String) :
    Sustains s (s.setCurrentSignature signature).2 :=
  sustains_of_openCalls (setCurrentSignature_openCalls upright signature)

/-! ## Ending calls -/

/-- The end of a call that is not the root leaves the stack one call less deep. -/
theorem stop_inner (upright : s.Upright) (blank : p.pool.AllBlank) (deep : 1 < s.depth) :
    (s.stop p).1 = none ∧ (s.stop p).2.1.isActive = true ∧
    (s.stop p).2.1.depth + 1 = s.depth := by
  have stopped := stopWith_stopped upright blank none
  have active : s.isActive = true := by
    by_contra idle
    rw [depth_of_idle (Bool.eq_false_of_not_eq_true idle)] at deep
    omega
  -- the end of the root would hand out a tree
  have none : (s.stop p).1 = none := by
    rcases s with ⟨_ | ⟨t, x⟩, minimum⟩
    · rfl
    · have op := upright_mk.mp upright
      rcases op.live with ⟨n, hx⟩
      rcases op.close hx blank p.now none minimum with ⟨outcome, t', pool', eq, -⟩
      have above : t.parent? x = n.parent := by
        unfold CallTree.parent?
        rw [hx]
        rfl
      cases hp : n.parent with
      | none =>
        have root := (CallTree.Path.root hx hp).ancestors op.wellFormed
        rw [depth_eq_length] at deep
        unfold openCalls at deep
        dsimp only at deep
        rw [root] at deep
        exact absurd deep (by simp)
      | some q =>
        unfold stop stopWith
        dsimp only
        rw [above, eq, hp]
  exact ⟨none, stopped.lower none active⟩

/-- A stop above a depth sustains a stack of that depth. -/
theorem stop_sustains (upright : s.Upright) (blank : p.pool.AllBlank) (deep : s'.depth < s.depth)
    (active : s'.isActive = true) : Sustains s' (s.stop p).2.1 := by
  have positive := depth_pos active
  rcases stop_inner (p := p) upright blank (by omega) with ⟨-, active', lower⟩
  exact ⟨active'.trans active.symm, by omega⟩

/-- A guard ends the call that it started, or one below it. -/
theorem leave_sustains {q : Profiler} (upright : s.Upright) (blank : p.pool.AllBlank)
    (room : s.HasRoom) (signature : String) (upright' : s'.Upright) (blank' : q.pool.AllBlank)
    (inside : Sustains (s.enter p signature).2.1 s') :
    Sustains s (s'.leave q (s.enter p signature).1).1 := by
  unfold enter at inside ⊢
  unfold leave
  dsimp only at inside ⊢
  cases active : s.isActive with
  | false =>
    have idle := (start_keeps upright blank room signature).idle active
    exact sustains_of_idle active (inside.active.trans idle)
  | true =>
    rcases start_depth upright blank room active signature with ⟨-, deeper⟩
    have depth := inside.depth
    exact stop_sustains upright' blank' (by omega) active

/-! ## What stays open -/

/-- A move starts calls below the innermost one, or ends some of the innermost ones. -/
def Shifts (s s' : CallStack) : Prop :=
  s.openCalls <:+ s'.openCalls ∨ s'.openCalls <:+ s.openCalls

theorem Shifts.refl (s : CallStack) : Shifts s s := .inl (List.suffix_refl _)

/-- Calls stay open while the stack is as deep as they are many. -/
theorem Shifts.suffix {calls : List NodeRef} (shifts : Shifts s s') (here : calls <:+ s.openCalls)
    (deep : calls.length ≤ s'.depth) : calls <:+ s'.openCalls := by
  rw [depth_eq_length] at deep
  rcases shifts with deeper | shallower
  · exact here.trans deeper
  · exact List.suffix_of_suffix_length_le here shallower deep

/-- A stack whose open calls are the last ones of another stack's is no deeper. -/
theorem depth_le_of_suffix (ended : s'.openCalls <:+ s.openCalls) : s'.depth ≤ s.depth := by
  rw [depth_eq_length, depth_eq_length]
  exact ended.length_le

theorem openCalls_of_idle (idle : s.isActive = false) : s.openCalls = [] := by
  unfold openCalls
  rw [isActive_eq_false.mp idle]

/-- A stack with a depth is active. -/
theorem active_of_depth (deep : 0 < s.depth) : s.isActive = true := by
  by_contra idle
  rw [depth_of_idle (Bool.eq_false_of_not_eq_true idle)] at deep
  exact absurd deep (Nat.lt_irrefl 0)

/-- A start puts its call before the open ones, or changes nothing. -/
theorem start_shifts (upright : s.Upright) (blank : p.pool.AllBlank) (room : s.HasRoom)
    (signature : String) : Shifts s (s.start p signature).1 := by
  cases active : s.isActive with
  | false =>
    left
    rw [openCalls_of_idle active]
    exact List.nil_suffix
  | true =>
    rcases start_openCalls upright blank room active signature with ⟨c, calls, -, -⟩
    left
    rw [calls]
    exact List.suffix_cons c _

/-- A stop takes calls off the top only. -/
theorem stopWith_suffix (upright : s.Upright) (blank : p.pool.AllBlank) (signature : Option String) :
    (s.stopWith p signature).2.1.openCalls <:+ s.openCalls := by
  rw [(stopWith_stopped upright blank signature).openCalls]
  exact List.tail_suffix _

/-- So does the end of a scope. -/
theorem leave_suffix (upright : s.Upright) (blank : p.pool.AllBlank) (armed : Bool) :
    (s.leave p armed).1.openCalls <:+ s.openCalls := by
  unfold leave
  split
  · exact stopWith_suffix upright blank none
  · exact List.suffix_refl _

/-! ## Unwinding -/

/-- So does unwinding, by induction on its steps. -/
theorem unwindSteps_suffix (fuel depth : Nat) (upright : s.Upright) (blank : p.pool.AllBlank) :
    (unwindSteps fuel depth s p).1.openCalls <:+ s.openCalls := by
  induction fuel generalizing s p with
  | zero => exact List.suffix_refl _
  | succ fuel ih =>
    have stopped := stopWith_stopped upright blank none
    have fewer := stopWith_suffix (p := p) upright blank none
    unfold unwindSteps
    split
    · split <;> rename_i h <;> unfold stop at h <;> rw [h] at stopped fewer
      · exact fewer
      · exact (ih stopped.upright stopped.blank).trans fewer
    · exact List.suffix_refl _

theorem unwindTo_suffix (depth : Nat) (upright : s.Upright) (blank : p.pool.AllBlank) :
    (s.unwindTo p depth).1.openCalls <:+ s.openCalls :=
  unwindSteps_suffix s.depth depth upright blank

/-- One step of unwinding to a depth that is not the root's, and what is known of the stack then. -/
theorem unwindSteps_succ {depth : Nat} (upright : s.Upright) (blank : p.pool.AllBlank)
    (positive : 0 < depth) (deeper : depth < s.depth) :
    ∃ s' p', (∀ fuel, unwindSteps (fuel + 1) depth s p = unwindSteps fuel depth s' p') ∧
      s'.Upright ∧ p'.pool.AllBlank ∧ s'.isActive = true ∧ s'.depth + 1 = s.depth := by
  have stopped := stopWith_stopped upright blank none
  rcases stop_inner (p := p) upright blank (by omega) with ⟨none, active, lower⟩
  refine ⟨(s.stop p).2.1, (s.stop p).2.2, fun fuel => ?_, stopped.upright, stopped.blank, active,
    lower⟩
  conv_lhs => unfold unwindSteps
  rw [if_pos deeper]
  generalize s.stop p = result at none ⊢
  rcases result with ⟨tree, left, q⟩
  obtain rfl : tree = Option.none := none
  rfl

/-- Nothing is unwound where nothing is too deep. -/
theorem unwindSteps_done (fuel : Nat) {depth : Nat} (enough : s.depth ≤ depth) :
    unwindSteps fuel depth s p = (s, p) := by
  cases fuel with
  | zero => rfl
  | succ fuel => exact if_neg (Nat.not_lt.mpr enough)

/-- Unwinding to a depth that is not the root's stops there. -/
theorem unwindSteps_sustains (fuel depth : Nat) (upright : s.Upright) (blank : p.pool.AllBlank)
    (active : s.isActive = true) (positive : 0 < depth) (enough : depth ≤ s.depth) :
    (unwindSteps fuel depth s p).1.isActive = true ∧ depth ≤ (unwindSteps fuel depth s p).1.depth := by
  induction fuel generalizing s p with
  | zero => exact ⟨active, enough⟩
  | succ fuel ih =>
    by_cases deeper : depth < s.depth
    · rcases unwindSteps_succ (p := p) upright blank positive deeper with
        ⟨s', p', step, upright', blank', active', lower⟩
      rw [step]
      exact ih upright' blank' active' (by omega)
    · rw [unwindSteps_done _ (Nat.not_lt.mp deeper)]
      exact ⟨active, enough⟩

/-- The loop that unwinds ends by its own condition: with as many steps as there are calls to end, and
with any more, it comes to the same stack, which is as deep as it was asked for. -/
theorem unwindSteps_settles (fuel : Nat) {depth : Nat} (upright : s.Upright) (blank : p.pool.AllBlank)
    (positive : 0 < depth) (enough : s.depth ≤ depth + fuel) :
    (unwindSteps fuel depth s p).1.depth ≤ depth ∧
    ∀ more, fuel ≤ more → unwindSteps more depth s p = unwindSteps fuel depth s p := by
  induction fuel generalizing s p with
  | zero => exact ⟨enough, fun more _ => unwindSteps_done more enough⟩
  | succ fuel ih =>
    by_cases deeper : depth < s.depth
    · rcases unwindSteps_succ (p := p) upright blank positive deeper with
        ⟨s', p', step, upright', blank', -, lower⟩
      rcases ih upright' blank' (by omega) with ⟨low, same⟩
      rw [step]
      refine ⟨low, fun more many => ?_⟩
      obtain ⟨more, rfl⟩ := Nat.exists_eq_add_of_lt many
      rw [step]
      exact same _ (Nat.le_add_right ..)
    · have done := Nat.not_lt.mp deeper
      rw [unwindSteps_done _ done]
      exact ⟨done, fun more _ => unwindSteps_done more done⟩

/-- Unwinding to the depth of calls that are open leaves exactly these open. -/
theorem unwindTo_openCalls {calls : List NodeRef} (upright : s.Upright) (blank : p.pool.AllBlank)
    (here : calls <:+ s.openCalls) (some : calls ≠ []) :
    (s.unwindTo p calls.length).1.openCalls = calls := by
  have positive := List.length_pos_of_ne_nil some
  have enough : calls.length ≤ s.depth := by
    rw [depth_eq_length]
    exact here.length_le
  have active := active_of_depth (Nat.lt_of_lt_of_le positive enough)
  have deep := (unwindSteps_sustains (p := p) s.depth calls.length upright blank active positive
    enough).2
  have low := (unwindSteps_settles (p := p) s.depth upright blank positive (by omega)).1
  have fewer := unwindTo_suffix calls.length (p := p) upright blank
  rw [depth_eq_length] at deep low
  have kept := List.suffix_of_suffix_length_le here fewer deep
  exact (kept.eq_of_length (Nat.le_antisymm deep low)).symm

end CallStack

end CallProfiler
