import CallProfiler.Proofs.Script.Steady

/-!
# Proofs.Script.OpenCalls: the calls that are open below a program

Whatever runs on a stack, the calls that were open before it stay open for as long as the stack is as
deep as they are many. This is `Shifts.suffix` for a single move; `Script.exec_retains` takes it along
every program, with guards and nested executions of any depth and with panics.

Two results are assembled from it. A nested execution leaves exactly the calls open that were open
before it (`nested_execution_restores`), since it unwinds to the depth at which it began. A guard ends
exactly one call, the innermost (`guard_ends_innermost`), so it restores the calls that were open
before it just if the program inside left none of its own open.
-/

namespace CallProfiler

variable {s s' left : CallStack} {m ended : Monitor} {calls : List NodeRef}

/-- The stack is upright, and the nodes that wait in the pool are blank. -/
structure InOrder (s : CallStack) (p : Profiler) : Prop where
  upright : s.Upright
  blank : p.pool.AllBlank

/-- What loses no node leaves the stack in order. -/
theorem CallStack.Keeps.inOrder {p p' : Profiler} (h : CallStack.Keeps s p s' p') : InOrder s' p' :=
  ⟨h.upright, h.blank⟩

/-! ## Order -/

namespace Monitor

/-- The work of an execution begins in order. -/
theorem Prepared.inOrder {e : Execution} {mode : Mode} {opened : CallStack} {ready : Monitor}
    (prepared : m.Prepared s e (mode, opened, ready)) (order : InOrder s m.profiler)
    (room : s.HasRoom) : InOrder opened ready.profiler := by
  rcases prepared.opened_upright order.upright order.blank room with ⟨upright, blank⟩
  exact ⟨upright, blank⟩

/-- The end of an execution leaves the stack in order, in every mode. -/
theorem conclude_inOrder (order : InOrder s m.profiler) (mode : Mode) (e : Execution)
    (started : Reading) (failure : Option String) :
    InOrder (m.conclude s mode e started failure).1
      (m.conclude s mode e started failure).2.profiler := by
  cases mode with
  | bare =>
    have hooked := runHook_profiler m e.hook (m.infoOf e started failure)
    rw [← hooked] at order
    exact order
  | nested depth forwardable =>
    exact (conclude_nested order.upright order.blank e started failure depth forwardable).inOrder
  | topLevel recorded =>
    cases recorded with
    | false =>
      rcases conclude_unrecorded m s e started failure with ⟨sameStack, sameProfiler⟩
      rw [sameStack, sameProfiler]
      exact order
    | true =>
      rcases conclude_recorded order.upright order.blank e started failure with ⟨idle, blank, -⟩
      exact ⟨CallStack.upright_of_idle idle, blank⟩

/-- Monitoring leaves a stack in order if the work does, whether or not the work begins a recording. -/
theorem execute_inOrder {ε α : Type} (describe : ε → String) (e : Execution)
    (work : CallStack → Monitor → Outcome ε α × CallStack × Monitor)
    (worked : InOrder (work (m.prepare s e).2.1 (m.prepare s e).2.2).2.1
      (work (m.prepare s e).2.1 (m.prepare s e).2.2).2.2.profiler) :
    InOrder (execute describe e work s m).2.1 (execute describe e work s m).2.2.profiler := by
  unfold execute
  dsimp only
  split
  next bare => exact worked
  next monitored => exact conclude_inOrder worked _ _ _ _

end Monitor

/-- A stack that records refuses to begin another recording. -/
theorem StackMove.apply_activate_active {p : Profiler} (active : s.isActive = true)
    (signature : String) :
    (StackMove.activate signature).apply s p =
      (.refused (.alreadyActive (s.currentSignature.getD "")), s, p) := by
  have refused : s.activate p signature =
      (.error (.alreadyActive (s.currentSignature.getD "")), s, p) := if_pos active
  unfold apply
  dsimp only
  rw [refused]

/-- Every move leaves the stack in order, as long as there is room for one slot more. -/
theorem StackMove.apply_inOrder {p : Profiler} (step : StackMove) (order : InOrder s p)
    (room : s.HasRoom) : InOrder (step.apply s p).2.1 (step.apply s p).2.2 := by
  by_cases plain : ∀ signature, step ≠ .activate signature
  · exact (step.apply_keeps order.upright order.blank room plain).inOrder
  · obtain ⟨signature, rfl⟩ : ∃ signature, step = .activate signature := by
      by_contra none
      exact plain fun signature same => none ⟨signature, same⟩
    cases active : s.isActive with
    | true =>
      rw [apply_activate_active active]
      exact order
    | false =>
      rcases CallStack.activate_upright active order.blank signature with ⟨upright, blank, -⟩
      exact ⟨upright, blank⟩

namespace Script

/-- The stack with which a program begins is one that it visits. -/
theorem visited_head (program : Script) (s : CallStack) (m : Monitor) :
    s ∈ program.visited s m := by
  induction program generalizing s m with
  | protect body next ihBody ihNext => exact List.mem_append_left _ (ihBody s m)
  | _ => exact List.mem_cons_self ..

/-- Every program leaves its stack in order, also one that begins and ends recordings of its own. -/
theorem exec_inOrder (program : Script) (order : InOrder s m.profiler)
    (room : ∀ v ∈ program.visited s m, v.HasRoom) :
    InOrder (program.exec s m).2.1 (program.exec s m).2.2.profiler := by
  induction program generalizing s m with
  | done => exact order
  | move step next ih =>
    rcases List.forall_mem_cons.mp room with ⟨here, room⟩
    exact ih (step.apply_inOrder order here) room
  | monitor step next ih =>
    rcases List.forall_mem_cons.mp room with ⟨-, room⟩
    exact ih (step.apply_tidy order.upright order.blank).keeps.inOrder room
  | scope signature body next ihBody ihNext =>
    unfold visited at room
    unfold exec
    dsimp only at room ⊢
    rcases List.forall_mem_cons.mp room with ⟨here, room⟩
    rcases List.forall_mem_append.mp room with ⟨inside, rest⟩
    have entered := (CallStack.enter_keeps order.upright order.blank here signature).inOrder
    have worked := ihBody entered inside
    generalize body.exec _ _ = result at worked rest ⊢
    rcases result with ⟨result, left, ended⟩
    have closed := (CallStack.leave_keeps worked.upright worked.blank
      (s.enter m.profiler signature).1).inOrder
    cases result with
    | error payload => exact closed
    | ok _ => exact ihNext closed rest
  | protect body next ihBody ihNext =>
    rcases List.forall_mem_append.mp room with ⟨roomBody, roomNext⟩
    exact ihNext (ihBody order roomBody) roomNext
  | raise payload => exact order
  | run e body ending next ihBody ihNext =>
    unfold visited at room
    dsimp only at room
    rcases List.forall_mem_cons.mp room with ⟨here, room⟩
    rcases List.forall_mem_append.mp room with ⟨inside, rest⟩
    have opened : InOrder (m.prepare s e).2.1 (m.prepare s e).2.2.profiler :=
      (Monitor.prepare_cases m s e).inOrder order here
    have done := Monitor.execute_inOrder id e (body.work e.name ending) (ihBody opened inside)
    rw [exec_run]
    generalize Monitor.execute id e _ s m = result at done rest ⊢
    rcases result with ⟨outcome, left, ended⟩
    cases outcome with
    | panicked payload => exact done
    | ok value => exact ihNext done rest
    | error error => exact ihNext done rest

end Script

/-- The work of an execution leaves the stack in order. -/
theorem Script.work_inOrder (body : Script) (name : String) (ending : Outcome String String)
    (order : InOrder s m.profiler)
    (room : ∀ v ∈ body.visited s (m.stepped "work" (.name name) (some s)), v.HasRoom) :
    InOrder (body.work name ending s m).2.1 (body.work name ending s m).2.2.profiler :=
  body.exec_inOrder (m := m.stepped "work" (.name name) (some s)) order room

/-! ## Calls that stay open -/

open CallStack (Shifts)

/-- A move starts calls, ends some of the innermost ones, or leaves those that are open alone. -/
theorem StackMove.apply_shifts {p : Profiler} (step : StackMove) (order : InOrder s p)
    (room : s.HasRoom) : Shifts s (step.apply s p).2.1 := by
  cases step with
  | activate signature =>
    cases active : s.isActive with
    | true =>
      rw [apply_activate_active active]
      exact .refl s
    | false =>
      left
      rw [CallStack.openCalls_of_idle active]
      exact List.nil_suffix
  | start signature => exact CallStack.start_shifts order.upright order.blank room signature
  | stop => exact .inr (CallStack.stopWith_suffix order.upright order.blank none)
  | stopAs signature => exact .inr (CallStack.stopWith_suffix order.upright order.blank signature)
  | rename signature =>
    have same := (CallStack.setCurrentSignature_openCalls order.upright signature).1
    left
    exact same ▸ List.suffix_refl _
  | io description duration =>
    have same := (CallStack.addIoCall_openCalls order.upright order.blank room description
      duration).1
    left
    exact same ▸ List.suffix_refl _
  | deactivate => exact .inr List.nil_suffix
  | showTree | render _ | showState => exact .refl s

/-- Calls that are open stay open under monitoring, if they do during the work and the stack is deep
enough after it: a nested execution only ends calls. -/
theorem Monitor.execute_retains {ε α : Type} (describe : ε → String) (e : Execution)
    (work : CallStack → Monitor → Outcome ε α × CallStack × Monitor) (active : s.isActive = true)
    (order : InOrder s m.profiler) (room : s.HasRoom) (here : calls <:+ s.openCalls)
    (worked : InOrder (work (m.prepare s e).2.1 (m.prepare s e).2.2).2.1
      (work (m.prepare s e).2.1 (m.prepare s e).2.2).2.2.profiler)
    (retained : calls <:+ (m.prepare s e).2.1.openCalls →
      calls.length ≤ (work (m.prepare s e).2.1 (m.prepare s e).2.2).2.1.depth →
      calls <:+ (work (m.prepare s e).2.1 (m.prepare s e).2.2).2.1.openCalls)
    (last : calls.length ≤ (execute describe e work s m).2.1.depth) :
    calls <:+ (execute describe e work s m).2.1.openCalls := by
  have prepared := prepare_cases m s e
  unfold execute at last ⊢
  dsimp only at last ⊢
  generalize m.prepare s e = result at *
  cases prepared with
  | bare policy => exact retained here last
  | nested _ =>
    have deeper : calls <:+ (s.start m.profiler e.name).1.openCalls := by
      rcases CallStack.start_openCalls order.upright order.blank room active e.name with
        ⟨c, open', -, -⟩
      rw [open']
      exact here.trans (List.suffix_cons c _)
    rw [if_neg (by simp)] at last ⊢
    dsimp only at last ⊢
    rw [conclude_unwinds] at last ⊢
    have fewer := CallStack.unwindTo_suffix s.depth worked.upright worked.blank
    have enough := last.trans (CallStack.depth_le_of_suffix fewer)
    exact Shifts.suffix (.inr fewer) (retained deeper enough) last
  | unrecorded idle policy => exact nomatch idle.symm.trans active
  | recorded idle policy => exact nomatch idle.symm.trans active

namespace Script

/-- Calls that are open before a program are open after it, if the stack is never less deep than they
are many. A panic that passes through guards and executions only ends calls on its way, so it is enough
to look at the stacks at the steps of the program and at the one that it leaves. -/
theorem exec_retains (program : Script) (nonempty : calls ≠ []) (order : InOrder s m.profiler)
    (room : ∀ v ∈ program.visited s m, v.HasRoom)
    (deep : ∀ v ∈ program.visited s m, calls.length ≤ v.depth)
    (last : calls.length ≤ (program.exec s m).2.1.depth) (here : calls <:+ s.openCalls) :
    calls <:+ (program.exec s m).2.1.openCalls := by
  induction program generalizing s m with
  | done => exact here
  | move step next ih =>
    rcases List.forall_mem_cons.mp room with ⟨roomHere, room⟩
    rcases List.forall_mem_cons.mp deep with ⟨-, deep⟩
    have enough := deep _ (visited_head next _ _)
    have moved := (step.apply_shifts order roomHere).suffix here enough
    exact ih (step.apply_inOrder order roomHere) room deep last moved
  | monitor step next ih =>
    rcases List.forall_mem_cons.mp room with ⟨-, room⟩
    rcases List.forall_mem_cons.mp deep with ⟨-, deep⟩
    have made := (step.apply_tidy order.upright order.blank).keeps.inOrder
    exact ih made room deep last here
  | scope signature body next ihBody ihNext =>
    unfold visited at room deep
    unfold exec at last ⊢
    dsimp only at room deep last ⊢
    rcases List.forall_mem_cons.mp room with ⟨roomHere, room⟩
    rcases List.forall_mem_append.mp room with ⟨inside, rest⟩
    rcases List.forall_mem_cons.mp deep with ⟨-, deep⟩
    rcases List.forall_mem_append.mp deep with ⟨deepInside, deepRest⟩
    have entered := (CallStack.enter_keeps order.upright order.blank roomHere signature).inOrder
    have started := (CallStack.start_shifts order.upright order.blank roomHere signature).suffix
      here (deepInside _ (visited_head body _ _))
    have worked := body.exec_inOrder entered inside
    have retained (enough) := ihBody entered inside deepInside enough started
    generalize body.exec _ _ = result at worked retained rest deepRest last ⊢
    rcases result with ⟨result, left, ended⟩
    have closed := (CallStack.leave_keeps worked.upright worked.blank
      (s.enter m.profiler signature).1).inOrder
    -- the guard only ends calls, so the stack was deep enough before it if it is after it
    have fewer := CallStack.leave_suffix worked.upright worked.blank (s.enter m.profiler signature).1
    have restored (enough : calls.length ≤ _) :=
      Shifts.suffix (.inr fewer) (retained (enough.trans (CallStack.depth_le_of_suffix fewer))) enough
    cases result with
    | error payload => exact restored last
    | ok _ => exact ihNext closed rest deepRest last (restored (deepRest _ (visited_head next _ _)))
  | protect body next ihBody ihNext =>
    rcases List.forall_mem_append.mp room with ⟨roomBody, roomNext⟩
    rcases List.forall_mem_append.mp deep with ⟨deepBody, deepNext⟩
    have caught := deepNext _ (visited_head next _ _)
    exact ihNext (body.exec_inOrder order roomBody) roomNext deepNext last
      (ihBody order roomBody deepBody caught here)
  | raise payload => exact here
  | run e body ending next ihBody ihNext =>
    unfold visited at room deep
    dsimp only at room deep
    rcases List.forall_mem_cons.mp room with ⟨roomHere, room⟩
    rcases List.forall_mem_append.mp room with ⟨inside, rest⟩
    rcases List.forall_mem_cons.mp deep with ⟨deepHere, deep⟩
    rcases List.forall_mem_append.mp deep with ⟨deepInside, deepRest⟩
    have active := CallStack.active_of_depth
      (Nat.lt_of_lt_of_le (List.length_pos_of_ne_nil nonempty) deepHere)
    have opened : InOrder (m.prepare s e).2.1 (m.prepare s e).2.2.profiler :=
      (Monitor.prepare_cases m s e).inOrder order roomHere
    have worked := body.work_inOrder e.name ending opened inside
    have done := Monitor.execute_inOrder id e (body.work e.name ending) worked
    have restored := Monitor.execute_retains id e (body.work e.name ending) active order roomHere
      here worked fun started enough => ihBody opened inside deepInside enough started
    rw [exec_run] at last ⊢
    generalize Monitor.execute id e _ s m = result at done restored rest deepRest last ⊢
    rcases result with ⟨outcome, left, ended⟩
    cases outcome with
    | panicked payload => exact restored last
    | ok value =>
      exact ihNext done rest deepRest last (restored (deepRest _ (visited_head next _ _)))
    | error error =>
      exact ihNext done rest deepRest last (restored (deepRest _ (visited_head next _ _)))

end Script

/-! ## The open nodes of a recording -/

namespace CallStack

/-- A node of the running recording that has not ended. -/
def IsOpen (s : CallStack) (h : NodeRef) : Prop :=
  (s.tree?.bind (·.get? h)).map (·.closed) = some false

instance (s : CallStack) (h : NodeRef) : Decidable (s.IsOpen h) :=
  inferInstanceAs (Decidable (_ = _))

/-- The handles of the open calls are those of the open nodes. -/
theorem isOpen_iff (upright : s.Upright) (h : NodeRef) : s.IsOpen h ↔ h ∈ s.openCalls := by
  unfold IsOpen
  rcases s with ⟨_ | ⟨t, x⟩, minimum⟩
  · simp [tree?, openCalls]
  · have op := upright_mk.mp upright
    have above := CallTree.mem_ancestors_iff (a := h) op.wellFormed op.live
    unfold openCalls
    dsimp only [tree?, Option.map_some, Option.bind_some]
    rw [above]
    cases hn : t.get? h with
    | none =>
      refine iff_of_false (by simp) fun below => ?_
      rcases below.live_left with ⟨n, live⟩
      exact nomatch hn.symm.trans live
    | some n => simpa using op.open_iff hn

/-- The outermost open call is the root of the recording. -/
theorem isOpen_root (upright : s.Upright) {t : CallTree} (recorded : s.tree? = some t) :
    s.IsOpen t.root := by
  rcases s with ⟨_ | ⟨u, x⟩, minimum⟩
  · exact nomatch recorded
  · have op := upright_mk.mp upright
    cases Option.some.inj recorded
    rw [isOpen_iff upright]
    exact (CallTree.mem_ancestors_iff op.wellFormed op.live).mpr
      (op.wellFormed.toLinked.root_below op.live)

/-- No call is open twice. -/
theorem nodup_openCalls (upright : s.Upright) : s.openCalls.Nodup := by
  rcases s with ⟨_ | ⟨t, x⟩, minimum⟩
  · exact List.nodup_nil
  · have op := upright_mk.mp upright
    exact (op.wellFormed.path_ancestors op.live).nodup op.wellFormed.toLinked

/-- A stack that records has a tree. -/
theorem exists_tree (active : s.isActive = true) : ∃ t, s.tree? = some t := by
  rcases s with ⟨_ | r, minimum⟩
  · exact nomatch active
  · exact ⟨r.tree, rfl⟩

end CallStack

/-! ## Nested executions -/

/-- The stacks that a program meets: those at its steps, and the one that it leaves. -/
def Script.met (program : Script) (s : CallStack) (m : Monitor) : List CallStack :=
  program.visited s m ++ [(program.exec s m).2.1]

/-- The stacks that the work of an execution meets. -/
def Execution.met (e : Execution) (body : Script) (s : CallStack) (m : Monitor) : List CallStack :=
  let (_, opened, ready) := m.prepare s e
  body.met opened (ready.stepped "work" (.name e.name) (some opened))

/-- An execution on a stack that records starts a call there, and remembers how deep it was. -/
theorem Monitor.prepare_nested (monitored : m.config.monitoringActive = true)
    (active : s.isActive = true) (e : Execution) :
    m.prepare s e = (.nested s.depth e.forwardable, (s.start m.profiler e.name).1,
      { m with profiler := (s.start m.profiler e.name).2 }) := by
  unfold prepare
  rw [monitored, active]
  rfl

/-- What remains of an execution that is nested in another one is the outcome of its work, and the
stack of its work unwound to the depth at which it began. -/
theorem Monitor.execute_nested {ε α : Type} (describe : ε → String) (e : Execution)
    (work : CallStack → Monitor → Outcome ε α × CallStack × Monitor)
    (monitored : m.config.monitoringActive = true) (active : s.isActive = true) :
    let worked := work (m.prepare s e).2.1 (m.prepare s e).2.2
    (execute describe e work s m).1 = worked.1 ∧
    (execute describe e work s m).2.1 = (worked.2.1.unwindTo worked.2.2.profiler s.depth).1 := by
  have mode : (m.prepare s e).1 = .nested s.depth e.forwardable := by
    rw [prepare_nested monitored active]
  unfold execute
  dsimp only
  rw [mode, if_neg (by simp)]
  exact ⟨rfl, conclude_unwinds ..⟩

/-- An execution on a stack that records leaves exactly the calls open that were open before it,
however its work ends: the work may leave calls open, may end the call of the execution itself, and may
run further executions. All other nodes of the recording are closed or gone, and its root is open. The
loop that closes what is left ends by its own condition, so the number of its steps does not matter.
Assumed: the stack is never less deep meanwhile, and no recording that it goes through has more slots than
can be numbered in 32 bits. -/
theorem nested_execution_restores (m : Monitor) (monitored : m.config.monitoringActive = true)
    (stack : CallStack) (active : stack.isActive = true) (order : InOrder stack m.profiler)
    (e : Execution) (body : Script) (ending : Outcome String String)
    (room : ∀ v ∈ (Script.run e body ending .done).visited stack m, v.HasRoom)
    (deep : ∀ v ∈ e.met body stack m, stack.depth ≤ v.depth) :
    let worked := body.work e.name ending (m.prepare stack e).2.1 (m.prepare stack e).2.2
    let executed := Monitor.execute id e (body.work e.name ending) stack m
    let restored := executed.2.1
    executed.1 = worked.1 ∧
    restored.openCalls = stack.openCalls ∧
    (∀ h, restored.IsOpen h ↔ h ∈ stack.openCalls) ∧
    (∃ t, restored.tree? = some t ∧ restored.IsOpen t.root) ∧
    ∀ fuel, worked.2.1.depth ≤ fuel →
      (CallStack.unwindSteps fuel stack.depth worked.2.1 worked.2.2.profiler).1 = restored := by
  unfold Script.visited at room
  unfold Execution.met Script.met at deep
  dsimp only at room deep
  rcases List.forall_mem_cons.mp room with ⟨here, room⟩
  have inside := (List.forall_mem_append.mp room).1
  rcases List.forall_mem_append.mp deep with ⟨deepInside, last⟩
  have last := last _ (List.mem_singleton_self _)
  have nonempty : stack.openCalls ≠ [] := by
    intro none
    have positive := CallStack.depth_pos active
    rw [CallStack.depth_eq_length, none] at positive
    exact absurd positive (Nat.lt_irrefl 0)
  have opened : InOrder (m.prepare stack e).2.1 (m.prepare stack e).2.2.profiler :=
    (Monitor.prepare_cases m stack e).inOrder order here
  have begun : stack.openCalls <:+ (m.prepare stack e).2.1.openCalls := by
    rw [Monitor.prepare_nested monitored active]
    rcases CallStack.start_openCalls order.upright order.blank here active e.name with
      ⟨c, calls, -, -⟩
    rw [calls]
    exact List.suffix_cons c _
  have worked := body.work_inOrder e.name ending opened inside
  rw [CallStack.depth_eq_length] at deepInside last
  have kept : stack.openCalls <:+ (body.work e.name ending (m.prepare stack e).2.1
      (m.prepare stack e).2.2).2.1.openCalls :=
    body.exec_retains nonempty opened inside deepInside last begun
  rcases Monitor.execute_nested id e (body.work e.name ending) monitored active with
    ⟨sameOutcome, unwound⟩
  have restored := Monitor.execute_inOrder id e (body.work e.name ending) worked
  dsimp only at unwound sameOutcome ⊢
  generalize Monitor.execute id e _ stack m = result at *
  generalize body.work e.name ending _ _ = left at *
  have calls := CallStack.unwindTo_openCalls worked.upright worked.blank kept nonempty
  rw [← CallStack.depth_eq_length, ← unwound] at calls
  have restoredActive : result.2.1.isActive = true := by
    apply CallStack.active_of_depth
    rw [CallStack.depth_eq_length, calls]
    exact List.length_pos_of_ne_nil nonempty
  refine ⟨sameOutcome, calls, ?_, ?_, ?_⟩
  · intro h
    rw [CallStack.isOpen_iff restored.upright, calls]
  · rcases CallStack.exists_tree restoredActive with ⟨t, recorded⟩
    exact ⟨t, recorded, CallStack.isOpen_root restored.upright recorded⟩
  · intro fuel enough
    have settled := (CallStack.unwindSteps_settles left.2.1.depth worked.upright worked.blank
      (CallStack.depth_pos active) (Nat.le_add_left ..)).2 fuel enough
    rw [settled, unwound]
    rfl

/-- A program that begins a recording and starts a call in it. -/
def beginning : Script := .move (.activate "job") <| .move (.start "load") .done

/-- Work that starts calls, ends the call of its own execution early, leaves a call open in a guard
and in a further execution, and panics at last. -/
def hastyWork : Script :=
  .move (.start "read") <| .move .stop <| .monitor (.clock (.advance 4)) <| .move .stop <|
  .protect (.scope "guard" (.move (.start "leak") <| .raise (.text "broken")) .done) <|
  .run { name := "child" } (.move (.start "open") .done) (.error "refused") <|
  .move (.start "late") <| .raise (.number 3)

theorem hasty_work_restores :
    let stack := (beginning.exec {} watchful).2.1
    let m := (beginning.exec {} watchful).2.2
    let e : Execution := { name := "step", forwardable := true }
    let restored := (Monitor.execute id e (hastyWork.work e.name (.ok "")) stack m).2.1
    stack.openCalls = [⟨1, 0⟩, ⟨0, 0⟩] ∧ restored.openCalls = [⟨1, 0⟩, ⟨0, 0⟩] ∧
    ∀ h, restored.IsOpen h ↔ h = ⟨1, 0⟩ ∨ h = ⟨0, 0⟩ := by
  intro stack m e restored
  have blank : watchful.profiler.pool.AllBlank := NodePool.allBlank_used true []
  have begun : ∀ v ∈ beginning.visited {} watchful, ∀ r ∈ v.recording,
      r.tree.slots.size < 2 ^ 32 := by
    decide +kernel
  have order : InOrder stack m.profiler :=
    beginning.exec_inOrder ⟨CallStack.upright_of_idle rfl, blank⟩ begun
  have calls : stack.openCalls = [⟨1, 0⟩, ⟨0, 0⟩] := by decide +kernel
  have room : ∀ v ∈ (Script.run e hastyWork (.ok "") .done).visited stack m,
      ∀ r ∈ v.recording, r.tree.slots.size < 2 ^ 32 := by
    decide +kernel
  have deep : ∀ v ∈ e.met hastyWork stack m, stack.depth ≤ v.depth := by decide +kernel
  rcases nested_execution_restores m rfl stack rfl order e hastyWork (.ok "") room deep with
    ⟨-, same, opened, -, -⟩
  rw [calls] at same opened
  refine ⟨calls, same, fun h => (opened h).trans ?_⟩
  simp

/-! ### More calls than handles -/

namespace CallStack

/-- To start a call does not begin or end a recording. -/
theorem start_active (s : CallStack) (p : Profiler) (signature : String) :
    (s.start p signature).1.isActive = s.isActive := by
  rcases s with ⟨_ | r, minimum⟩
  · rfl
  · rfl

/-- Starting calls does not begin or end a recording. -/
theorem descend_active (s : CallStack) (p : Profiler) (k : Nat) :
    (s.descend p k).1.isActive = s.isActive := by
  induction k generalizing s p with
  | zero => rfl
  | succ k ih => exact (ih _ _).trans (s.start_active p "deeper")

/-- A stack that is back at its root has nothing above it. -/
theorem Overrun.openCalls {p : Profiler} {rn : CallNode} (overrun : s.Overrun p rn)
    (noParent : rn.parent = none) : s.openCalls = [⟨0, 0⟩] := by
  rcases overrun.recording with ⟨r, recording, way⟩
  have above : r.tree.ancestors r.current = [] := by
    unfold CallTree.ancestors
    rw [way.size, CallTree.parentChain, CallTree.parent?, way.current, way.root, Option.bind_some,
      noParent]
  unfold CallStack.openCalls
  rw [recording]
  dsimp only
  rw [above, way.current]

/-- The caller of the last call is open, and it is not the root. -/
theorem Overrun.isOpen {p : Profiler} {rn : CallNode} (overrun : s.Overrun p rn) :
    ∃ h ≠ ⟨0, 0⟩, s.IsOpen h := by
  rcases overrun.recording with ⟨r, recording, way⟩
  rcases way.caller with ⟨h, n, apart, live, -, isOpen⟩
  refine ⟨h, apart, ?_⟩
  unfold IsOpen tree?
  rw [recording, Option.map_some, Option.bind_some, live, Option.map_some, isOpen]

end CallStack

/-- The stacks that a descent visits are those of its calls. -/
theorem Script.visited_descent {v : CallStack} {k : Nat} {s : CallStack} {m : Monitor}
    (visited : v ∈ (descent k).visited s m) : ∃ j, v = (s.descend m.profiler j).1 := by
  induction k generalizing s m with
  | zero => exact ⟨0, List.mem_singleton.mp visited⟩
  | succ k ih =>
    rcases List.mem_cons.mp visited with here | later
    · exact ⟨0, here⟩
    · rcases ih later with ⟨j, same⟩
      exact ⟨j + 1, same⟩

/-- The work of an execution that descends meets no other stacks than those of its calls. -/
theorem Script.met_descent {v : CallStack} {k : Nat} {s : CallStack} {m : Monitor}
    (met : v ∈ (descent k).met s m) : ∃ j, v = (s.descend m.profiler j).1 := by
  rcases List.mem_append.mp met with visited | left
  · exact visited_descent visited
  · rcases exec_descent k s m with ⟨ended, ran, -⟩
    rw [ran] at left
    exact ⟨k, List.mem_singleton.mp left⟩

/-- A nested execution whose work goes down until it is back at the root. The stack is never less deep
than when the execution began, so there is nothing to unwind. -/
theorem Monitor.nested_descent {e : Execution} {rn : CallNode} {k : Nat}
    (monitored : m.config.monitoringActive = true) (active : s.isActive = true) (depth : s.depth = 1)
    (begun : (s.start m.profiler e.name).1.Descended (s.start m.profiler e.name).2 2 rn)
    (last : 2 + k = 2 ^ 32) (noParent : rn.parent = none) :
    (∀ v ∈ e.met (.descent (k + 1)) s m, s.depth ≤ v.depth) ∧
    ∃ h ≠ ⟨0, 0⟩, (execute id e ((Script.descent (k + 1)).work e.name (.ok "")) s m).2.1.IsOpen h := by
  have prepared := prepare_nested monitored active e
  have overrun := begun.descend_over k last
  constructor
  · intro v met
    unfold Execution.met at met
    rw [prepared] at met
    rcases Script.met_descent met with ⟨j, rfl⟩
    have goesOn : ((s.start m.profiler e.name).1.descend (s.start m.profiler e.name).2 j).1.isActive =
        true := by
      rw [CallStack.descend_active, CallStack.start_active, active]
    rw [depth]
    exact CallStack.depth_pos goesOn
  · have unwound := (execute_nested id e ((Script.descent (k + 1)).work e.name (.ok "")) monitored
      active).2
    rw [unwound, prepared]
    unfold Script.work
    dsimp only
    rcases Script.exec_descent (k + 1) (s.start m.profiler e.name).1
      (({ m with profiler := (s.start m.profiler e.name).2 } : Monitor).stepped "work" (.name e.name)
        (some (s.start m.profiler e.name).1)) with ⟨ended, ran, -⟩
    rw [ran]
    have flat : (((s.start m.profiler e.name).1.descend (s.start m.profiler e.name).2
        (k + 1)).1).depth ≤ s.depth := by
      rw [depth, CallStack.depth_eq_length, overrun.openCalls noParent, List.length_singleton]
    have still := CallStack.unwindSteps_done (p := ended.profiler) (((s.start m.profiler
      e.name).1.descend (s.start m.profiler e.name).2 (k + 1)).1).depth flat
    rcases overrun.isOpen with ⟨h, apart, isOpen⟩
    exact ⟨h, apart, (congrArg (·.1.IsOpen h) still).mpr isOpen⟩

/-- A program that begins a recording. -/
def rootOnly : Script := .move (.activate "job") .done

/-- A stack at the root of a recording, and its monitor. -/
def atRoot : CallStack × Monitor := (rootOnly.exec {} watchful).2

/-- Without numbers for all calls, a nested execution leaves calls open: the last call of its work is the
root, so the stack is no deeper than when the execution began, and nothing is unwound. -/
theorem bottomless_work_is_not_unwound :
    atRoot.2.config.monitoringActive = true ∧ atRoot.1.isActive = true ∧
    atRoot.1.openCalls = [⟨0, 0⟩] ∧
    (∀ v ∈ untidyJob.met (.descent (2 ^ 32 - 1)) atRoot.1 atRoot.2, atRoot.1.depth ≤ v.depth) ∧
    ∃ h ≠ ⟨0, 0⟩, (Monitor.execute id untidyJob
      ((Script.descent (2 ^ 32 - 1)).work untidyJob.name (.ok "")) atRoot.1 atRoot.2).2.1.IsOpen h := by
  have monitored : atRoot.2.config.monitoringActive = true := by decide +kernel
  have active : atRoot.1.isActive = true := by decide +kernel
  have root : atRoot.1.openCalls = [⟨0, 0⟩] := by decide +kernel
  have begun : (atRoot.1.start atRoot.2.profiler untidyJob.name).1.Descended
      (atRoot.1.start atRoot.2.profiler untidyJob.name).2 2
      { signature := "job", children := [⟨1, 0⟩] } :=
    CallStack.descended_of_slots (r := ⟨⟨#[⟨0, some { signature := "job", children := [⟨1, 0⟩] }⟩,
      ⟨0, some { signature := "job", parent := some ⟨0, 0⟩ }⟩], [], ⟨0, 0⟩⟩, ⟨1, 0⟩⟩)
      (by decide +kernel) "job" 0 ⟨0, 0⟩ (by decide +kernel)
  have depth : atRoot.1.depth = 1 := by rw [CallStack.depth_eq_length, root, List.length_singleton]
  obtain ⟨k, last, most⟩ : ∃ k, 2 + k = 2 ^ 32 ∧ 2 ^ 32 - 1 = k + 1 := ⟨2 ^ 32 - 2, by omega, by omega⟩
  rw [most]
  rcases Monitor.nested_descent monitored active depth begun last rfl with ⟨deep, isOpen⟩
  exact ⟨monitored, active, root, deep, isOpen⟩

/-! ## Guards -/

/-- The stack and the monitor with which the body of a guarded scope begins. -/
def Script.entered (signature : String) (s : CallStack) (m : Monitor) : CallStack × Monitor :=
  let (_, s, p) := s.enter m.profiler signature
  (s, { m with profiler := p }.stepped "scope" .nothing (some s))

/-- A guarded scope: its call is started, the body runs, and the guard ends the innermost call whether
or not the body has failed. -/
theorem Script.exec_scope (signature : String) (body next : Script) (s : CallStack) (m : Monitor) :
    (Script.scope signature body next).exec s m =
      let inside := body.exec (Script.entered signature s m).1 (Script.entered signature s m).2
      let (closed, p) := inside.2.1.leave inside.2.2.profiler s.isActive
      let ended := { inside.2.2 with profiler := p }
      match inside.1 with
      | .error payload => (.error payload, closed, ended)
      | .ok _ => next.exec closed (ended.stepped "scope_end" .nothing (some closed)) := rfl

/-- The stack that a guard leaves, however the body of its scope ends. -/
theorem Script.exec_scope_stack (signature : String) (body : Script) (s : CallStack) (m : Monitor) :
    ((Script.scope signature body .done).exec s m).2.1 =
      let inside := body.exec (Script.entered signature s m).1 (Script.entered signature s m).2
      (inside.2.1.leave inside.2.2.profiler s.isActive).1 := by
  rw [exec_scope]
  generalize body.exec _ _ = inside
  rcases inside with ⟨_ | _, left, ended⟩
  · rfl
  · rfl

/-- When a guard is dropped, it ends exactly one call, the innermost. Say the body, however it ends, has
not ended the call that the guard started, and `left` are the calls of the body that are open at that
moment: the call of the guard is closed and the open nodes are those from before the scope just if
there are none. Assumed: all stacks that the scope goes through have slots left that can be numbered in 32
bits. -/
theorem guard_ends_innermost (m : Monitor) (stack : CallStack) (active : stack.isActive = true)
    (order : InOrder stack m.profiler) (signature : String) (body : Script)
    (room : ∀ v ∈ (Script.scope signature body .done).visited stack m, v.HasRoom)
    (deep : ∀ v ∈ body.met (Script.entered signature stack m).1 (Script.entered signature stack m).2,
      stack.depth < v.depth) :
    let entered := (Script.entered signature stack m).1
    let inside := (body.exec entered (Script.entered signature stack m).2).2.1
    let closed := ((Script.scope signature body .done).exec stack m).2.1
    ∃ guard left, entered.openCalls = guard :: stack.openCalls ∧
      inside.openCalls = left ++ guard :: stack.openCalls ∧
      closed.openCalls = (left ++ guard :: stack.openCalls).tail ∧
      (∀ h, closed.IsOpen h ↔ h ∈ closed.openCalls) ∧
      ((¬ closed.IsOpen guard ∧ ∀ h, closed.IsOpen h ↔ h ∈ stack.openCalls) ↔ left = []) := by
  unfold Script.visited at room
  unfold Script.met at deep
  dsimp only at room deep
  rcases List.forall_mem_cons.mp room with ⟨here, room⟩
  have inside := (List.forall_mem_append.mp room).1
  rcases List.forall_mem_append.mp deep with ⟨deepInside, last⟩
  have last := last _ (List.mem_singleton_self _)
  have entered : InOrder (Script.entered signature stack m).1
      (Script.entered signature stack m).2.profiler :=
    (CallStack.enter_keeps order.upright order.blank here signature).inOrder
  obtain ⟨guard, begun⟩ : ∃ guard, (Script.entered signature stack m).1.openCalls =
      guard :: stack.openCalls := by
    rcases CallStack.start_openCalls order.upright order.blank here active signature with
      ⟨c, calls, -, -⟩
    exact ⟨c, calls⟩
  have worked := body.exec_inOrder entered inside
  have deeper {v : CallStack} (deep : stack.depth < v.depth) :
      (guard :: stack.openCalls).length ≤ v.depth := by
    rw [List.length_cons, ← CallStack.depth_eq_length]
    exact deep
  obtain ⟨left, inner⟩ := body.exec_retains (List.cons_ne_nil guard stack.openCalls) entered inside
    (fun v hv => deeper (deepInside v hv)) (deeper last) (begun ▸ List.suffix_refl _)
  have stopped := CallStack.stopWith_stopped worked.upright worked.blank none
  have upright : ((Script.scope signature body .done).exec stack m).2.1.Upright := by
    rw [Script.exec_scope_stack, active]
    exact stopped.upright
  have calls : ((Script.scope signature body .done).exec stack m).2.1.openCalls =
      (left ++ guard :: stack.openCalls).tail := by
    rw [Script.exec_scope_stack, active, inner]
    exact stopped.openCalls
  have opened := CallStack.isOpen_iff upright
  refine ⟨guard, left, begun, inner.symm, calls, opened, ?_⟩
  constructor
  · rintro ⟨guardEnded, -⟩
    cases left with
    | nil => rfl
    | cons x rest =>
      -- the guard has ended a call of the body, and its own is still open
      refine absurd ((opened guard).mpr ?_) guardEnded
      rw [calls]
      exact List.mem_append_right _ (List.mem_cons_self ..)
  · rintro rfl
    have fresh : guard ∉ stack.openCalls := by
      have nodup := CallStack.nodup_openCalls entered.upright
      rw [begun] at nodup
      exact (List.nodup_cons.mp nodup).1
    have same (h : NodeRef) := (opened h).trans (by rw [calls])
    exact ⟨fun again => fresh ((same guard).mp again), same⟩

/-- A body that panics below a guard of its own, after calls that it has ended. -/
def brokenBody : Script :=
  .move (.start "read") <| .monitor (.clock (.advance 4)) <| .move .stop <|
  .scope "inner" (.move (.io "disk" 7) <| .raise (.text "broken")) .done

theorem broken_scope_restores :
    let stack := (rootOnly.exec {} watchful).2.1
    let m := (rootOnly.exec {} watchful).2.2
    let closed := ((Script.scope "guard" brokenBody .done).exec stack m).2.1
    stack.openCalls = [⟨0, 0⟩] ∧ ∀ h, closed.IsOpen h ↔ h = ⟨0, 0⟩ := by
  intro stack m closed
  have blank : watchful.profiler.pool.AllBlank := NodePool.allBlank_used true []
  have begun : ∀ v ∈ rootOnly.visited {} watchful, ∀ r ∈ v.recording,
      r.tree.slots.size < 2 ^ 32 := by
    decide +kernel
  have order : InOrder stack m.profiler :=
    rootOnly.exec_inOrder ⟨CallStack.upright_of_idle rfl, blank⟩ begun
  have root : stack.openCalls = [⟨0, 0⟩] := by decide +kernel
  have room : ∀ v ∈ (Script.scope "guard" brokenBody .done).visited stack m, ∀ r ∈ v.recording,
      r.tree.slots.size < 2 ^ 32 := by
    decide +kernel
  have deep : ∀ v ∈ brokenBody.met (Script.entered "guard" stack m).1
      (Script.entered "guard" stack m).2, stack.depth < v.depth := by
    decide +kernel
  rcases guard_ends_innermost m stack rfl order "guard" brokenBody room deep with
    ⟨guard, left, -, inner, -, -, restores⟩
  have depth : (brokenBody.exec (Script.entered "guard" stack m).1
      (Script.entered "guard" stack m).2).2.1.openCalls.length = 2 := by
    decide +kernel
  have none : left = [] := by
    rw [inner, root] at depth
    simpa using depth
  refine ⟨root, fun h => ((restores.mpr none).2 h).trans ?_⟩
  rw [root, List.mem_singleton]

/-- A body that leaves a call open: the guard ends that call and leaves its own open. -/
theorem leaking_scope_stays_open :
    let stack := (rootOnly.exec {} watchful).2.1
    let m := (rootOnly.exec {} watchful).2.2
    let body : Script := .move (.start "leak") .done
    let entered := Script.entered "guard" stack m
    let closed := ((Script.scope "guard" body .done).exec stack m).2.1
    (∀ v ∈ body.met entered.1 entered.2, stack.depth < v.depth) ∧
    stack.openCalls = [⟨0, 0⟩] ∧ entered.1.openCalls = [⟨1, 0⟩, ⟨0, 0⟩] ∧
    closed.openCalls = [⟨1, 0⟩, ⟨0, 0⟩] ∧ closed.IsOpen ⟨1, 0⟩ := by
  decide +kernel

end CallProfiler
