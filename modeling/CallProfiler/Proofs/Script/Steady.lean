import CallProfiler.Proofs.Script.Executions
import CallProfiler.Proofs.Script.Leftovers
import CallProfiler.Proofs.Stack.Depth

/-!
# Proofs.Script.Steady: programs that leave recordings alone

A steady program starts calls and lets guards end them, but neither begins nor ends a recording of its
own. While it runs inside a recorded execution its stack goes on recording, however deeply executions
are nested in it (`Script.exec_steadfast`). So if all executions that begin on an idle stack are
recorded, then a stack records exactly while an execution runs on it: `Script.AllChosen.live`.
-/

namespace CallProfiler

/-- A step that ends no call and neither begins nor ends a recording. -/
def StackMove.Steady : StackMove → Prop
  | .activate _ | .stop | .stopAs _ | .deactivate => False
  | _ => True

/-- All steps on the stack are steady. -/
def Script.Steady : Script → Prop
  | .done => True
  | .move step next => step.Steady ∧ next.Steady
  | .monitor _ next => next.Steady
  | .scope _ body next => body.Steady ∧ next.Steady
  | .protect body next => body.Steady ∧ next.Steady
  | .raise _ => True
  | .run _ body _ next => body.Steady ∧ next.Steady

/-- A steady program begins no recording. -/
theorem Script.Steady.plain {program : Script} (steady : program.Steady) :
    program.activates = false := by
  induction program with
  | done => rfl
  | move step next ih =>
    have rest := ih steady.2
    have here := steady.1
    cases step with
    | activate _ => exact here.elim
    | _ => exact rest
  | monitor step next ih => exact ih steady
  | scope _ body next ihBody ihNext =>
    exact Bool.or_eq_false_iff.mpr ⟨ihBody steady.1, ihNext steady.2⟩
  | protect body next ihBody ihNext =>
    exact Bool.or_eq_false_iff.mpr ⟨ihBody steady.1, ihNext steady.2⟩
  | raise _ => rfl
  | run _ body _ next ihBody ihNext =>
    exact Bool.or_eq_false_iff.mpr ⟨ihBody steady.1, ihNext steady.2⟩

open CallStack (Sustains)

variable {s s' s'' : CallStack} {m : Monitor}

/-- A steady move leaves a recording running, with no fewer calls open. -/
theorem StackMove.apply_sustains {step : StackMove} (steady : step.Steady) {p : Profiler}
    (upright : s.Upright) (blank : p.pool.AllBlank) (room : s.HasRoom) :
    Sustains s (step.apply s p).2.1 := by
  cases step with
  | start signature => exact CallStack.start_sustains upright blank room signature
  | rename signature => exact CallStack.setCurrentSignature_sustains upright signature
  | io description duration =>
    exact CallStack.addIoCall_sustains upright blank room description duration
  | showTree | render _ | showState => exact .refl s
  | _ => exact steady.elim

/-- A nested execution ends the calls that were opened since it began. -/
theorem Monitor.conclude_unwinds (m : Monitor) (stack : CallStack) (depth : Nat) (forwardable : Bool)
    (e : Execution) (started : Reading) (failure : Option String) :
    (m.conclude stack (.nested depth forwardable) e started failure).1 =
      (stack.unwindTo m.profiler depth).1 := by
  unfold conclude finish
  dsimp only
  rw [runHook_profiler]

/-- Monitoring sustains a recording if the work does. -/
theorem Monitor.execute_sustains {ε α : Type} (describe : ε → String) (e : Execution)
    (work : CallStack → Monitor → Outcome ε α × CallStack × Monitor)
    (upright : s.Upright) (blank : m.profiler.pool.AllBlank) (room : s.HasRoom)
    (tidy : (m.prepare s e).2.1.Upright → (m.prepare s e).2.2.profiler.pool.AllBlank →
      Tidy (m.prepare s e).2.1 (m.prepare s e).2.2
        (work (m.prepare s e).2.1 (m.prepare s e).2.2).2.1
        (work (m.prepare s e).2.1 (m.prepare s e).2.2).2.2)
    (sustains : (m.prepare s e).2.1.Upright → (m.prepare s e).2.2.profiler.pool.AllBlank →
      Sustains (m.prepare s e).2.1 (work (m.prepare s e).2.1 (m.prepare s e).2.2).2.1) :
    Sustains s (execute describe e work s m).2.1 := by
  cases active : s.isActive with
  | false =>
    have left := execute_tidy describe e work upright blank room tidy
    exact CallStack.sustains_of_idle active (left.keeps.idle active)
  | true =>
    have prepared := prepare_cases m s e
    rcases prepared.opened_upright upright blank room with ⟨upright', blank'⟩
    have left := (tidy upright' blank').keeps
    have deep := sustains upright' blank'
    unfold execute
    dsimp only
    generalize m.prepare s e = result at *
    cases prepared with
    | bare policy => exact deep
    | nested _ =>
      rcases CallStack.start_depth upright blank room active e.name with ⟨opened, deeper⟩
      have below : s.depth ≤ (s.start m.profiler e.name).1.depth := by omega
      rw [if_neg (by simp)]
      dsimp only
      rw [conclude_unwinds]
      rcases CallStack.unwindSteps_sustains _ s.depth left.upright left.blank
        (deep.active.trans opened) (CallStack.depth_pos active) (below.trans deep.depth) with
        ⟨active', enough⟩
      exact ⟨active'.trans active.symm, enough⟩
    | unrecorded idle policy => exact nomatch idle.symm.trans active
    | recorded idle policy => exact nomatch idle.symm.trans active

namespace Script

/-- What a steady program does to its stack, and to the executions in it. -/
structure Steadfast (inner : Bool) (s s' : CallStack) (past : List Ended) : Prop where
  sustains : Sustains s s'
  live : s.isActive = inner → (∀ x ∈ past, x.live = false → x.mode = .topLevel true) →
    ∀ x ∈ past, x.live = x.inner

/-- Without executions it is enough that the stack goes on recording. -/
theorem Steadfast.nil {inner : Bool} (sustains : Sustains s s') : Steadfast inner s s' [] :=
  ⟨sustains, fun _ _ _ there => nomatch there⟩

/-- One part of a run after the other. -/
theorem Steadfast.append {inner : Bool} {past later : List Ended} (h : Steadfast inner s s' past)
    (h' : Steadfast inner s' s'' later) : Steadfast inner s s'' (past ++ later) := by
  refine ⟨h.sustains.trans h'.sustains, fun place chosen => ?_⟩
  rcases List.forall_mem_append.mp chosen with ⟨before, after⟩
  exact List.forall_mem_append.mpr
    ⟨h.live place before, h'.live (h.sustains.active.trans place) after⟩

/-- The work of an execution runs on a recording stack, if its stack recorded before or if it is
recorded itself. -/
theorem opened_active (e : Execution) (upright : s.Upright) (blank : m.profiler.pool.AllBlank)
    (room : s.HasRoom) (chosen : s.isActive = false → (m.prepare s e).1 = .topLevel true) :
    (m.prepare s e).2.1.isActive = true := by
  have prepared := Monitor.prepare_cases m s e
  generalize m.prepare s e = result at prepared chosen ⊢
  cases active : s.isActive with
  | true =>
    cases prepared with
    | bare policy => exact active
    | nested _ => exact (CallStack.start_depth upright blank room active e.name).1
    | unrecorded idle policy => exact nomatch idle.symm.trans active
    | recorded idle policy => exact nomatch idle.symm.trans active
  | false =>
    have mode := chosen active
    cases prepared with
    | bare policy => exact nomatch mode
    | nested busy => exact nomatch active.symm.trans busy
    | unrecorded idle policy => exact nomatch mode
    | recorded idle policy =>
      unfold CallStack.activate
      rw [idle]
      rfl

/-- An execution comes after those in its work, which run on the stack that was opened for it. -/
theorem Steadfast.execution {inner : Bool} {opened left : CallStack} {past : List Ended} {x : Ended}
    (held : Steadfast true opened left past) (kept : Sustains s s') (here : x.live = s.isActive)
    (around : x.inner = inner)
    (opens : (s.isActive = false → x.mode = .topLevel true) → opened.isActive = true) :
    Steadfast inner s s' (past ++ [x]) := by
  refine ⟨kept, fun place chosen => ?_⟩
  rcases List.forall_mem_append.mp chosen with ⟨chosenInside, chosenHere⟩
  have own := List.forall_mem_singleton.mp chosenHere
  rw [here] at own
  exact List.forall_mem_append.mpr ⟨held.live (opens own) chosenInside,
    List.forall_mem_singleton.mpr (here.trans (place.trans around.symm))⟩

/-- While a steady program runs, a stack that records goes on recording; and if all executions that
begin on an idle stack are recorded, then stacks record exactly while an execution runs on them. -/
theorem exec_steadfast (program : Script) (steady : program.Steady) (inner : Bool)
    (upright : s.Upright) (blank : m.profiler.pool.AllBlank)
    (room : ∀ v ∈ program.visited s m, v.HasRoom) :
    Steadfast inner s (program.exec s m).2.1 (program.executions inner s m) := by
  induction program generalizing inner s m with
  | done => exact .nil (.refl s)
  | move step next ih =>
    rcases List.forall_mem_cons.mp room with ⟨here, room⟩
    have plain : (Script.move step next).activates = false := steady.plain
    have moved := step.apply_keeps upright blank here (activates_move plain).1
    have made := StackMove.apply_sustains steady.1 upright blank here
    exact (Steadfast.nil made).append (ih steady.2 inner moved.upright moved.blank room)
  | monitor step next ih =>
    rcases List.forall_mem_cons.mp room with ⟨-, room⟩
    have made := step.apply_tidy (m := m) upright blank
    exact ih steady inner made.keeps.upright made.keeps.blank room
  | scope signature body next ihBody ihNext =>
    unfold visited at room
    unfold exec executions
    dsimp only at room ⊢
    rcases List.forall_mem_cons.mp room with ⟨here, room⟩
    rcases List.forall_mem_append.mp room with ⟨inside, rest⟩
    have opened := CallStack.enter_keeps upright blank here signature
    have ran := body.exec_tidy steady.1.plain opened.upright opened.blank inside
    have held := ihBody steady.1 inner opened.upright opened.blank inside
    generalize body.exec _ _ = result at ran held rest ⊢
    rcases result with ⟨result, left, ended⟩
    have closed := CallStack.leave_keeps ran.keeps.upright ran.keeps.blank
      (s.enter m.profiler signature).1
    have kept := CallStack.leave_sustains upright blank here signature ran.keeps.upright
      ran.keeps.blank held.sustains
    -- the guard takes the stack as far up as it was before, so only the part inside is deeper
    have entered := CallStack.start_sustains upright blank here signature
    have whole : Steadfast inner s _ _ := ⟨kept, ((Steadfast.nil entered).append held).live⟩
    cases result with
    | error payload => exact whole.append (.nil (.refl _))
    | ok _ => exact whole.append (ihNext steady.2 inner closed.upright closed.blank rest)
  | protect body next ihBody ihNext =>
    rcases List.forall_mem_append.mp room with ⟨roomBody, roomNext⟩
    have ran := body.exec_tidy steady.1.plain upright blank roomBody
    have held := ihBody steady.1 inner upright blank roomBody
    exact held.append (ihNext steady.2 inner ran.keeps.upright ran.keeps.blank roomNext)
  | raise payload => exact .nil (.refl s)
  | run e body ending next ihBody ihNext =>
    unfold visited at room
    dsimp only at room
    rcases List.forall_mem_cons.mp room with ⟨here, room⟩
    rcases List.forall_mem_append.mp room with ⟨inside, rest⟩
    have opened : (m.prepare s e).2.1.Upright ∧ (m.prepare s e).2.2.profiler.pool.AllBlank :=
      (Monitor.prepare_cases m s e).opened_upright upright blank here
    rcases opened with ⟨upright', blank'⟩
    have active := opened_active e upright blank here
    have ran := body.exec_tidy steady.1.plain (m := (m.prepare s e).2.2.stepped "work" (.name e.name)
      (some (m.prepare s e).2.1)) upright' blank' inside
    have held := ihBody steady.1 true (m := (m.prepare s e).2.2.stepped "work" (.name e.name)
      (some (m.prepare s e).2.1)) upright' blank' inside
    have worked : Tidy (m.prepare s e).2.1 (m.prepare s e).2.2 _ _ :=
      ((Tidy.refl upright' blank').stepped "work" (.name e.name) _).trans ran
    have done := Monitor.execute_tidy id e (body.work e.name ending) upright blank here
      fun _ _ => worked
    have kept := Monitor.execute_sustains id e (body.work e.name ending) upright blank here
      (fun _ _ => worked) fun _ _ => held.sustains
    rw [exec_run]
    unfold executions
    dsimp only
    rw [List.append_cons]
    generalize Monitor.execute id e _ s m = result at done kept rest ⊢
    rcases result with ⟨outcome, left, ended⟩
    have after := done.stepped "run" (.outcome outcome) (some left)
    refine Steadfast.append (held.execution kept rfl rfl ?_) ?_
    · exact active
    cases outcome with
    | panicked payload => exact .nil (.refl _)
    | ok value => exact ihNext steady.2 inner after.keeps.upright after.keeps.blank rest
    | error error => exact ihNext steady.2 inner after.keeps.upright after.keeps.blank rest

/-- A steady program on an idle stack, when every execution that begins on an idle stack is chosen for
recording. A handle has 32 bits for its slot, so no recording may come to have more slots than that. -/
structure AllChosen (program : Script) (s : CallStack) (m : Monitor) : Prop where
  steady : program.Steady
  idle : s.isActive = false
  blank : m.profiler.pool.AllBlank
  room : ∀ v ∈ program.visited s m, v.HasRoom
  chosen : ∀ x ∈ program.executions false s m, x.live = false → x.mode = .topLevel true

/-- If all executions that begin on an idle stack are recorded, a stack records exactly inside an
execution. -/
theorem AllChosen.live {program : Script} (all : program.AllChosen s m) :
    ∀ x ∈ program.executions false s m, x.live = x.inner := by
  have upright := CallStack.upright_of_idle (CallStack.isActive_eq_false.mp all.idle)
  have steadfast := program.exec_steadfast all.steady false upright all.blank all.room
  exact steadfast.live all.idle all.chosen

end Script

end CallProfiler
