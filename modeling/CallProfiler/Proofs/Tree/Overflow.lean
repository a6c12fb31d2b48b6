import CallProfiler.Proofs.Tree.History

/-!
# Proofs.Tree.Overflow: a tree with more slots than handles

A handle has 32 bits for the number of its slot, and a tree adds slots without counting them. The slot
with the number `2 ^ 32` gives out the handle of slot zero, where the root is. So the call that should
have come into it is in no reach, and the root is listed as a child of one of its own calls, or of
itself. From there on little holds of a tree that holds of all others, and the results on trees assume
that their slots can be numbered. The same modules show that they have to: each builds such a tree by a
crowd of calls below one node, and finds what is wrong with it.

* `Appended` — what a new call does to a tree without vacant slots, also where no number is left for it
* `Padded` — what does not change about a tree while a node gets any number of children
* `padded_crowd` — a crowd pads the tree, by induction on its size
* `overrun_run` — a crowd that fills all slots with numbers, and one more call, which gets the root's
  handle
-/

namespace CallProfiler

namespace CallTree

variable {t t' t'' : CallTree} {pool : NodePool} {p x : NodeRef} {n pn pn' cn : CallNode}
  {k k' : Nat} {now : Reading}

/-! ## New slots -/

/-- The handle that goes with the next new slot. -/
def nextHandle (t : CallTree) : NodeRef := ⟨UInt32.ofNat t.slots.size, 0⟩

/-- The next handle names the next slot, as long as there is a number for it. -/
theorem toNat_nextHandle (room : t.slots.size < 2 ^ 32) :
    t.nextHandle.index.toNat = t.slots.size :=
  UInt32.toNat_ofNat_of_lt' room

/-- As long as numbers are left, nothing is found under the next handle. -/
theorem get?_nextHandle (room : t.slots.size < 2 ^ 32) : t.get? t.nextHandle = none := by
  unfold get?
  rw [toNat_nextHandle room, Array.getElem?_size]

/-- A node in a new slot is found under the next handle, if its slot can be numbered. -/
theorem get?_push (t : CallTree) (n : CallNode) (x : NodeRef) :
    get? { t with slots := t.slots.push ⟨0, some n⟩ } x =
      if x = t.nextHandle ∧ t.slots.size < 2 ^ 32 then some n else t.get? x := by
  by_cases index : x.index.toNat = t.slots.size
  · have room : t.slots.size < 2 ^ 32 := index ▸ x.index.toNat_lt
    have beyond : t.get? x = none := by
      unfold get?
      rw [index, Array.getElem?_size]
    by_cases first : 0 = x.generation
    · have same : x = t.nextHandle :=
        NodeRef.eq_of_index_eq (index.trans (toNat_nextHandle room).symm) first.symm
      rw [if_pos ⟨same, room⟩]
      simp [get?, index, ← first]
    · have other : ¬ (x = t.nextHandle ∧ t.slots.size < 2 ^ 32) := by
        rintro ⟨rfl, -⟩
        exact first rfl
      rw [if_neg other, beyond]
      simp [get?, index, first]
  · have other : ¬ (x = t.nextHandle ∧ t.slots.size < 2 ^ 32) := by
      rintro ⟨rfl, room⟩
      exact index (toNat_nextHandle room)
    rw [if_neg other]
    unfold get?
    rw [Array.getElem?_push, if_neg index]

/-- A new call has come into a tree without vacant slots, below `p`. Without a number for its slot it is
in no reach, and all that has happened is that `p` was rewritten. -/
structure Appended (t : CallTree) (p : NodeRef) (pn' cn : CallNode) (t' : CallTree) : Prop where
  root : t'.root = t.root
  full : t'.vacant = []
  size : t'.slots.size = t.slots.size + 1
  get? : ∀ x, t'.get? x = if x = p then some pn' else
    if x = t.nextHandle ∧ t.slots.size < 2 ^ 32 then some cn else t.get? x

/-- In a tree without vacant slots a new node gets a new slot, and its caller can still be rewritten. -/
theorem appended_insert (full : t.vacant = []) (live : t.get? p = some pn) (cn : CallNode)
    (f : CallNode → CallNode) :
    (t.insert cn).1 = t.nextHandle ∧ (t.insert cn).2.get? p = some pn ∧
      Appended t p (f pn) cn ((t.insert cn).2.update p f) := by
  have insert : t.insert cn = (t.nextHandle, { t with slots := t.slots.push ⟨0, some cn⟩ }) := by
    unfold CallTree.insert
    rw [full]
    rfl
  have again : CallTree.get? { t with slots := t.slots.push ⟨0, some cn⟩ } p = some pn := by
    have old : ¬ (p = t.nextHandle ∧ t.slots.size < 2 ^ 32) := by
      rintro ⟨rfl, room⟩
      rw [get?_nextHandle room] at live
      cases live
    rw [get?_push, if_neg old, live]
  rw [insert]
  refine ⟨rfl, again, ?_⟩
  have thin := thinned_update { t with slots := t.slots.push ⟨0, some cn⟩ } p f
  refine ⟨thin.root, ?_, ?_, ?_⟩
  · rw [vacant_update]
    exact full
  · rw [thin.size]
    exact Array.size_push _
  · intro x
    rw [get?_update, again, get?_push]
    rfl

/-- A new call in a tree without vacant slots, with or without a number for its slot. -/
theorem openChild_full (full : t.vacant = []) (blank : pool.AllBlank) (live : t.get? p = some pn)
    (now : Reading) (signature : String) :
    ∃ t', t.openChild pool now p signature = (.ok t.nextHandle, t', pool.acquire.2) ∧
      Appended t p { pn with children := pn.children ++ [t.nextHandle] }
        (CallNode.blank.begun signature now (some p)) t' := by
  rcases appended_insert full live (CallNode.blank.begun signature now (some p))
    fun q => { q with children := q.children ++ [t.nextHandle] } with ⟨handle, again, appended⟩
  refine ⟨_, ?_, appended⟩
  simp only [openChild, live, blank.acquire_fst, again, handle]

/-- The slot after the last one that has a number gives out the handle of slot zero. -/
theorem nextHandle_full (size : t.slots.size = 2 ^ 32) : t.nextHandle = ⟨0, 0⟩ := by
  unfold nextHandle
  rw [size]
  rfl

/-- With no number left, nothing is found but what was there before. -/
theorem Appended.get?_over (appended : t.Appended p pn' cn t') (full : 2 ^ 32 ≤ t.slots.size)
    (x : NodeRef) : t'.get? x = if x = p then some pn' else t.get? x := by
  have none : ¬ (x = t.nextHandle ∧ t.slots.size < 2 ^ 32) :=
    fun found => Nat.not_lt.mpr full found.2
  rw [appended.get? x, if_neg none]

/-! ## Many children -/

/-- A tree without vacant slots has got `k` more slots, and of all nodes that were there before, `x` has
got further children and nothing else has changed. -/
structure Padded (t : CallTree) (x : NodeRef) (n : CallNode) (k : Nat) (t' : CallTree) : Prop where
  root : t'.root = t.root
  full : t'.vacant = []
  size : t'.slots.size = t.slots.size + k
  here : ∃ more, t'.get? x = some { n with children := n.children ++ more }
  others : ∀ {y m}, y ≠ x → t.get? y = some m → t'.get? y = some m

theorem Padded.refl (full : t.vacant = []) (live : t.get? x = some n) : Padded t x n 0 t where
  root := rfl
  full := full
  size := rfl
  here := ⟨[], by rw [List.append_nil, live]⟩
  others := fun _ hy => hy

/-- One new child pads a tree by one slot. -/
theorem Appended.padded {c : NodeRef}
    (appended : t.Appended x { n with children := n.children ++ [c] } cn t') : Padded t x n 1 t' where
  root := appended.root
  full := appended.full
  size := appended.size
  here := ⟨[c], by rw [appended.get?, if_pos rfl]⟩
  others := by
    intro y m other hy
    have old : ¬ (y = t.nextHandle ∧ t.slots.size < 2 ^ 32) := by
      rintro ⟨rfl, room⟩
      rw [get?_nextHandle room] at hy
      cases hy
    rw [appended.get?, if_neg other, if_neg old, hy]

/-- Paddings of one node add up. -/
theorem Padded.trans {more : List NodeRef} (first : t.Padded x n k t')
    (second : t'.Padded x { n with children := n.children ++ more } k' t'') :
    t.Padded x n (k + k') t'' where
  root := second.root.trans first.root
  full := second.full
  size := by rw [second.size, first.size, Nat.add_assoc]
  here := by
    rcases second.here with ⟨others, here⟩
    exact ⟨more ++ others, by rw [here, ← List.append_assoc]⟩
  others := fun other hy => second.others other (first.others other hy)

/-- A new call is open, so no call has ended if none had before. -/
theorem Appended.allOpen (appended : t.Appended p pn' cn t') (allOpen : t.AllOpen)
    (parent : pn'.closed = false) (child : cn.closed = false) : t'.AllOpen := by
  intro h m live
  rw [appended.get?] at live
  split at live
  · cases live
    exact parent
  split at live
  · cases live
    exact child
  · exact allOpen h m live

end CallTree

/-! ## Crowds -/

/-- Calls that are started one after the other below one node, and stay open. -/
def crowd (size : Nat) (p : NodeRef) : List TreeEvent :=
  List.replicate size (.edit 0 (.openChild p "part"))

namespace SharedTree

theorem run_nil (s : SharedTree) : s.run [] = s := rfl

theorem run_cons (s : SharedTree) (e : TreeEvent) (rest : List TreeEvent) :
    s.run (e :: rest) = (s.step e).run rest :=
  rfl

/-- What two histories do one after the other. -/
theorem run_append (s : SharedTree) (events later : List TreeEvent) :
    s.run (events ++ later) = (s.run events).run later :=
  List.foldl_append

/-- The event of a new call, once it is known what the call does to the tree. -/
theorem step_openChild {s : SharedTree} {p : NodeRef} {now : Reading} {signature : String}
    {result : Except RecordError NodeRef} {t' : CallTree} {pool' : NodePool}
    (opened : s.tree.openChild s.pool now p signature = (result, t', pool')) :
    s.step (.edit now (.openChild p signature)) = ⟨t', pool'⟩ := by
  simp only [step, CallTree.edit, opened]

/-- A crowd below a node pads the tree, and none of it ends. -/
theorem padded_crowd {s : SharedTree} {p : NodeRef} {n : CallNode} (full : s.tree.vacant = [])
    (blank : s.pool.AllBlank) (live : s.tree.get? p = some n) (size : Nat) :
    s.tree.Padded p n size (s.run (crowd size p)).tree ∧ (s.run (crowd size p)).pool.AllBlank ∧
      (s.tree.AllOpen → (s.run (crowd size p)).tree.AllOpen) := by
  induction size generalizing s n with
  | zero => exact ⟨.refl full live, blank, id⟩
  | succ size ih =>
    rcases CallTree.openChild_full full blank live 0 "part" with ⟨t', opened, appended⟩
    have run : s.run (crowd (size + 1) p) =
        SharedTree.run ⟨t', s.pool.acquire.2⟩ (crowd size p) := by
      rw [crowd, List.replicate_succ, run_cons, step_openChild opened, crowd]
    have here : t'.get? p = some { n with children := n.children ++ [s.tree.nextHandle] } := by
      rw [appended.get?, if_pos rfl]
    have later := ih (s := ⟨t', s.pool.acquire.2⟩) appended.full blank.acquire_snd here
    rw [run, Nat.add_comm size 1]
    refine ⟨appended.padded.trans later.1, later.2.1, ?_⟩
    intro allOpen
    exact later.2.2 (appended.allOpen allOpen (allOpen p n live) rfl)

/-- A recording of a job in which some calls of the root have been started. -/
def busy (names : List String) : SharedTree where
  tree :=
    { slots :=
        (⟨0, some { signature := "job"
                    children := (List.range names.length).map fun i => ⟨UInt32.ofNat (i + 1), 0⟩ }⟩ ::
          names.map fun name => ⟨0, some { signature := name, parent := some ⟨0, 0⟩ }⟩).toArray
      vacant := []
      root := ⟨0, 0⟩ }
  pool := { allocated := UInt64.ofNat (names.length + 1) }

theorem step_busy (names : List String) (name : String) :
    (busy names).step (.edit 0 (.openChild ⟨0, 0⟩ name)) = busy (names ++ [name]) := by
  simp [step, CallTree.edit, CallTree.openChild, busy, CallTree.insert, CallTree.get?,
    CallTree.update, NodePool.acquire, CallNode.blank, CallNode.begun, List.range_succ]

/-- Calls that are started one after the other take one slot after the other. -/
theorem run_busy (names more : List String) :
    (busy names).run (more.map fun name => .edit 0 (.openChild ⟨0, 0⟩ name)) =
      busy (names ++ more) := by
  induction more generalizing names with
  | nil =>
    rw [List.append_nil]
    rfl
  | cons name more ih =>
    rw [List.map_cons, run_cons, step_busy, ih, List.append_assoc]
    rfl

/-- What is known of a recording of a job with three calls. -/
structure Begun (s : SharedTree) (a b c : String) : Prop where
  top : s.tree.root = ⟨0, 0⟩
  full : s.tree.vacant = []
  size : s.tree.slots.size = 4
  root : s.tree.get? ⟨0, 0⟩ = some { signature := "job", children := [⟨1, 0⟩, ⟨2, 0⟩, ⟨3, 0⟩] }
  first : s.tree.get? ⟨1, 0⟩ = some { signature := a, parent := some ⟨0, 0⟩ }
  second : s.tree.get? ⟨2, 0⟩ = some { signature := b, parent := some ⟨0, 0⟩ }
  third : s.tree.get? ⟨3, 0⟩ = some { signature := c, parent := some ⟨0, 0⟩ }
  allOpen : s.tree.AllOpen
  blank : s.pool.AllBlank

theorem begun_three (a b c : String) :
    Begun ((begin true [] 0 "job").run
      [.edit 0 (.openChild ⟨0, 0⟩ a), .edit 0 (.openChild ⟨0, 0⟩ b),
        .edit 0 (.openChild ⟨0, 0⟩ c)]) a b c := by
  have same : (begin true [] 0 "job").run
      [.edit 0 (.openChild ⟨0, 0⟩ a), .edit 0 (.openChild ⟨0, 0⟩ b),
        .edit 0 (.openChild ⟨0, 0⟩ c)] = busy [a, b, c] := run_busy [] [a, b, c]
  rw [same]
  exact {
    top := rfl
    full := rfl
    size := rfl
    root := rfl
    first := rfl
    second := rfl
    third := rfl
    allOpen := CallTree.allOpen_of_slots (by simp [busy])
    blank := fun n free => absurd free (by simp [busy]) }

end SharedTree

/-! ## One call too many -/

namespace CallTree

/-- After a crowd below `p` has filled all slots that have numbers, `q` has got the root for a child. -/
structure Overrun (t : CallTree) (p : NodeRef) (n : CallNode) (q : NodeRef) (m : CallNode)
    (t' : CallTree) : Prop where
  root : t'.root = t.root
  full : t'.vacant = []
  size : t'.slots.size = 2 ^ 32 + 1
  crowded : ∃ more, t'.get? p = some { n with children := n.children ++ more }
  caller : t'.get? q = some { m with children := m.children ++ [⟨0, 0⟩] }
  others : ∀ {y m'}, y ≠ p → y ≠ q → t.get? y = some m' → t'.get? y = some m'
  allOpen : t.AllOpen → t'.AllOpen

end CallTree

/-- A crowd that fills all slots that have numbers, and one more call below another node. -/
def overrun (size : Nat) (p q : NodeRef) : List TreeEvent :=
  crowd size p ++ [.edit 0 (.openChild q "again")]

/-- A crowd that fills the numbered slots, and then one more call, overruns the tree. -/
theorem SharedTree.overrun_run {s : SharedTree} {p q : NodeRef} {n m : CallNode} {k : Nat}
    (full : s.tree.vacant = []) (blank : s.pool.AllBlank) (live : s.tree.get? p = some n)
    (caller : s.tree.get? q = some m) (apart : q ≠ p) (filled : s.tree.slots.size + k = 2 ^ 32) :
    s.tree.Overrun p n q m (s.run (overrun k p q)).tree ∧
      (s.run (overrun k p q)).pool.AllBlank := by
  rcases padded_crowd full blank live k with ⟨padded, blank', allOpen⟩
  have here := padded.others apart caller
  have size := padded.size.trans filled
  rcases CallTree.openChild_full padded.full blank' here 0 "again" with ⟨t', opened, appended⟩
  rw [CallTree.nextHandle_full size] at opened appended
  have get := appended.get?_over (Nat.le_of_eq size.symm)
  have run : s.run (overrun k p q) = ⟨t', (s.run (crowd k p)).pool.acquire.2⟩ := by
    rw [overrun, run_append, run_cons, step_openChild opened, run_nil]
  rw [run]
  refine ⟨?_, blank'.acquire_snd⟩
  exact {
    root := appended.root.trans padded.root
    full := appended.full
    size := by rw [appended.size, size]
    crowded := by
      rcases padded.here with ⟨more, crowded⟩
      exact ⟨more, by rw [get, if_neg (Ne.symm apart), crowded]⟩
    caller := by rw [get, if_pos rfl]
    others := fun {y m'} notCrowded notCaller hy => by
      rw [get, if_neg notCaller, padded.others notCrowded hy]
    allOpen := fun before =>
      appended.allOpen (allOpen before) (before q m caller) rfl }

/-! ## A root below itself -/

/-- A history in which the last call is started below the root and gets its handle, so that the root
becomes its own child. -/
def loopedHistory : List TreeEvent :=
  .edit 0 (.openChild ⟨0, 0⟩ "load") :: overrun (2 ^ 32 - 2) ⟨1, 0⟩ ⟨0, 0⟩

/-- The root is the last of its own children. -/
theorem run_loopedHistory :
    let s := (SharedTree.begin true [] 0 "job").run loopedHistory
    s.tree.root = ⟨0, 0⟩ ∧ s.tree.slots.size = 2 ^ 32 + 1 ∧
    s.tree.get? ⟨0, 0⟩ = some { signature := "job", children := [⟨1, 0⟩, ⟨0, 0⟩] } ∧
    ∃ more, s.tree.get? ⟨1, 0⟩ =
      some { signature := "load", parent := some ⟨0, 0⟩, children := more } := by
  dsimp only
  rw [loopedHistory, SharedTree.run_cons]
  have blank := (SharedTree.good_begin true [] 0 "job").pool
  generalize opened : (SharedTree.begin true [] 0 "job").step (.edit 0 (.openChild ⟨0, 0⟩ "load")) = s
  have root : s.tree.get? ⟨0, 0⟩ = some { signature := "job", children := [⟨1, 0⟩] } := by
    rw [← opened]
    decide +kernel
  have load : s.tree.get? ⟨1, 0⟩ = some { signature := "load", parent := some ⟨0, 0⟩ } := by
    rw [← opened]
    decide +kernel
  have start : s.tree.root = ⟨0, 0⟩ ∧ s.tree.vacant = [] ∧ s.tree.slots.size = 2 := by
    rw [← opened]
    decide +kernel
  have filled : s.tree.slots.size + (2 ^ 32 - 2) = 2 ^ 32 := by omega
  have blank : s.pool.AllBlank := by
    rw [← opened]
    exact blank.acquire_snd
  rcases SharedTree.overrun_run start.2.1 blank load root (by decide) filled with ⟨overrun, -⟩
  rcases overrun.crowded with ⟨more, crowded⟩
  exact ⟨overrun.root.trans start.1, overrun.size, overrun.caller, more, crowded⟩

/-- The end of a root charges nobody. -/
theorem SharedTree.step_close_root {s : SharedTree} {h : NodeRef} {n : CallNode}
    (live : s.tree.get? h = some n) (noParent : n.parent = none) (now : Reading)
    (signature : Option String) (minimum : UInt64) :
    s.step (.edit now (.close h signature minimum)) =
      ⟨s.tree.update h fun _ => n.closedAt now signature, s.pool⟩ := by
  simp only [SharedTree.step, CallTree.edit, CallTree.close_root live noParent]

/-- The root is ended through the handle of the call that is none. -/
def endedLoopHistory : List TreeEvent := loopedHistory ++ [.edit 5 (.close ⟨0, 0⟩ none 0)]

/-- The root has ended after five units and is still its own child. -/
theorem run_endedLoopHistory :
    let s := (SharedTree.begin true [] 0 "job").run endedLoopHistory
    s.tree.root = ⟨0, 0⟩ ∧ s.tree.slots.size = 2 ^ 32 + 1 ∧
    s.tree.get? ⟨0, 0⟩ = some
      { signature := "job", gross := 5, net := 5, closed := true, children := [⟨1, 0⟩, ⟨0, 0⟩] } ∧
    ∃ more, s.tree.get? ⟨1, 0⟩ =
      some { signature := "load", parent := some ⟨0, 0⟩, children := more } := by
  rcases run_loopedHistory with ⟨root, size, job, more, load⟩
  dsimp only
  rw [endedLoopHistory, SharedTree.run_append, SharedTree.run_cons]
  generalize (SharedTree.begin true [] 0 "job").run loopedHistory = s at root size job load
  have ended : CallNode.closedAt { signature := "job", children := [⟨1, 0⟩, ⟨0, 0⟩] } 5 none =
      { signature := "job", gross := 5, net := 5, closed := true, children := [⟨1, 0⟩, ⟨0, 0⟩] } := by
    decide +kernel
  rw [SharedTree.run_nil, SharedTree.step_close_root job rfl, ended]
  have get := CallTree.get?_update s.tree ⟨0, 0⟩
  refine ⟨(CallTree.thinned_update s.tree _ _).root.trans root,
    (CallTree.size_update s.tree _ _).trans size, ?_, more, ?_⟩
  · rw [get, if_pos rfl, job, Option.map_some]
  · rw [get, if_neg (by decide), load]

end CallProfiler
