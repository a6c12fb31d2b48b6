import CallProfiler.Proofs.Tree.Handles

/-!
# Proofs.Tree.Endings: what the end of a call fixes, and for how long

A call that has ended can be ended again. Its duration is then the one up to the last end, and its
parent is charged for every end. So a duration is final, and is charged at most once, for exactly as
long as nobody ends the call a second time, and a leaf that was measured elsewhere at all.

* `Charge` — a time that is taken out of the net time of a parent; `net_edit` says that the net times
  change by charges, by the end of the call itself and by trims, and by nothing else
* `Lasts` — what becomes of a call that stays in the tree, in terms of the readings at which it is ended
* `SharedTree.lasts_step` and `SharedTree.lasts_run` — one event makes it so, and so does every history
* `endings_of_history` — so it is after every history that the call outlives
-/

namespace CallProfiler

/-! ## Charges -/

/-- The time of a call is taken out of the net time of another, its parent. -/
structure Charge where
  payer : NodeRef
  call : NodeRef
  time : UInt64
  deriving DecidableEq

/-- The net time of a node after a charge has been made, to it or to another node. -/
def CallNode.paying (n : CallNode) (x : NodeRef) : Option Charge → UInt64
  | some charge => if charge.payer = x then (n.charge charge.time).net else n.net
  | none => n.net

/-- The reading at which an event ends a call. -/
def TreeEvent.ending? (h : NodeRef) : TreeEvent → Option Reading
  | .edit now (.close x _ _) => if x = h then some now else none
  | _ => none

/-- Only the end of a call writes more of its record than its signature. -/
theorem NodeRecord.after_of_not_ended {h : NodeRef} {now : Reading} {change : TreeEdit}
    (r : NodeRecord) (notEnded : (TreeEvent.edit now change).ending? h = none) :
    ∃ signature, r.after h now change = { r with signature := signature } := by
  cases change with
  | close x signature minimum =>
    have other : x ≠ h := by
      intro same
      rw [TreeEvent.ending?, if_pos same] at notEnded
      exact absurd notEnded (by simp)
    exact ⟨r.signature, if_neg other⟩
  | setSignature x signature =>
    by_cases here : x = h
    · exact ⟨signature, if_pos here⟩
    · exact ⟨r.signature, if_neg here⟩
  | openChild parent signature => exact ⟨r.signature, rfl⟩
  | addIoCall parent description duration => exact ⟨r.signature, rfl⟩
  | trim threshold => exact ⟨r.signature, rfl⟩

/-- A call is ended at a reading by the edit that closes its handle then. -/
theorem TreeEvent.eq_close_of_ended {h : NodeRef} {now r : Reading} {change : TreeEdit}
    (ended : (TreeEvent.edit now change).ending? h = some r) :
    r = now ∧ ∃ signature minimum, change = .close h signature minimum := by
  unfold TreeEvent.ending? at ended
  split at ended
  · rename_i x signature minimum same
    cases same
    split at ended
    · rename_i here
      exact ⟨(Option.some.inj ended).symm, signature, minimum, by rw [here]⟩
    · exact absurd ended (by simp)
  · exact absurd ended (by simp)

/-- The readings at which a history ends a call. -/
def endings (h : NodeRef) (events : List TreeEvent) : List Reading :=
  events.filterMap (·.ending? h)

namespace CallTree

variable {t t' : CallTree} {pool : NodePool} {now : Reading} {h p x : NodeRef} {n n' m : CallNode}

/-- The charge that a change makes, given its answer: a call that ends and is kept is charged to its
parent, and so is a leaf that is recorded. -/
def charge? (t : CallTree) (now : Reading) (change : TreeEdit) (answer : EditAnswer) : Option Charge :=
  match change, answer with
  | .close h _ _, .closed .kept =>
    (t.get? h).bind fun n => n.parent.map fun p => ⟨p, h, saturatingSub now n.start⟩
  | .addIoCall p _ duration, .issued c => some ⟨p, c, duration⟩
  | _, _ => none

/-- The net time of a node after a change that it survives. -/
def netAfter (t : CallTree) (now : Reading) (change : TreeEdit) (answer : EditAnswer) (x : NodeRef)
    (n : CallNode) : UInt64 :=
  match change with
  | .close h signature _ =>
    if h = x then (n.closedAt now signature).net else n.paying x (t.charge? now change answer)
  | .trim threshold => (t.trimmed threshold n).net
  | _ => n.paying x (t.charge? now change answer)

/-! ## Net times change by charges -/

/-- A new leaf changes the net time of the node above it at most. -/
theorem Grafted.net {c : NodeRef} {pn' cn : CallNode} (g : Grafted t p c pn' cn t')
    (hx : t.get? x = some n) (hx' : t'.get? x = some n') :
    n'.net = if p = x then pn'.net else n.net := by
  have old : x ≠ c := by
    intro same
    rw [same, g.fresh] at hx
    exact absurd hx (by simp)
  rw [g.get?, if_neg old] at hx'
  by_cases here : x = p
  · rw [if_pos here] at hx'
    rw [← Option.some.inj hx', if_pos here.symm]
  · rw [if_neg here, hx] at hx'
    rw [← Option.some.inj hx', if_neg fun same => here same.symm]

/-- A call that is kept charges its parent, if it has one, with the time since its start. -/
theorem charge?_kept (live : t.get? h = some m) (now : Reading) (signature : Option String)
    (minimum : UInt64) : t.charge? now (.close h signature minimum) (.closed .kept) =
      m.parent.map fun p => ⟨p, h, saturatingSub now m.start⟩ := by
  simp only [charge?, live, Option.bind_some]

/-- The call that ends is rewritten first, whatever becomes of it then. -/
theorem net_rewritten (live : t.get? h = some m) (now : Reading) (signature : Option String)
    (hx : t.get? x = some n)
    (hx' : (t.update h fun _ => m.closedAt now signature).get? x = some n') :
    n'.net = if h = x then (n.closedAt now signature).net else n.net := by
  rw [get?_update] at hx'
  by_cases here : x = h
  · rw [if_pos here, live, Option.map_some] at hx'
    rw [here, live] at hx
    rw [if_pos here.symm, ← Option.some.inj hx', Option.some.inj hx]
  · rw [if_neg here, hx] at hx'
    rw [if_neg fun same => here same.symm, ← Option.some.inj hx']

/-- The end of a call writes its own net time, and takes its time out of that of its parent. -/
theorem net_close (ok : t.WellFormed) (pool : NodePool) (now : Reading) (h : NodeRef)
    (signature : Option String) (minimum : UInt64) (hx : t.get? x = some n)
    (hx' : (t.close pool now h signature minimum).2.1.get? x = some n') :
    n'.net = t.netAfter now (.close h signature minimum)
      (.ofExcept .closed (t.close pool now h signature minimum).1) x n := by
  cases live : t.get? h with
  | none =>
    have other : h ≠ x := by
      intro same
      rw [same, hx] at live
      exact absurd live (by simp)
    rw [close_stale live] at hx' ⊢
    rw [Option.mem_unique hx' hx]
    exact (if_neg other).symm
  | some m =>
    cases parent : m.parent with
    | none =>
      rw [close_root live parent] at hx' ⊢
      rw [net_rewritten live now signature hx hx']
      simp only [netAfter, EditAnswer.ofExcept, charge?_kept live, parent, Option.map_none]
      rfl
    | some p =>
      by_cases fast : saturatingSub now m.start < minimum
      · rw [close_pruned live parent fast] at hx' ⊢
        have linked := linked_closed ok.toLinked live now signature
        rcases (get?_remove_detach linked pool p h x n').mp hx' with ⟨-, k, hk, eq⟩
        have same : n'.net = k.net := by
          rw [eq]
          split <;> rfl
        rw [same, net_rewritten live now signature hx hk]
        rfl
      · rw [close_kept ok.toLinked live parent fast] at hx' ⊢
        simp only [netAfter, EditAnswer.ofExcept, charge?_kept live, parent, Option.map_some,
          CallNode.paying]
        have apart : h ≠ p := by
          rintro rfl
          exact ok.toLinked.not_below_parent live parent (.self live)
        rw [get?_update] at hx'
        by_cases payer : x = p
        · rw [if_pos payer, ← payer] at hx'
          rcases Option.map_eq_some_iff.mp hx' with ⟨k, hk, rfl⟩
          have other : h ≠ x := fun same => apart (same.trans payer)
          rw [get?_update, if_neg fun same => other same.symm] at hk
          rw [if_neg other, if_pos payer.symm, Option.mem_unique hk hx]
        · rw [if_neg payer] at hx'
          simp only [net_rewritten live now signature hx hx',
            if_neg fun same : p = x => payer same.symm]

/-- A change to a well-formed tree changes the net time of a node by the end of the call, by a trim or by
what is charged to it. -/
theorem net_edit (ok : t.WellFormed) (room : t.slots.size < 2 ^ 32) (blank : pool.AllBlank)
    (now : Reading) (change : TreeEdit) (hx : t.get? x = some n)
    (hx' : (t.edit pool now change).2.1.get? x = some n') :
    n'.net = t.netAfter now change (t.edit pool now change).1 x n := by
  have unchanged : ∀ {m : CallNode}, t.get? x = some m → m.net = n.net := by
    intro m hm
    rw [Option.mem_unique hx hm]
  cases change with
  | openChild parent signature =>
    cases live : t.get? parent with
    | none =>
      simp only [edit, openChild_stale live] at hx'
      exact unchanged hx'
    | some pn =>
      rcases openChild_live ok room blank live now signature with ⟨c, t', eq, grafted⟩
      simp only [edit, eq] at hx'
      rw [grafted.net hx hx']
      split
      · rename_i here
        rw [here] at live
        show pn.net = n.net
        exact unchanged live
      · rfl
  | close y signature minimum => exact net_close ok pool now y signature minimum hx hx'
  | addIoCall parent description duration =>
    cases live : t.get? parent with
    | none =>
      simp only [edit, addIoCall_stale live] at hx' ⊢
      exact unchanged hx'
    | some pn =>
      rcases addIoCall_live ok room blank live now description duration with ⟨c, t', eq, grafted⟩
      simp only [edit, eq] at hx' ⊢
      rw [grafted.net hx hx']
      show _ = if parent = x then (n.charge duration).net else n.net
      split
      · rename_i here
        rw [here] at live
        rw [Option.mem_unique hx live]
        rfl
      · rfl
  | setSignature y signature =>
    cases live : t.get? y with
    | none =>
      simp only [edit, setSignature_stale live] at hx'
      exact unchanged hx'
    | some m =>
      simp only [edit, setSignature_live live] at hx'
      rw [get?_update] at hx'
      split at hx'
      · rename_i here
        rw [← here, hx] at hx'
        rw [← Option.some.inj hx']
        rfl
      · exact unchanged hx'
  | trim threshold =>
    rcases removeCallsFasterThan_spec ok.toSlotted ok.toLinked pool threshold with ⟨-, -, -, get⟩
    rcases (get x n').mp hx' with ⟨-, m, hm, eq⟩
    rw [eq, Option.mem_unique hm hx]
    rfl

/-- A charge is for the call that ends, or for the leaf whose handle is issued. -/
theorem call_of_charge? {change : TreeEdit} {answer : EditAnswer} {charge : Charge}
    (made : t.charge? now change answer = some charge) :
    (∃ signature minimum, change = .close charge.call signature minimum) ∨
      answer = .issued charge.call := by
  unfold charge? at made
  split at made
  · rename_i y signature minimum
    rcases Option.bind_eq_some_iff.mp made with ⟨m, -, paid⟩
    rcases Option.map_eq_some_iff.mp paid with ⟨p, -, rfl⟩
    exact Or.inl ⟨signature, minimum, rfl⟩
  · rw [← Option.some.inj made]
    exact Or.inr rfl
  · exact absurd made (by simp)

/-- The end of a call that stays in the tree is charged to its parent, if it has one. -/
theorem charge?_of_ended (ok : t.WellFormed) (live : t.get? h = some n) (pool : NodePool)
    (now : Reading) (signature : Option String) (minimum : UInt64)
    (stays : t.removes now (.close h signature minimum) h = false) :
    t.charge? now (.close h signature minimum)
      (t.edit pool now (.close h signature minimum)).1 =
        n.parent.map fun p => ⟨p, h, saturatingSub now n.start⟩ := by
  simp only [edit]
  cases parent : n.parent with
  | none =>
    rw [close_root live parent]
    exact (charge?_kept live now signature minimum).trans (by rw [parent])
  | some p =>
    have slow : ¬ saturatingSub now n.start < minimum := by
      intro fast
      have removed := (removes_close_iff ok ⟨n, live⟩ now h signature minimum).mpr
        ⟨n, p, live, parent, fast, .self live⟩
      rw [stays] at removed
      exact absurd removed (by simp)
    rw [close_kept ok.toLinked live parent slow]
    exact (charge?_kept live now signature minimum).trans (by rw [parent])

end CallTree

/-! ## Calls that stay -/

/-- What becomes of a call that stays in the tree. It keeps its place and its start; the last of the
readings at which it is ended decides about its duration, and without one it stays as it was; and for
each of them its parent is charged once. -/
structure Lasts (h : NodeRef) (n n' : CallNode) (ends : List Reading) (charges : List Charge) : Prop where
  start : n'.start = n.start
  parent : n'.parent = n.parent
  ioCall : n'.ioCall = n.ioCall
  closed : n'.closed = (n.closed || !ends.isEmpty)
  gross : n'.gross = (ends.getLast?.map (saturatingSub · n.start)).getD n.gross
  charges : charges.filter (·.call = h) =
    ends.filterMap fun now => n.parent.map fun p => ⟨p, h, saturatingSub now n.start⟩

namespace Lasts

variable {h : NodeRef} {n n' n'' : CallNode} {ends ends' : List Reading} {charges charges' : List Charge}

/-- A call lasts through no events. -/
theorem refl (h : NodeRef) (n : CallNode) : Lasts h n n [] [] where
  start := rfl
  parent := rfl
  ioCall := rfl
  closed := (Bool.or_false _).symm
  gross := rfl
  charges := rfl

/-- A call that lasts through some events and then through others lasts through both. -/
theorem trans (first : Lasts h n n' ends charges) (second : Lasts h n' n'' ends' charges') :
    Lasts h n n'' (ends ++ ends') (charges ++ charges') where
  start := second.start.trans first.start
  parent := second.parent.trans first.parent
  ioCall := second.ioCall.trans first.ioCall
  closed := by
    rw [second.closed, first.closed, Bool.or_assoc]
    cases ends <;> simp
  gross := by
    rw [second.gross, first.gross, first.start, List.getLast?_append]
    cases ends'.getLast? with
    | none => rfl
    | some now => rfl
  charges := by
    rw [List.filter_append, List.filterMap_append, first.charges, second.charges, first.start,
      first.parent]

/-- A call that keeps its record, but for its signature, and is not charged for is not ended. -/
theorem of_record {signature : String} (record : n'.record = { n.record with signature := signature })
    (unpaid : charges.filter (·.call = h) = []) : Lasts h n n' [] charges where
  start := congrArg NodeRecord.start record
  parent := congrArg NodeRecord.parent record
  ioCall := congrArg NodeRecord.ioCall record
  closed := (congrArg NodeRecord.closed record).trans (Bool.or_false _).symm
  gross := congrArg NodeRecord.gross record
  charges := unpaid

end Lasts

namespace SharedTree

variable {s : SharedTree} {h : NodeRef} {n : CallNode}

/-- The charge that an event makes. -/
def charge? (s : SharedTree) : TreeEvent → Option Charge
  | .edit now change => s.tree.charge? now change (s.tree.edit s.pool now change).1
  | .pool _ => none

/-- The charges that a history makes, one after the other. -/
def charges (s : SharedTree) : List TreeEvent → List Charge
  | [] => []
  | e :: rest => (s.charge? e).toList ++ (s.step e).charges rest

/-- One event ends a call that stays in the tree, or it leaves the call as it is. -/
theorem lasts_step (good : s.Good) (room : s.tree.slots.size < 2 ^ 32) (hn : s.tree.get? h = some n)
    (e : TreeEvent) (live : (s.step e).tree.Live h) :
    ∃ n', (s.step e).tree.get? h = some n' ∧
      Lasts h n n' (e.ending? h).toList (s.charge? e).toList := by
  cases e with
  | pool e => exact ⟨n, hn, .refl h n⟩
  | edit now change =>
    have account := CallTree.accounted_edit good.tree room good.pool now change
    have stays : s.tree.removes now change h = false := by
      by_contra removed
      have gone := account.gone hn (Bool.eq_true_of_not_eq_false removed)
      rcases live with ⟨n', hn'⟩
      have hn' : (s.tree.edit s.pool now change).2.1.get? h = some n' := hn'
      rw [gone] at hn'
      exact absurd hn' (by simp)
    rcases account.kept hn stays with ⟨n', hn', record⟩
    refine ⟨n', hn', ?_⟩
    cases ended : (TreeEvent.edit now change).ending? h with
    | none =>
      rcases n.record.after_of_not_ended ended with ⟨signature, same⟩
      refine .of_record (record.trans same) (List.filter_eq_nil_iff.mpr ?_)
      -- a charge for the call is one for its end, because the handle of a new leaf was free
      intro charge made paid
      have made : s.charge? (.edit now change) = some charge := Option.mem_toList.mp made
      have paid : charge.call = h := of_decide_eq_true paid
      rcases CallTree.call_of_charge? made with ⟨signature, minimum, closes⟩ | issued
      · rw [closes, paid, TreeEvent.ending?, if_pos rfl] at ended
        exact absurd ended (by simp)
      · have fresh := (account.issued issued).1
        rw [paid, hn] at fresh
        exact absurd fresh (by simp)
    | some r =>
      rcases TreeEvent.eq_close_of_ended ended with ⟨rfl, signature, minimum, rfl⟩
      have charged := CallTree.charge?_of_ended good.tree hn s.pool r signature minimum stays
      simp only [NodeRecord.after, if_true] at record
      refine ⟨congrArg NodeRecord.start record, congrArg NodeRecord.parent record,
        congrArg NodeRecord.ioCall record, ?_, congrArg NodeRecord.gross record, ?_⟩
      · exact (congrArg NodeRecord.closed record).trans (Bool.or_true _).symm
      · simp only [charge?, charged, Option.toList_some]
        cases n.parent with
        | none => rfl
        | some p => simp

/-- A history makes of a call that it never removes what its ends make of it. -/
theorem lasts_run (good : s.Good) {events : List TreeEvent}
    (room : (s.run events).tree.slots.size < 2 ^ 32)
    (live : ∀ v ∈ s.visited events, v.tree.Live h) (hn : s.tree.get? h = some n) :
    ∃ n', (s.run events).tree.get? h = some n' ∧
      Lasts h n n' (endings h events) (s.charges events) := by
  induction events generalizing s n with
  | nil => exact ⟨n, hn, .refl h n⟩
  | cons e rest ih =>
    have now := Nat.lt_of_le_of_lt (s.size_run_le (e :: rest)) room
    have next := live (s.step e) (List.mem_cons_of_mem _ (mem_visited_self _ rest))
    rcases lasts_step good now hn e next with ⟨m, hm, first⟩
    rcases ih (good.step now e).1 room (fun v hv => live v (List.mem_cons_of_mem _ hv)) hm with
      ⟨n', hn', later⟩
    refine ⟨n', hn', ?_⟩
    have ends : endings h (e :: rest) = (e.ending? h).toList ++ endings h rest := by
      unfold endings
      rw [List.filterMap_cons]
      cases e.ending? h <;> rfl
    rw [ends]
    exact first.trans later

/-- A leaf that was measured elsewhere is charged when its handle is issued; a call that starts is not. -/
theorem charge_issued (good : s.Good) (room : s.tree.slots.size < 2 ^ 32) (now : Reading)
    (change : TreeEdit) {c : NodeRef} (issued : (s.tree.edit s.pool now change).1 = .issued c) :
    ∃ n, (s.step (.edit now change)).tree.get? c = some n ∧
      s.charge? (.edit now change) =
        if n.closed then n.parent.map fun p => ⟨p, c, n.gross⟩ else none := by
  have account := CallTree.accounted_edit good.tree room good.pool now change
  rcases (account.issued issued).2 with ⟨n, hn, created⟩
  refine ⟨n, hn, ?_⟩
  unfold charge?
  dsimp only
  rw [issued]
  cases change with
  | openChild parent signature =>
    have closed : n.closed = false := (congrArg NodeRecord.closed (Option.some.inj created)).symm
    rw [closed]
    rfl
  | addIoCall parent description duration =>
    have record := Option.some.inj created
    have closed : n.closed = true := (congrArg NodeRecord.closed record).symm
    have gross : n.gross = duration := (congrArg NodeRecord.gross record).symm
    have above : n.parent = some parent := (congrArg NodeRecord.parent record).symm
    rw [closed, gross, above]
    rfl
  | close x signature minimum => exact absurd created (by simp [TreeEdit.created?])
  | setSignature x signature => exact absurd created (by simp [TreeEdit.created?])
  | trim threshold => exact absurd created (by simp [TreeEdit.created?])

end SharedTree

/-! ## Every history -/

/-- After some history, of which nothing is assumed but that the slots can still be numbered in 32 bits
at the end of what follows: a call that stays in the tree has the duration up to the last of the readings
at which it is ended, or the one that it had if it is not ended at all, and it has been charged to its
parent once for each of these readings. Apart from that it is charged when its handle is issued, if it is
a leaf that was measured elsewhere. Charges are what changes the net time of a node, besides its own end
and trims. -/
theorem endings_of_history (pooling : Bool) (before : List PoolEvent) (now : Reading)
    (signature : String) (events later : List TreeEvent)
    (room : ((SharedTree.begin pooling before now signature).run
      (events ++ later)).tree.slots.size < 2 ^ 32) :
    let s := (SharedTree.begin pooling before now signature).run events
    (∀ h n, s.tree.get? h = some n → (∀ v ∈ s.visited later, v.tree.Live h) →
      ∃ n', (s.run later).tree.get? h = some n' ∧
        Lasts h n n' (endings h later) (s.charges later)) ∧
    (∀ r change c, (s.tree.edit s.pool r change).1 = .issued c →
      ∃ n, (s.step (.edit r change)).tree.get? c = some n ∧ s.charge? (.edit r change) =
        if n.closed then n.parent.map fun p => ⟨p, c, n.gross⟩ else none) ∧
    (∀ r change x n n', s.tree.get? x = some n →
      (s.step (.edit r change)).tree.get? x = some n' →
      n'.net = s.tree.netAfter r change (s.tree.edit s.pool r change).1 x n) := by
  intro s
  have whole : (s.run later).tree.slots.size < 2 ^ 32 := by
    have split : (SharedTree.begin pooling before now signature).run (events ++ later) = s.run later :=
      List.foldl_append
    rw [← split]
    exact room
  have first : s.tree.slots.size < 2 ^ 32 := Nat.lt_of_le_of_lt (s.size_run_le later) whole
  have good : s.Good := (SharedTree.good_begin pooling before now signature).run first
  refine ⟨?_, ?_, ?_⟩
  · intro h n hn live
    exact SharedTree.lasts_run good whole live hn
  · intro r change c issued
    exact SharedTree.charge_issued good first r change issued
  · intro r change x n n' hx hx'
    exact CallTree.net_edit good.tree first good.pool r change hx hx'

/-- Two calls and a leaf: one call has ended, the other is open. -/
def endedOnce : List TreeEvent :=
  [.edit 1 (.openChild ⟨0, 0⟩ "load"), .edit 2 (.addIoCall ⟨1, 0⟩ "read" 7),
    .edit 3 (.openChild ⟨1, 0⟩ "parse"), .edit 5 (.close ⟨1, 0⟩ none 0)]

/-- The open call ends, the leaf is renamed, and the call that has ended is ended once more, later. -/
def endedAgain : List TreeEvent :=
  [.edit 6 (.close ⟨3, 0⟩ none 0), .edit 7 (.setSignature ⟨2, 0⟩ "fetch"), .pool .taken,
    .edit 8 (.openChild ⟨0, 0⟩ "next"), .edit 9 (.close ⟨1, 0⟩ (some "loaded") 3)]

/-- A history to which the result applies: one of four calls is ended for a second time. -/
theorem endings_of_endedAgain :
    let s := (SharedTree.begin true [] 0 "job").run endedOnce
    ((SharedTree.begin true [] 0 "job").run (endedOnce ++ endedAgain)).tree.slots.size < 2 ^ 32 ∧
    endings ⟨1, 0⟩ endedAgain = [9] ∧ endings ⟨2, 0⟩ endedAgain = [] ∧
    (∀ h ∈ [⟨0, 0⟩, ⟨1, 0⟩, ⟨2, 0⟩, ⟨3, 0⟩], ∀ v ∈ s.visited endedAgain, (v.tree.get? h).isSome) ∧
    ∀ h ∈ [⟨0, 0⟩, ⟨1, 0⟩, ⟨2, 0⟩, ⟨3, 0⟩], ∀ n, s.tree.get? h = some n →
      ∃ n', (s.run endedAgain).tree.get? h = some n' ∧
        Lasts h n n' (endings h endedAgain) (s.charges endedAgain) := by
  intro s
  have room : ((SharedTree.begin true [] 0 "job").run
      (endedOnce ++ endedAgain)).tree.slots.size < 2 ^ 32 := by
    decide +kernel
  have live : ∀ h ∈ [⟨0, 0⟩, ⟨1, 0⟩, ⟨2, 0⟩, ⟨3, 0⟩], ∀ v ∈ s.visited endedAgain,
      (v.tree.get? h).isSome := by
    decide +kernel
  refine ⟨room, by decide +kernel, by decide +kernel, live, ?_⟩
  intro h mem n hn
  have outlives : ∀ v ∈ s.visited endedAgain, v.tree.Live h := by
    intro v hv
    exact Option.isSome_iff_exists.mp (live h mem v hv)
  exact (endings_of_history true [] 0 "job" endedOnce endedAgain room).1 h n hn outlives

/-- A closed call does not keep its duration: it has ended after four nanoseconds, and it has ended after
eight once it is ended again. Its parent has been charged with both. -/
theorem ended_again_changes_duration :
    let s := (SharedTree.begin true [] 0 "job").run endedOnce
    (s.tree.get? ⟨1, 0⟩).map (fun n => (n.closed, n.gross)) = some (true, 4) ∧
    (s.tree.get? ⟨0, 0⟩).map (·.net) = some (-4) ∧
    ((s.run endedAgain).tree.get? ⟨1, 0⟩).map (fun n => (n.closed, n.gross)) = some (true, 8) ∧
    ((s.run endedAgain).tree.get? ⟨0, 0⟩).map (·.net) = some (-4 - 8) ∧
    (s.charges endedAgain).filter (·.call = ⟨1, 0⟩) = [⟨⟨0, 0⟩, ⟨1, 0⟩, 8⟩] := by
  intro s
  exact ⟨by decide +kernel, by decide +kernel, by decide +kernel, by decide +kernel,
    by decide +kernel⟩

end CallProfiler
