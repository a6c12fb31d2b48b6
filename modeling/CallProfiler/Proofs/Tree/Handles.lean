import CallProfiler.Proofs.Tree.History

/-!
# Proofs.Tree.Handles: a handle reaches its own node or none

A ledger writes a ticket for every handle that a tree issues. The ticket follows the node from the
outside: what the node holds on its own account, whether it has been removed, and how often its slot
has been emptied since. It looks at the edits and at the ancestors of nodes, and never at generations.

* `accounted_edit` — what one edit does to each handle
* `Ledger.Good` — the invariant: the generation of a slot is that of the ticket, moved on by the number
  of times the slot was emptied
* `handles_never_alias` — a ticket whose node has not been removed finds it; any other finds nothing,
  unless its slot was emptied `2 ^ 32` times
-/

namespace CallProfiler

/-! ## Tickets -/

/-- What a node holds on its own account: everything but its children and its net time. -/
structure NodeRecord where
  signature : String
  start : Reading
  gross : UInt64
  parent : Option NodeRef
  ioCall : Bool
  closed : Bool
  deriving DecidableEq, Repr

/-- What the node holds on its own account. -/
def CallNode.record (n : CallNode) : NodeRecord :=
  ⟨n.signature, n.start, n.gross, n.parent, n.ioCall, n.closed⟩

/-- The record of a node after an edit that does not remove it. Only edits that name the node change
it. -/
def NodeRecord.after (r : NodeRecord) (h : NodeRef) (now : Reading) : TreeEdit → NodeRecord
  | .close node signature _ =>
    if node = h then
      { r with
        gross := saturatingSub now r.start, closed := true,
        signature := signature.getD r.signature }
    else r
  | .setSignature node signature => if node = h then { r with signature := signature } else r
  | _ => r

namespace TreeEdit

/-- The handle that an edit goes through. A trim goes through none. -/
def target? : TreeEdit → Option NodeRef
  | .openChild parent _ => some parent
  | .close node _ _ => some node
  | .addIoCall parent _ _ => some parent
  | .setSignature node _ => some node
  | .trim _ => none

/-- The record of the node that an edit creates. -/
def created? (now : Reading) : TreeEdit → Option NodeRecord
  | .openChild parent signature => some ⟨signature, now, 0, some parent, false, false⟩
  | .addIoCall parent description duration =>
    some ⟨description, saturatingSub now duration, duration, some parent, true, true⟩
  | _ => none

end TreeEdit

namespace CallTree

/-- Whether an edit removes a node: it prunes or trims the node or an ancestor of it. -/
def removes (t : CallTree) (now : Reading) (change : TreeEdit) (h : NodeRef) : Bool :=
  match change with
  | .close node _ minimum =>
    (t.get? node).any (fun n => n.parent.isSome && decide (saturatingSub now n.start < minimum)) &&
      decide (node ∈ h :: t.ancestors h)
  | .trim threshold =>
    (h :: t.ancestors h).any fun a =>
      (t.get? a).any fun n => n.parent.isSome && n.closed && decide (n.gross < threshold)
  | _ => false

/-- Whether a slot has been emptied between two trees. -/
def emptied (t t' : CallTree) (i : Nat) : Bool :=
  (t.occupant? i).isSome && (t'.occupant? i).isNone

end CallTree

/-- What is known of a handle from the outside. -/
structure Ticket where
  handle : NodeRef
  record : NodeRecord
  /-- Whether the node has been removed. -/
  removed : Bool := false
  /-- How often the slot has been emptied since the handle was issued. -/
  emptied : Nat := 0

/-- The ticket after an edit that leads from one tree to another. -/
def Ticket.after (k : Ticket) (t t' : CallTree) (now : Reading) (change : TreeEdit) : Ticket where
  handle := k.handle
  record := k.record.after k.handle now change
  removed := k.removed || t.removes now change k.handle
  emptied := if t.emptied t' k.handle.index.toNat then k.emptied + 1 else k.emptied

/-- The ticket for the handle that an edit has issued. -/
def Ticket.issued (now : Reading) (change : TreeEdit) : EditAnswer → List Ticket
  | .issued handle => (change.created? now).toList.map fun record => { handle, record }
  | _ => []

/-- A tree with its pool, and the tickets for all handles that it has issued. -/
structure Ledger where
  shared : SharedTree
  tickets : List Ticket

namespace Ledger

/-- The ledger of a tree whose root starts now. -/
def begin (pooling : Bool) (before : List PoolEvent) (now : Reading) (signature : String) :
    Ledger where
  shared := .begin pooling before now signature
  tickets :=
    [{ handle := (SharedTree.begin pooling before now signature).tree.root
       record := ⟨signature, now, 0, none, false, false⟩ }]

/-- The ledger after an event. -/
def step (l : Ledger) (e : TreeEvent) : Ledger where
  shared := l.shared.step e
  tickets :=
    match e with
    | .edit now change =>
      l.tickets.map (·.after l.shared.tree (l.shared.step e).tree now change) ++
        Ticket.issued now change (l.shared.tree.edit l.shared.pool now change).1
    | .pool _ => l.tickets

/-- The ledger after a history. -/
def run (l : Ledger) (events : List TreeEvent) : Ledger := events.foldl step l

/-- The ledger takes no part in what is done to the tree. -/
theorem run_shared (l : Ledger) (events : List TreeEvent) :
    (l.run events).shared = l.shared.run events := by
  induction events generalizing l with
  | nil => rfl
  | cons e rest ih => exact ih (l.step e)

end Ledger

/-! ## What an edit removes -/

namespace CallTree

variable {t t' : CallTree} {pool : NodePool} {now : Reading} {h p x : NodeRef} {n m : CallNode}

/-- The end of a call removes what is at or below it, if the call is fast and has a parent. -/
theorem removes_close_iff (ok : t.WellFormed) (live : t.Live h) (now : Reading) (x : NodeRef)
    (signature : Option String) (minimum : UInt64) : t.removes now (.close x signature minimum) h = true ↔
      ∃ n p, t.get? x = some n ∧ n.parent = some p ∧ saturatingSub now n.start < minimum ∧
        t.Below x h := by
  unfold removes
  simp only [Bool.and_eq_true, decide_eq_true_eq, Option.any_eq_true, mem_ancestors_iff ok live]
  constructor
  · intro removed
    rcases removed with ⟨⟨n, hn, inner, fast⟩, below⟩
    rcases Option.isSome_iff_exists.mp inner with ⟨p, parent⟩
    exact ⟨n, p, hn, parent, fast, below⟩
  · intro pruned
    rcases pruned with ⟨n, p, hn, parent, fast, below⟩
    exact ⟨⟨n, hn, by rw [parent]; rfl, fast⟩, below⟩

/-- A trim removes the doomed nodes. -/
theorem removes_trim_iff (ok : t.WellFormed) (live : t.Live h) (now : Reading)
    (threshold : UInt64) : t.removes now (.trim threshold) h = true ↔ t.Doomed threshold h := by
  unfold removes Doomed isFast
  simp only [List.any_eq_true, mem_ancestors_iff ok live, Option.any_eq_true, Bool.and_eq_true]
  constructor
  · intro removed
    rcases removed with ⟨a, below, n, hn, ⟨inner, closed⟩, fast⟩
    refine ⟨a, ?_, ⟨n, hn, closed, fast⟩, below⟩
    intro isRoot
    rw [(ok.toLinked.parent_none_iff hn).mpr isRoot] at inner
    exact absurd inner (by simp)
  · intro doomed
    rcases doomed with ⟨a, notRoot, ⟨n, hn, closed, fast⟩, below⟩
    refine ⟨a, below, n, hn, ⟨?_, closed⟩, fast⟩
    rcases ok.parent_live hn notRoot with ⟨p, pn, parent, _, _⟩
    rw [parent]
    rfl

/-! ## What an edit does to each handle -/

/-- An account of an edit by handles: an old node is gone if the edit removes it and has the record
that is to be expected otherwise; a node is new only under the handle that is issued, which was free. -/
structure Accounted (t t' : CallTree) (now : Reading) (change : TreeEdit) (answer : EditAnswer) :
    Prop where
  gone : ∀ {h n}, t.get? h = some n → t.removes now change h = true → t'.get? h = none
  kept : ∀ {h n}, t.get? h = some n → t.removes now change h = false →
    ∃ n', t'.get? h = some n' ∧ n'.record = n.record.after h now change
  issued : ∀ {c}, answer = .issued c → t.get? c = none ∧
    ∃ n', t'.get? c = some n' ∧ change.created? now = some n'.record
  back : ∀ {x}, t'.Live x → t.Live x ∨ answer = .issued x

/-- An edit that is refused changes nothing, and what it was to change is not there. -/
theorem accounted_refused {change : TreeEdit} (stale : t.get? x = none)
    (target : change.target? = some x) (e : RecordError) :
    Accounted t t now change (.refused e) where
  gone := by
    intro h n _ removed
    cases change with
    | close node signature minimum =>
      have same : node = x := Option.some.inj target
      simp only [removes, same, stale] at removed
      exact absurd removed (by simp)
    | trim threshold => exact absurd target (by simp [TreeEdit.target?])
    | openChild parent signature => exact absurd removed (by simp [removes])
    | addIoCall parent description duration => exact absurd removed (by simp [removes])
    | setSignature node signature => exact absurd removed (by simp [removes])
  kept := by
    intro h n hn _
    have other : x ≠ h := by
      intro same
      rw [← same, stale] at hn
      exact absurd hn (by simp)
    refine ⟨n, hn, ?_⟩
    cases change with
    | close node signature minimum =>
      have same : node = x := Option.some.inj target
      exact (if_neg (same ▸ other)).symm
    | setSignature node signature =>
      have same : node = x := Option.some.inj target
      exact (if_neg (same ▸ other)).symm
    | trim threshold => rfl
    | openChild parent signature => rfl
    | addIoCall parent description duration => rfl
  issued := by
    intro c answer
    exact absurd answer (by simp)
  back := fun live => Or.inl live

/-- A node that is rewritten without its record, at whatever handle. -/
theorem record_update (x : NodeRef) (f : CallNode → CallNode) (same : ∀ m, (f m).record = m.record)
    (live : t.get? h = some n) : ∃ n', (t.update x f).get? h = some n' ∧ n'.record = n.record := by
  rw [get?_update]
  by_cases here : h = x
  · rw [if_pos here, ← here, live]
    exact ⟨f n, rfl, same n⟩
  · rw [if_neg here]
    exact ⟨n, live, rfl⟩

/-- A new call is accounted for by its graft. -/
theorem Grafted.accounted {pn pn' cn : CallNode} {c : NodeRef} {change : TreeEdit}
    (g : Grafted t p c pn' cn t') (live : t.get? p = some pn) (sameRecord : pn'.record = pn.record)
    (created : change.created? now = some cn.record) : Accounted t t' now change (.issued c) := by
  have unchanged : ∀ (r : NodeRecord) (h : NodeRef), r.after h now change = r := by
    intro r h
    cases change <;> first | rfl | exact absurd created (by simp [TreeEdit.created?])
  have keeps : ∀ h, t.removes now change h = false := by
    intro h
    cases change <;> first | rfl | exact absurd created (by simp [TreeEdit.created?])
  refine ⟨?_, ?_, ?_, ?_⟩
  · intro h n _ removed
    rw [keeps] at removed
    exact absurd removed (by simp)
  · intro h n hn _
    have old : h ≠ c := by
      intro same
      rw [same, g.fresh] at hn
      exact absurd hn (by simp)
    rw [unchanged, g.get?, if_neg old]
    by_cases here : h = p
    · rw [here, live] at hn
      have same := Option.some.inj hn
      rw [if_pos here, ← same]
      exact ⟨pn', rfl, sameRecord⟩
    · rw [if_neg here]
      exact ⟨n, hn, rfl⟩
  · intro d answer
    have same : c = d := by simpa using answer
    rw [← same, g.get?, if_pos rfl]
    exact ⟨g.fresh, cn, rfl, created⟩
  · intro x live'
    rcases live' with ⟨n', hx⟩
    rw [g.get?] at hx
    by_cases new : x = c
    · exact Or.inr (by rw [new])
    · rw [if_neg new] at hx
      by_cases here : x = p
      · exact Or.inl ⟨pn, here ▸ live⟩
      · rw [if_neg here] at hx
        exact Or.inl ⟨n', hx⟩

/-- The end of a call, in place, is accounted for as long as nothing is removed. -/
theorem record_closed (live : t.get? x = some m) (now : Reading) (signature : Option String)
    (minimum : UInt64) (hn : t.get? h = some n) :
    ∃ n', (t.update x fun _ => m.closedAt now signature).get? h = some n' ∧
      n'.record = n.record.after h now (.close x signature minimum) := by
  rw [get?_update]
  by_cases here : h = x
  · rw [here, live] at hn
    have same := Option.some.inj hn
    rw [if_pos here, live, here, ← same]
    exact ⟨_, rfl, (if_pos rfl).symm⟩
  · have other : x ≠ h := fun same => here same.symm
    rw [if_neg here]
    exact ⟨n, hn, (if_neg other).symm⟩

/-- A pruned call: what lies below it is gone, and all other nodes keep their records. -/
theorem accounted_pruned (ok : t.WellFormed) (live : t.get? x = some m) (parent : m.parent = some p)
    (pool : NodePool) {minimum : UInt64} (fast : saturatingSub now m.start < minimum)
    (signature : Option String) :
    Accounted t (((t.update x fun _ => m.closedAt now signature).detach p x).remove pool [x]).1 now
      (.close x signature minimum) (.closed .pruned) := by
  have linked := linked_closed ok.toLinked live now signature
  have get := get?_remove_detach linked pool p x
  have below : ∀ y, (t.update x fun _ => m.closedAt now signature).Below x y ↔ t.Below x y := by
    intro y
    apply below_update
    intro n hn
    have same := Option.mem_unique live hn
    rw [← same]
    rfl
  refine ⟨?_, ?_, fun answer => absurd answer (by simp), ?_⟩
  · intro h n hn removed
    rcases (removes_close_iff ok ⟨n, hn⟩ now x signature minimum).mp removed with
      ⟨_, _, _, _, _, above⟩
    refine Option.eq_none_iff_forall_not_mem.mpr ?_
    intro n' hn'
    exact ((get h n').mp hn').1 ((below h).mpr above)
  · intro h n hn kept
    have apart : ¬ t.Below x h := by
      intro above
      have removed := (removes_close_iff ok ⟨n, hn⟩ now x signature minimum).mpr
        ⟨m, p, live, parent, fast, above⟩
      rw [kept] at removed
      exact absurd removed (by simp)
    rcases record_closed live now signature minimum hn with ⟨n', hn', record⟩
    refine ⟨_, (get h _).mpr ⟨fun above => apart ((below h).mp above), n', hn', rfl⟩, ?_⟩
    rw [← record]
    split <;> rfl
  · intro y live'
    rcases live' with ⟨n', hy⟩
    rcases (get y n').mp hy with ⟨_, n, hn, _⟩
    exact Or.inl (live_update.mp ⟨n, hn⟩)

/-- The end of a call removes it if it is fast and has a parent, and changes its record otherwise. -/
theorem accounted_close (ok : t.WellFormed) (live : t.get? x = some m) (pool : NodePool)
    (signature : Option String) (minimum : UInt64) :
    Accounted t (t.close pool now x signature minimum).2.1 now (.close x signature minimum)
      (.ofExcept .closed (t.close pool now x signature minimum).1) := by
  have closed := fun {h n} (hn : t.get? h = some n) =>
    record_closed live now signature minimum hn
  cases parent : m.parent with
  | none =>
    rw [close_root live parent]
    refine ⟨?_, fun hn _ => closed hn, fun answer => absurd answer (by simp [EditAnswer.ofExcept]),
      fun live' => Or.inl (live_update.mp live')⟩
    intro h n hn removed
    rcases (removes_close_iff ok ⟨n, hn⟩ now x signature minimum).mp removed with
      ⟨n', p, hn', inner, _, _⟩
    rw [← Option.mem_unique live hn', parent] at inner
    exact absurd inner (by simp)
  | some p =>
    by_cases fast : saturatingSub now m.start < minimum
    · rw [close_pruned live parent fast]
      exact accounted_pruned ok live parent pool fast signature
    · rw [close_kept ok.toLinked live parent fast]
      refine ⟨?_, ?_, fun answer => absurd answer (by simp [EditAnswer.ofExcept]),
        fun live' => Or.inl (live_update.mp (live_update.mp live'))⟩
      · intro h n hn removed
        rcases (removes_close_iff ok ⟨n, hn⟩ now x signature minimum).mp removed with
          ⟨n', q, hn', _, fast', _⟩
        rw [← Option.mem_unique live hn'] at fast'
        exact absurd fast' fast
      · -- the parent is charged, which its record does not show
        intro h n hn _
        rcases closed hn with ⟨n', hn', record⟩
        rcases record_update p (·.charge (saturatingSub now m.start)) (fun _ => rfl) hn' with
          ⟨n'', hn'', same⟩
        exact ⟨n'', hn'', same.trans record⟩

/-- A trim removes the doomed nodes and leaves the records of all others alone. -/
theorem accounted_trim (ok : t.WellFormed) (pool : NodePool) (threshold : UInt64) :
    Accounted t (t.removeCallsFasterThan pool threshold).1 now (.trim threshold) .done := by
  rcases removeCallsFasterThan_spec ok.toSlotted ok.toLinked pool threshold with ⟨_, _, _, get⟩
  refine ⟨?_, ?_, fun answer => absurd answer (by simp), ?_⟩
  · intro h n hn removed
    have doomed := (removes_trim_iff ok ⟨n, hn⟩ now threshold).mp removed
    refine Option.eq_none_iff_forall_not_mem.mpr ?_
    intro n' hn'
    exact ((get h n').mp hn').1 doomed
  · intro h n hn kept
    refine ⟨_, (get h _).mpr ⟨?_, n, hn, rfl⟩, rfl⟩
    intro doomed
    have removed := (removes_trim_iff ok ⟨n, hn⟩ now threshold).mpr doomed
    rw [kept] at removed
    exact absurd removed (by simp)
  · intro x live
    rcases live with ⟨n', hx⟩
    rcases (get x n').mp hx with ⟨_, n, hn, _⟩
    exact Or.inl ⟨n, hn⟩

/-- Every edit is accounted for. -/
theorem accounted_edit (ok : t.WellFormed) (room : t.slots.size < 2 ^ 32) (blank : pool.AllBlank)
    (now : Reading) (change : TreeEdit) :
    Accounted t (t.edit pool now change).2.1 now change (t.edit pool now change).1 := by
  cases change with
  | openChild parent signature =>
    simp only [edit]
    cases live : t.get? parent with
    | none =>
      rw [openChild_stale live]
      exact accounted_refused live rfl _
    | some pn =>
      rcases openChild_live ok room blank live now signature with ⟨c, t', eq, grafted⟩
      rw [eq]
      exact grafted.accounted live rfl rfl
  | close node signature minimum =>
    cases live : t.get? node with
    | none =>
      simp only [edit]
      rw [close_stale live]
      exact accounted_refused live rfl _
    | some m => exact accounted_close ok live pool signature minimum
  | addIoCall parent description duration =>
    simp only [edit]
    cases live : t.get? parent with
    | none =>
      rw [addIoCall_stale live]
      exact accounted_refused live rfl _
    | some pn =>
      rcases addIoCall_live ok room blank live now description duration with ⟨c, t', eq, grafted⟩
      rw [eq]
      exact grafted.accounted live rfl rfl
  | setSignature node signature =>
    simp only [edit]
    cases live : t.get? node with
    | none =>
      rw [setSignature_stale live]
      exact accounted_refused live rfl _
    | some m =>
      rw [setSignature_live live]
      refine ⟨fun _ removed => absurd removed (by simp [removes]), ?_,
        fun answer => absurd answer (by simp [EditAnswer.ofExcept]),
        fun live' => Or.inl (live_update.mp live')⟩
      intro h n hn _
      rw [get?_update]
      by_cases here : h = node
      · rw [if_pos here, ← here, hn]
        exact ⟨_, rfl, (if_pos rfl).symm⟩
      · have other : node ≠ h := fun same => here same.symm
        rw [if_neg here]
        exact ⟨n, hn, (if_neg other).symm⟩
  | trim threshold => exact accounted_trim ok pool threshold

/-- An edit through a handle whose node is gone is refused, and changes nothing. -/
theorem edit_stale (gone : t.get? x = none) {change : TreeEdit} (target : change.target? = some x)
    (pool : NodePool) (now : Reading) :
    t.edit pool now change = (.refused (.staleNode x), t, pool) := by
  cases change with
  | openChild parent signature =>
    have same : parent = x := Option.some.inj target
    simp only [edit, same, openChild_stale gone, EditAnswer.ofExcept]
  | close node signature minimum =>
    have same : node = x := Option.some.inj target
    simp only [edit, same, close_stale gone, EditAnswer.ofExcept]
  | addIoCall parent description duration =>
    have same : parent = x := Option.some.inj target
    simp only [edit, same, addIoCall_stale gone, EditAnswer.ofExcept]
  | setSignature node signature =>
    have same : node = x := Option.some.inj target
    simp only [edit, same, setSignature_stale gone, EditAnswer.ofExcept]
  | trim threshold => exact absurd target (by simp [TreeEdit.target?])

/-! ## Generations count how often a slot was emptied -/

/-- The generation of a slot grows by one just when its node is removed. -/
theorem Evolved.generation (evolved : Evolved t t') {i : Nat} {s : Slot}
    (hs : t.slots[i]? = some s) : ∃ s', t'.slots[i]? = some s' ∧
      s'.generation = s.generation + if t.emptied t' i then 1 else 0 := by
  rcases evolved.slot hs with ⟨s', hs', ⟨same, full⟩ | ⟨full, freed⟩⟩
  · have stays : t.emptied t' i = false := by
      rcases s with ⟨g, c⟩
      rcases s' with ⟨g', c'⟩
      cases c with
      | none => simp [emptied, occupant?, hs]
      | some n =>
        cases c' with
        | none => exact absurd (full rfl) (by simp)
        | some n' => simp [emptied, occupant?, hs']
    refine ⟨s', hs', ?_⟩
    rw [stays, same]
    simp
  · have left : t.emptied t' i = true := by
      rcases s with ⟨g, c⟩
      cases c with
      | none => exact absurd full (by simp)
      | some n => simp [emptied, occupant?, hs, hs', freed]
    refine ⟨s', hs', ?_⟩
    rw [left, freed]
    rfl

/-- A node that is gone has left its slot empty. -/
theorem Evolved.emptied_of_gone (evolved : Evolved t t') (live : t.get? h = some n)
    (gone : t'.get? h = none) : t.emptied t' h.index.toNat = true := by
  have inSlot := get?_eq_some_iff.mp live
  rcases evolved.slot inSlot with ⟨s', hs', ⟨same, full⟩ | ⟨_, freed⟩⟩
  · rcases s' with ⟨g', c'⟩
    cases c' with
    | none => exact absurd (full rfl) (by simp)
    | some n' =>
      have still : t'.get? h = some n' := by
        rw [get?_eq_some_iff, hs']
        exact congrArg (fun g => some (Slot.mk g (some n'))) same
      rw [gone] at still
      exact absurd still (by simp)
  · simp [emptied, occupant?, inSlot, hs', freed]

end CallTree

/-! ## The ledger -/

/-- The slot of a ticket has left one generation behind each time that it was emptied, and it has been
emptied if the node was removed. -/
def Ticket.Counted (k : Ticket) (t : CallTree) : Prop :=
  ∃ s, t.slots[k.handle.index.toNat]? = some s ∧
    s.generation = k.handle.generation + UInt32.ofNat k.emptied ∧ (k.removed → 0 < k.emptied)

/-- A ticket keeps count of how often its slot is emptied after its node is gone. -/
theorem Ticket.Counted.after {k : Ticket} {t t' : CallTree} {now : Reading} {change : TreeEdit}
    (counted : k.Counted t) (evolved : CallTree.Evolved t t')
    (leaves : k.removed = false → t.removes now change k.handle →
      t.emptied t' k.handle.index.toNat) : (k.after t t' now change).Counted t' := by
  rcases counted with ⟨s, hs, generation, positive⟩
  rcases evolved.generation hs with ⟨s', hs', generation'⟩
  have count : (k.after t t' now change).emptied =
      if t.emptied t' k.handle.index.toNat then k.emptied + 1 else k.emptied := rfl
  refine ⟨s', hs', ?_, ?_⟩
  · show s'.generation = k.handle.generation + _
    rw [generation', generation, count]
    by_cases left : t.emptied t' k.handle.index.toNat = true
    · rw [if_pos left, if_pos left, UInt32.ofNat_add, UInt32.add_assoc]
      rfl
    · rw [if_neg left, if_neg left, UInt32.add_zero]
  · -- a ticket is marked as removed in the step in which its slot is emptied
    intro removed
    rw [count]
    rcases Bool.or_eq_true_iff.mp removed with before | now
    · have old := positive before
      split <;> omega
    · cases before : k.removed with
      | true =>
        have old := positive before
        split <;> omega
      | false =>
        rw [if_pos (leaves before now)]
        omega

/-- A removed node is not found any more, unless its slot was emptied `2 ^ 32` times. -/
theorem Ticket.Counted.gone {k : Ticket} {t : CallTree} (counted : k.Counted t)
    (removed : k.removed = true) (few : k.emptied < 2 ^ 32) : t.get? k.handle = none := by
  rcases counted with ⟨s, hs, generation, positive⟩
  refine Option.eq_none_iff_forall_not_mem.mpr ?_
  intro n hn
  have inSlot := CallTree.get?_eq_some_iff.mp hn
  rw [hs] at inSlot
  have same : s.generation = k.handle.generation := by rw [Option.some.inj inSlot]
  rw [same] at generation
  -- the generation has come round to that of the handle
  have zero : UInt32.ofNat k.emptied = 0 := UInt32.left_eq_add.mp generation
  have count : k.emptied % 2 ^ 32 = 0 := congrArg UInt32.toNat zero
  have emptied := positive removed
  omega

/-- Tickets whose nodes have not been removed by an edit are among those from before it. -/
theorem survivors_sublist (t t' : CallTree) (now : Reading) (change : TreeEdit)
    (tickets : List Ticket) :
    (((tickets.map (·.after t t' now change)).filter (!·.removed)).map (·.handle)).Sublist
      ((tickets.filter (!·.removed)).map (·.handle)) := by
  induction tickets with
  | nil => exact List.Sublist.refl _
  | cons k rest ih =>
    cases before : k.removed with
    | true => simpa [Ticket.after, before] using ih
    | false =>
      cases removes : t.removes now change k.handle with
      | true => simpa [Ticket.after, before, removes] using ih.cons k.handle
      | false => simpa [Ticket.after, before, removes] using ih.cons_cons k.handle

/-- A ticket is issued for an answer that names a new handle, with what the change puts into the node.
-/
theorem mem_issued {now : Reading} {change : TreeEdit} {answer : EditAnswer} {k : Ticket} :
    k ∈ Ticket.issued now change answer ↔ ∃ h record, answer = .issued h ∧
      change.created? now = some record ∧ k = { handle := h, record } := by
  cases answer <;> simp [Ticket.issued, eq_comm]

/-- An edit issues at most one handle. -/
theorem nodup_issued (now : Reading) (change : TreeEdit) (answer : EditAnswer) :
    ((Ticket.issued now change answer).map (·.handle)).Nodup := by
  cases answer <;> cases created : change.created? now <;> simp [Ticket.issued, created]

namespace Ledger

/-- The invariant of a ledger. -/
structure Good (l : Ledger) : Prop where
  shared : l.shared.Good
  present : ∀ k ∈ l.tickets, k.removed = false →
    ∃ n, l.shared.tree.get? k.handle = some n ∧ n.record = k.record
  counted : ∀ k ∈ l.tickets, k.Counted l.shared.tree
  distinct : ((l.tickets.filter (!·.removed)).map (·.handle)).Nodup
  complete : ∀ h, l.shared.tree.Live h → ∃ k ∈ l.tickets, k.handle = h ∧ k.removed = false

/-- At first there is one ticket, for the root. -/
theorem good_begin (pooling : Bool) (before : List PoolEvent) (now : Reading)
    (signature : String) : (begin pooling before now signature).Good := by
  have tree := SharedTree.begin_tree pooling before now signature
  refine ⟨SharedTree.good_begin pooling before now signature, ?_, ?_, ?_, ?_⟩
  · intro k hk _
    have first := List.mem_singleton.mp hk
    rw [first]
    simp only [begin, tree]
    exact ⟨_, rfl, by simp [CallNode.record, CallNode.begun, CallNode.blank]⟩
  · intro k hk
    have first := List.mem_singleton.mp hk
    rw [first]
    simp only [begin, tree]
    exact ⟨_, rfl, rfl, fun removed => absurd removed (by simp)⟩
  · exact List.nodup_singleton _
  · intro h live
    rcases live with ⟨n, hn⟩
    simp only [begin, tree] at hn ⊢
    rw [CallTree.get?_singleton] at hn
    by_cases root : h = ⟨0, 0⟩
    · exact ⟨_, List.mem_singleton_self _, root.symm, rfl⟩
    · rw [if_neg root] at hn
      exact absurd hn (by simp)

/-- After an edit a ticket is an old one that has been brought up to date, or has just been issued. -/
theorem mem_step_tickets {l : Ledger} {now : Reading} {change : TreeEdit} {k : Ticket}
    (hk : k ∈ (l.step (.edit now change)).tickets) :
    (∃ k₀ ∈ l.tickets, k = k₀.after l.shared.tree (l.step (.edit now change)).shared.tree now
      change) ∨
    ∃ h record, (l.shared.tree.edit l.shared.pool now change).1 = .issued h ∧
      change.created? now = some record ∧ k = { handle := h, record } := by
  rcases List.mem_append.mp hk with old | new
  · rcases List.mem_map.mp old with ⟨k₀, hk₀, same⟩
    exact Or.inl ⟨k₀, hk₀, same.symm⟩
  · exact Or.inr (mem_issued.mp new)

variable {l : Ledger} {now : Reading} {change : TreeEdit}

/-- The handle that is issued was free, and those of the tickets that are not removed were not. -/
theorem Good.distinct_edit (good : l.Good)
    (accounted : CallTree.Accounted l.shared.tree (l.step (.edit now change)).shared.tree now change
      (l.shared.tree.edit l.shared.pool now change).1) :
    (((l.step (.edit now change)).tickets.filter (!·.removed)).map (·.handle)).Nodup := by
  show (((l.tickets.map _ ++ Ticket.issued now change _).filter _).map _).Nodup
  rw [List.filter_append, List.map_append]
  refine List.Nodup.append (good.distinct.sublist (survivors_sublist _ _ _ _ _)) ?_ ?_
  · exact (nodup_issued now change _).sublist (List.filter_sublist.map _)
  · intro h old new
    have old := (survivors_sublist _ _ _ _ _).subset old
    rcases List.mem_map.mp old with ⟨k, hk, handle⟩
    rcases List.mem_filter.mp hk with ⟨hk, before⟩
    rcases good.present k hk (by simpa using before) with ⟨n, hn, _⟩
    rcases List.mem_map.mp new with ⟨k', hk', handle'⟩
    rcases mem_issued.mp (List.mem_filter.mp hk').1 with ⟨c, record, answer, _, same⟩
    have fresh := (accounted.issued answer).1
    have reused : c = k.handle := by
      rw [handle, ← handle', same]
    rw [reused, hn] at fresh
    exact absurd fresh (by simp)

/-- A node of the new tree was there before, or has just been created. -/
theorem Good.complete_edit (good : l.Good)
    (accounted : CallTree.Accounted l.shared.tree (l.step (.edit now change)).shared.tree now change
      (l.shared.tree.edit l.shared.pool now change).1) (h : NodeRef)
    (live : (l.step (.edit now change)).shared.tree.Live h) :
    ∃ k ∈ (l.step (.edit now change)).tickets, k.handle = h ∧ k.removed = false := by
  rcases accounted.back live with old | answer
  · rcases good.complete h old with ⟨k, hk, handle, before⟩
    refine ⟨_, List.mem_append_left _ (List.mem_map_of_mem hk), handle, ?_⟩
    refine Bool.or_eq_false_iff.mpr ⟨before, ?_⟩
    rw [handle]
    cases removes : l.shared.tree.removes now change h with
    | false => rfl
    | true =>
      rcases old with ⟨n, hn⟩
      rcases live with ⟨n', hn'⟩
      have gone := accounted.gone hn removes
      exact absurd (hn'.symm.trans gone) (by simp)
  · rcases accounted.issued answer with ⟨_, n', _, created⟩
    refine ⟨{ handle := h, record := n'.record }, List.mem_append_right _ ?_, rfl, rfl⟩
    exact mem_issued.mpr ⟨h, n'.record, answer, created, rfl⟩

/-- An edit keeps the books in order: old tickets still hold, and a new one is for the new node. -/
theorem Good.edit (good : l.Good) (room : l.shared.tree.slots.size < 2 ^ 32)
    (now : Reading) (change : TreeEdit) : (l.step (.edit now change)).Good := by
  rcases good.shared.step room (.edit now change) with ⟨shared, evolved⟩
  have accounted := CallTree.accounted_edit good.shared.tree room good.shared.pool now change
  refine ⟨shared, ?_, ?_, good.distinct_edit accounted, good.complete_edit accounted⟩
  · intro k hk present
    rcases mem_step_tickets hk with ⟨k₀, hk₀, same⟩ | ⟨h, record, answer, created, same⟩
    · rw [same] at present ⊢
      rcases Bool.or_eq_false_iff.mp present with ⟨before, kept⟩
      rcases good.present k₀ hk₀ before with ⟨n, hn, sameRecord⟩
      rcases accounted.kept hn kept with ⟨n', hn', after⟩
      rw [sameRecord] at after
      exact ⟨n', hn', after⟩
    · rcases accounted.issued answer with ⟨_, n', hn', created'⟩
      rw [same]
      exact ⟨n', hn', Option.mem_unique created' created⟩
  · intro k hk
    rcases mem_step_tickets hk with ⟨k₀, hk₀, same⟩ | ⟨h, record, answer, _, same⟩
    · rw [same]
      apply (good.counted k₀ hk₀).after evolved
      intro before removes
      rcases good.present k₀ hk₀ before with ⟨n, hn, _⟩
      exact evolved.emptied_of_gone hn (accounted.gone hn removes)
    · rcases accounted.issued answer with ⟨_, n', hn', _⟩
      rw [same]
      exact ⟨_, CallTree.get?_eq_some_iff.mp hn', (UInt32.add_zero _).symm,
        fun removed => absurd removed (by simp)⟩

/-- So does any event. -/
theorem Good.step (good : l.Good) (room : l.shared.tree.slots.size < 2 ^ 32)
    (e : TreeEvent) : (l.step e).Good := by
  cases e with
  | edit now change => exact good.edit room now change
  | pool e =>
    rcases good.shared.step room (.pool e) with ⟨shared, _⟩
    exact ⟨shared, good.present, good.counted, good.distinct, good.complete⟩

/-- So does a history, as long as its slots can be numbered at the end. -/
theorem Good.run (good : l.Good) {events : List TreeEvent}
    (room : (l.run events).shared.tree.slots.size < 2 ^ 32) : (l.run events).Good := by
  induction events generalizing l with
  | nil => exact good
  | cons e rest ih =>
    have later := room
    rw [run_shared] at later
    have now := Nat.lt_of_le_of_lt (l.shared.size_run_le (e :: rest)) later
    exact ih (good.step now e) room

/-- What holds of a ledger at every time. -/
structure Faithful (l : Ledger) : Prop where
  /-- A handle whose node has not been removed finds it, as its own edits have left it. -/
  found : ∀ k ∈ l.tickets, k.removed = false →
    ∃ n, l.shared.tree.get? k.handle = some n ∧ n.record = k.record
  /-- A handle whose node has been removed finds nothing, and every edit through it is refused. -/
  stale : ∀ k ∈ l.tickets, k.removed = true → k.emptied < 2 ^ 32 →
    l.shared.tree.get? k.handle = none ∧
    ∀ (pool : NodePool) (now : Reading) (change : TreeEdit), change.target? = some k.handle →
      l.shared.tree.edit pool now change =
        (.refused (.staleNode k.handle), l.shared.tree, pool)
  /-- No two nodes of the tree share a handle. -/
  distinct : ((l.tickets.filter (!·.removed)).map (·.handle)).Nodup
  /-- Every node of the tree has a ticket. -/
  complete : ∀ h, l.shared.tree.Live h → ∃ k ∈ l.tickets, k.handle = h ∧ k.removed = false

end Ledger

/-- A handle reaches the node for which it was issued or none, after any changes to the tree and any use
of its pool. Assumed: the slots can be numbered in 32 bits, and the slot of a handle whose node is gone
has been emptied fewer than `2 ^ 32` times since. -/
theorem handles_never_alias (pooling : Bool) (before : List PoolEvent) (now : Reading)
    (signature : String) (events : List TreeEvent)
    (room : ((Ledger.begin pooling before now signature).run events).shared.tree.slots.size <
      2 ^ 32) : ((Ledger.begin pooling before now signature).run events).Faithful := by
  have good := (Ledger.good_begin pooling before now signature).run room
  refine ⟨good.present, ?_, good.distinct, good.complete⟩
  intro k hk removed few
  have gone := (good.counted k hk).gone removed few
  exact ⟨gone, fun pool now change target => CallTree.edit_stale gone target pool now⟩

/-- After a call was pruned with the leaf below it, its slot holds another call under a new handle. -/
theorem handles_after_pruning :
    ((Ledger.begin true [] 0 "job").run prunedHistory).shared.tree.slots.size < 2 ^ 32 ∧
    ((Ledger.begin true [] 0 "job").run prunedHistory).Faithful := by
  have room :
      ((Ledger.begin true [] 0 "job").run prunedHistory).shared.tree.slots.size < 2 ^ 32 := by
    decide +kernel
  exact ⟨room, handles_never_alias true [] 0 "job" prunedHistory room⟩

end CallProfiler
