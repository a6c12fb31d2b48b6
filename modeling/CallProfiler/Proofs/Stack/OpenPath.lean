import CallProfiler.Proofs.Tree.Accounting
import CallProfiler.Proofs.Tree.Paths

/-!
# Proofs.Stack.OpenPath: the open calls of a recording

`CallTree.OpenPath` is what every recording keeps, whatever the clock does: the nodes that are open
are the innermost one and its ancestors. A new call and the end of a call move the innermost one by
one step (`OpenPath.grafted`, `OpenPath.ended`), and the end of the root leaves a tree with no open
node (`OpenPath.closeRoot`). `OpenPath.close` puts all ends together.
-/

namespace CallProfiler

namespace CallTree

variable {t t' : CallTree} {a x p c h y : NodeRef} {n pn : CallNode} {l : List NodeRef}
  {pool : NodePool}

/-- The open nodes are a node and its ancestors. -/
structure OpenPath (t : CallTree) (x : NodeRef) : Prop where
  wellFormed : t.WellFormed
  live : t.Live x
  open_iff : ∀ {h : NodeRef} {n : CallNode}, t.get? h = some n → (n.closed = false ↔ t.Below h x)

/-- A tree that is finished: no node is open. -/
structure Complete (t : CallTree) : Prop where
  wellFormed : t.WellFormed
  closed : ∀ h n, t.get? h = some n → n.closed = true

/-! ## What the moves of a stack do to the open nodes -/

/-- A recording begins with its root open. -/
theorem openPath_begin (blank : pool.AllBlank) (now : Reading) (signature : String) :
    (CallTree.begin pool now signature).1.OpenPath (CallTree.begin pool now signature).1.root := by
  have ok := wellFormed_begin blank now signature
  refine ⟨ok, ok.live_root, ?_⟩
  rw [(begin_spec blank now signature).1]
  intro h n hn
  rw [get?_singleton] at hn
  split at hn
  · rename_i isRoot
    cases Option.some.inj hn
    refine iff_of_true rfl ?_
    rw [isRoot]
    exact .self (get?_singleton _ _ |>.trans (if_pos rfl))
  · exact absurd hn (by simp)

/-- A new leaf changes nothing above the node that it is put below. -/
theorem Grafted.above {pn' cn : CallNode} (graft : Grafted t x c pn' cn t') (ok : t.WellFormed)
    (ok' : t'.WellFormed) (hx : t.get? x = some n) (sameParent : pn'.parent = n.parent) :
    (∀ h, t'.Below h x ↔ t.Below h x) ∧ t'.ancestors x = t.ancestors x := by
  refine above_congr ok ok' ⟨n, hx⟩ ?_
  intro y m _ hy
  have old : y ≠ c := by
    rintro rfl
    rw [graft.fresh] at hy
    exact absurd hy (by simp)
  rw [graft.get?, if_neg old]
  split
  · rename_i same
    subst same
    rw [hx] at hy
    cases Option.some.inj hy
    exact ⟨pn', rfl, sameParent⟩
  · exact ⟨m, hy, rfl⟩

namespace OpenPath

/-- A change in place that touches neither links nor what is open. -/
theorem update (op : t.OpenPath x) (h : NodeRef) {f : CallNode → CallNode}
    (keeps : ∀ n, t.get? h = some n →
      (f n).parent = n.parent ∧ (f n).children = n.children ∧ (f n).closed = n.closed) :
    (t.update h f).OpenPath x where
  wellFormed := op.wellFormed.update fun n hn => ⟨(keeps n hn).1, (keeps n hn).2.1⟩
  live := live_update.mpr op.live
  open_iff := by
    intro y n' hy
    rw [below_update fun n hn => (keeps n hn).2.1]
    rw [get?_update] at hy
    split at hy
    · rename_i same
      rcases Option.map_eq_some_iff.mp hy with ⟨n, hn, rfl⟩
      rw [(keeps n hn).2.2, op.open_iff hn, same]
    · exact op.open_iff hy

/-- A new leaf below the innermost open node: either it is open and innermost from now on, or it is
closed. -/
theorem grafted {pn' cn : CallNode} (op : t.OpenPath x) (hx : t.get? x = some n)
    (graft : Grafted t x c pn' cn t') (ok' : t'.WellFormed) (leaf : cn.parent = some x)
    (sameParent : pn'.parent = n.parent) (sameClosed : pn'.closed = n.closed) :
    (cn.closed = false → t'.OpenPath c) ∧ (cn.closed = true → t'.OpenPath x) := by
  have ok := op.wellFormed
  have other : x ≠ c := by
    intro same
    have fresh := graft.fresh
    rw [← same, hx] at fresh
    exact absurd fresh (by simp)
  have child : t'.get? c = some cn := (graft.get? c).trans (if_pos rfl)
  have above := (graft.above ok ok' hx sameParent).1
  -- an old node is open in the new tree just if it was open in the old one
  have old {h : NodeRef} {m : CallNode} (hm : t'.get? h = some m) (apart : h ≠ c) :
      m.closed = false ↔ t.Below h x := by
    rw [graft.get?, if_neg apart] at hm
    split at hm
    · rename_i same
      rw [← Option.some.inj hm, sameClosed, same]
      exact op.open_iff hx
    · exact op.open_iff hm
  have fresh : ¬ t.Below c x := by
    intro below
    rcases below.live_left with ⟨m, hm⟩
    rw [graft.fresh] at hm
    exact absurd hm (by simp)
  constructor
  · intro isOpen
    refine ⟨ok', ⟨cn, child⟩, ?_⟩
    intro h m hm
    rw [ok'.toLinked.below_iff child]
    by_cases apart : h = c
    · subst apart
      rw [child] at hm
      rw [← Option.some.inj hm]
      exact iff_of_true isOpen (Or.inl rfl)
    · rw [old hm apart, leaf]
      simp [apart, above]
  · intro isClosed
    refine ⟨ok', ⟨pn', by rw [graft.get?, if_neg other, if_pos rfl]⟩, ?_⟩
    intro h m hm
    rw [above]
    by_cases apart : h = c
    · subst apart
      rw [child] at hm
      rw [← Option.some.inj hm, isClosed]
      exact iff_of_false (by simp) fresh
    · exact old hm apart

/-- The innermost open node has ended, and may be gone: its parent is the innermost one now, while
the nodes above keep their parents and the others stay as open as they were. -/
theorem ended (op : t.OpenPath x) (hx : t.get? x = some n) (hp : n.parent = some p)
    (ok' : t'.WellFormed)
    (back : ∀ h m', t'.get? h = some m' →
      ∃ m, t.get? h = some m ∧ m'.closed = if h = x then true else m.closed)
    (forth : ∀ y m, t.Below y p → t.get? y = some m →
      ∃ m', t'.get? y = some m' ∧ m'.parent = m.parent) :
    t'.OpenPath p ∧ t.ancestors x = p :: t'.ancestors p := by
  have ok := op.wellFormed
  have live : t.Live p := (ok.toLinked.below_of_parent hx hp).live_left
  rcases above_congr ok ok' live forth with ⟨above, same⟩
  refine ⟨⟨ok', ?_, ?_⟩, by rw [same, ancestors_cons ok hx hp]⟩
  · rcases live with ⟨pn, hpn⟩
    rcases forth p pn (.self hpn) hpn with ⟨pn', hpn', _⟩
    exact ⟨pn', hpn'⟩
  · intro h m' hm'
    rcases back h m' hm' with ⟨m, hm, closed⟩
    rw [above, closed]
    by_cases same : h = x
    · rw [if_pos same, same]
      exact iff_of_false (by simp) (ok.toLinked.not_below_parent hx hp)
    · rw [if_neg same, op.open_iff hm, ok.toLinked.below_iff hx, hp]
      simp [same]

/-- A look-up after the end of a call. -/
theorem get?_closed (hx : t.get? x = some n) (now : Reading) (signature : Option String)
    (y : NodeRef) : (t.update x fun _ => n.closedAt now signature).get? y =
      if y = x then some (n.closedAt now signature) else t.get? y := by
  rw [get?_update, hx]
  rfl

theorem closed_back (hx : t.get? x = some n) (now : Reading) (signature : Option String)
    {m' : CallNode} (hm' : (t.update x fun _ => n.closedAt now signature).get? h = some m') :
    ∃ m, t.get? h = some m ∧ m'.parent = m.parent ∧
      m'.closed = if h = x then true else m.closed := by
  rw [get?_closed hx] at hm'
  split at hm'
  · rename_i same
    rw [← Option.some.inj hm']
    exact ⟨n, same ▸ hx, rfl, (if_pos same).symm⟩
  · rename_i other
    exact ⟨m', hm', rfl, (if_neg other).symm⟩

theorem closed_wellFormed (ok : t.WellFormed) (hx : t.get? x = some n) (now : Reading)
    (signature : Option String) : (t.update x fun _ => n.closedAt now signature).WellFormed :=
  ok.thinned (thinned_update t x _) (linked_closed ok.toLinked hx now signature)

/-- The end of a call that is kept. -/
theorem closeKept (op : t.OpenPath x) (hx : t.get? x = some n) (hp : n.parent = some p)
    (now : Reading) (signature : Option String) (nanos : UInt64) :
    let t' := (t.update x fun _ => n.closedAt now signature).update p (·.charge nanos)
    t'.OpenPath p ∧ t.ancestors x = p :: t'.ancestors p := by
  have ok := op.wellFormed
  have closed := closed_wellFormed ok hx now signature
  refine op.ended hx hp (closed.update fun m _ => ⟨rfl, rfl⟩) ?_ ?_
  · intro h m' hm'
    rw [get?_update] at hm'
    split at hm'
    · rename_i same
      rcases Option.map_eq_some_iff.mp hm' with ⟨m, hm, rfl⟩
      rcases closed_back hx now signature hm with ⟨m₀, hm₀, -, status⟩
      rw [same]
      exact ⟨m₀, hm₀, status⟩
    · rcases closed_back hx now signature hm' with ⟨m₀, hm₀, -, status⟩
      exact ⟨m₀, hm₀, status⟩
  · intro y m below hy
    have other : y ≠ x := by
      rintro rfl
      exact ok.toLinked.not_below_parent hx hp below
    rw [get?_update, get?_closed hx, get?_closed hx, if_neg other]
    split
    · rename_i same
      rw [← same, if_neg other, hy]
      exact ⟨_, rfl, rfl⟩
    · exact ⟨m, hy, rfl⟩

/-- The end of a call that is dropped. -/
theorem closePruned (op : t.OpenPath x) (hx : t.get? x = some n) (hp : n.parent = some p)
    (now : Reading) (signature : Option String) (pool : NodePool) :
    let t' := (((t.update x fun _ => n.closedAt now signature).detach p x).remove pool [x]).1
    t'.WellFormed → t'.OpenPath p ∧ t.ancestors x = p :: t'.ancestors p := by
  intro t' ok'
  have ok := op.wellFormed
  have linked := linked_closed ok.toLinked hx now signature
  have same {a y : NodeRef} :
      (t.update x fun _ => n.closedAt now signature).Below a y ↔ t.Below a y := by
    refine below_update fun m hm => ?_
    cases Option.mem_unique hx hm
    rfl
  have get := get?_remove_detach linked pool p x
  refine op.ended hx hp ok' ?_ ?_
  · intro h m' hm'
    rcases (get h m').mp hm' with ⟨-, m, hm, rfl⟩
    rcases closed_back hx now signature hm with ⟨m₀, hm₀, -, status⟩
    refine ⟨m₀, hm₀, ?_⟩
    split <;> exact status
  · intro y m below hy
    have apart : ¬ t.Below x y := fun under =>
      ok.toLinked.not_below_parent hx hp (under.trans below)
    have other : y ≠ x := by
      rintro rfl
      exact apart (.self hx)
    refine ⟨_, (get y _).mpr ⟨fun under => apart (same.mp under), m, ?_, rfl⟩, ?_⟩
    · rw [get?_closed hx, if_neg other, hy]
    · split <;> rfl

/-- The end of the root. -/
theorem closeRoot (op : t.OpenPath x) (hx : t.get? x = some n) (hp : n.parent = none)
    (now : Reading) (signature : Option String) :
    (t.update x fun _ => n.closedAt now signature).Complete := by
  have ok := op.wellFormed
  refine ⟨closed_wellFormed ok hx now signature, ?_⟩
  intro h m' hm'
  rcases closed_back hx now signature hm' with ⟨m, hm, -, status⟩
  rw [status]
  split
  · rfl
  · rename_i other
    -- an open node is above the root, and that is the root alone
    by_contra isOpen
    have above := (op.open_iff hm).mp (Bool.eq_false_iff.mpr isOpen)
    rw [ok.toLinked.below_iff hx, hp] at above
    simp [other] at above

end OpenPath

/-- The end of the innermost open call is never refused, loses no node, and leaves its caller
innermost; the end of the root leaves a finished tree. -/
theorem OpenPath.close (op : t.OpenPath x) (hx : t.get? x = some n) (blank : pool.AllBlank)
    (now : Reading) (signature : Option String) (minimum : UInt64) :
    ∃ outcome t' pool', t.close pool now x signature minimum = (.ok outcome, t', pool') ∧
      pool'.AllBlank ∧ pool.Balanced t.size pool' t'.size ∧ (n.parent = none → t'.Complete) ∧
      ∀ p, n.parent = some p → t'.OpenPath p ∧ t.ancestors x = p :: t'.ancestors p := by
  have ok := op.wellFormed
  have balanced := (gave_close ok.toSlotted.counted pool now x signature minimum).2.balanced
  rcases ok.close blank now x signature minimum with ⟨ok', -, blank'⟩
  cases hp : n.parent with
  | none =>
    rw [close_root hx hp] at balanced blank' ⊢
    exact ⟨_, _, _, rfl, blank', balanced, fun _ => op.closeRoot hx hp now signature,
      fun p hq => absurd hq (by simp)⟩
  | some p =>
    by_cases fast : saturatingSub now n.start < minimum
    · rw [close_pruned hx hp fast] at balanced blank' ok' ⊢
      refine ⟨_, _, _, rfl, blank', balanced, fun no => absurd no (by simp), ?_⟩
      intro q hq
      cases Option.some.inj hq
      exact op.closePruned hx hp now signature pool ok'
    · rw [close_kept ok.toLinked hx hp fast] at balanced blank' ⊢
      refine ⟨_, _, _, rfl, blank', balanced, fun no => absurd no (by simp), ?_⟩
      intro q hq
      cases Option.some.inj hq
      exact op.closeKept hx hp now signature _

/-- Trimming a finished tree leaves a finished tree. -/
theorem Complete.removeCallsFasterThan (done : t.Complete) (pool : NodePool) (threshold : UInt64) :
    (t.removeCallsFasterThan pool threshold).1.Complete := by
  have ok := done.wellFormed
  rcases removeCallsFasterThan_spec ok.toSlotted ok.toLinked pool threshold with ⟨-, -, -, get⟩
  refine ⟨ok.removeCallsFasterThan pool threshold, ?_⟩
  intro h n' hn'
  rcases (get h n').mp hn' with ⟨-, n, hn, rfl⟩
  exact done.closed h n hn

end CallTree

end CallProfiler
