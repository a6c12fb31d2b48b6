import CallProfiler.Tree.Edit
import CallProfiler.Proofs.Tree.Trimming

/-!
# Proofs.Tree.Edits: what each change of a tree does

One description for each change of a tree, through a live handle and through a stale one. A change
through a stale handle is refused and leaves everything as it was. Through a live one, a new call is a
leaf that becomes the last child (`Grafted`), the end of a call rewrites nodes in place or prunes a
subtree, and nothing else happens.

`WellFormed` is the invariant of the arena, slots and links together. Every change keeps it
(`WellFormed.edit`), as long as there is a number left for one more slot.
-/

namespace CallProfiler

namespace CallTree

/-- The invariant of the arena. -/
structure WellFormed (t : CallTree) : Prop extends Slotted t, Linked t

variable {t t' : CallTree} {pool : NodePool} {now : Reading} {h p c x : NodeRef} {n pn : CallNode}

/-- A thinned tree that is still linked is well-formed: its slots stay as they are or are emptied. -/
theorem WellFormed.thinned (ok : t.WellFormed) (thin : Thinned t t') (linked : t'.Linked) :
    t'.WellFormed :=
  { thin.slotted ok.toSlotted, linked with }

/-- Rewriting a node without changing its parent and its children keeps the links. -/
theorem Linked.update {f : CallNode → CallNode} (ok : t.Linked)
    (keeps : ∀ n, t.get? h = some n → (f n).parent = n.parent ∧ (f n).children = n.children) :
    (t.update h f).Linked := by
  have rewritten : ∀ {x n'}, (t.update h f).get? x = some n' → ∃ n, t.get? x = some n ∧
      n'.parent = n.parent ∧ n'.children = n.children := by
    intro x n' hx
    rw [get?_update] at hx
    split at hx
    · rename_i same
      rcases Option.map_eq_some_iff.mp hx with ⟨n, hn, rfl⟩
      exact ⟨n, same ▸ hn, keeps n hn⟩
    · exact ⟨n', hx, rfl, rfl⟩
  refine ok.cut (thinned_update t h f).root (fun _ => False) id ?_ ?_ ?_
  · exact fun _ _ no => no
  · intro x n hx _
    unfold Live
    rw [get?_update]
    by_cases same : x = h
    · exact ⟨f n, by rw [if_pos same, ← same, hx]; rfl⟩
    · exact ⟨n, by rw [if_neg same, hx]⟩
  · intro x n' hx
    rcases rewritten hx with ⟨n, hn, parent, children⟩
    exact ⟨n, id, hn, parent, by rw [children], fun c hc => by simp [children, hc]⟩

/-- A tree stays well-formed if a node keeps its parent and its children. -/
theorem WellFormed.update {f : CallNode → CallNode} (ok : t.WellFormed)
    (keeps : ∀ n, t.get? h = some n → (f n).parent = n.parent ∧ (f n).children = n.children) :
    (t.update h f).WellFormed :=
  ok.thinned (thinned_update t h f) (ok.toLinked.update keeps)

/-- What lies below a node does not depend on what nodes hold besides their children. -/
theorem below_update {f : CallNode → CallNode} {a : NodeRef}
    (keeps : ∀ n, t.get? x = some n → (f n).children = n.children) :
    (t.update x f).Below a h ↔ t.Below a h := by
  constructor
  · intro below
    refine below.mono ?_
    intro y m _ hy
    rw [get?_update] at hy
    by_cases here : y = x
    · rw [if_pos here] at hy
      rcases Option.map_eq_some_iff.mp hy with ⟨n, hn, same⟩
      refine ⟨n, here ▸ hn, ?_⟩
      intro c hc _
      rw [← same, keeps n hn] at hc
      exact hc
    · rw [if_neg here] at hy
      exact ⟨m, hy, fun c hc _ => hc⟩
  · intro below
    refine below.mono ?_
    intro y m _ hy
    rw [get?_update]
    by_cases here : y = x
    · rw [if_pos here, ← here, hy]
      refine ⟨f m, rfl, ?_⟩
      intro c hc _
      rw [keeps m (here ▸ hy)]
      exact hc
    · rw [if_neg here]
      exact ⟨m, hy, fun c hc _ => hc⟩

/-! ## The beginning -/

/-- A tree begins with its root alone, which is open. -/
theorem begin_spec (blank : pool.AllBlank) (now : Reading) (signature : String) :
    (CallTree.begin pool now signature).1 =
      ⟨#[⟨0, some (CallNode.blank.begun signature now none)⟩], [], ⟨0, 0⟩⟩ ∧
    (CallTree.begin pool now signature).2.AllBlank := by
  refine ⟨?_, blank.acquire_snd⟩
  unfold CallTree.begin
  simp only [blank.acquire_fst, insert]
  rfl

theorem get?_singleton (n : CallNode) (x : NodeRef) :
    CallTree.get? ⟨#[⟨0, some n⟩], [], ⟨0, 0⟩⟩ x = if x = ⟨0, 0⟩ then some n else none := by
  simp only [CallTree.get?, Array.getElem?_singleton]
  by_cases index : x.index.toNat = 0
  · by_cases generation : 0 = x.generation
    · have same : x = ⟨0, 0⟩ := NodeRef.eq_of_index_eq index generation.symm
      simp [same]
    · have other : x ≠ ⟨0, 0⟩ := fun e => generation (by rw [e])
      simp [index, other, generation]
  · have other : x ≠ ⟨0, 0⟩ := fun e => index (by rw [e]; rfl)
    simp [index, other]

theorem wellFormed_singleton (leaf : n.children = []) (noParent : n.parent = none) :
    WellFormed ⟨#[⟨0, some n⟩], [], ⟨0, 0⟩⟩ where
  capacity := by simp
  vacant_nodup := List.nodup_nil
  mem_vacant := by
    intro i
    simp only [Array.getElem?_singleton]
    by_cases index : i.toNat = 0
    · simp [index]
    · simp [index]
  root_live := ⟨n, by rw [get?_singleton]; rfl, noParent⟩
  parent_live := by
    intro h m hm other
    rw [get?_singleton, if_neg other] at hm
    exact absurd hm (by simp)
  child_live := by
    intro p pn c hp hc
    rw [get?_singleton] at hp
    split at hp
    · cases Option.some.inj hp
      rw [leaf] at hc
      exact absurd hc (by simp)
    · exact absurd hp (by simp)
  children_nodup := by
    intro p pn hp
    rw [get?_singleton] at hp
    split at hp
    · cases Option.some.inj hp
      rw [leaf]
      exact List.nodup_nil
    · exact absurd hp (by simp)
  ranked := by
    refine ⟨fun _ => 0, ?_⟩
    intro h m p hm parent
    rw [get?_singleton] at hm
    split at hm
    · cases Option.some.inj hm
      rw [noParent] at parent
      exact absurd parent (by simp)
    · exact absurd hm (by simp)

/-- A new tree is well-formed: it is its root. -/
theorem wellFormed_begin (blank : pool.AllBlank) (now : Reading) (signature : String) :
    (CallTree.begin pool now signature).1.WellFormed := by
  rw [(begin_spec blank now signature).1]
  exact wellFormed_singleton rfl rfl

/-! ## New calls -/

/-- A fresh leaf has become the last child of a node, which may have been rewritten otherwise. -/
structure Grafted (t : CallTree) (p c : NodeRef) (pn' cn : CallNode) (t' : CallTree) : Prop where
  fresh : t.get? c = none
  get? : ∀ x, t'.get? x = if x = c then some cn else if x = p then some pn' else t.get? x
  filled : ∃ mid f, Filled t mid c cn ∧ t' = mid.update p f

/-- The shape that both kinds of new calls share: fill a slot, look the parent up again, rewrite it. -/
theorem grafted_insert (ok : t.WellFormed) (room : t.slots.size < 2 ^ 32)
    (live : t.get? p = some pn) (cn : CallNode) (f : CallNode → CallNode) :
    (t.insert cn).2.get? p = some pn ∧
      Grafted t p (t.insert cn).1 (f pn) cn ((t.insert cn).2.update p f) := by
  have filled := filled_insert ok.toSlotted room cn
  -- the parent is live and the slot was not, so the new node is not its own parent
  have other : p ≠ (t.insert cn).1 := by
    intro same
    have fresh := filled.fresh
    rw [← same, live] at fresh
    exact absurd fresh (by simp)
  have again : (t.insert cn).2.get? p = some pn := by rw [filled.get?, if_neg other, live]
  refine ⟨again, filled.fresh, ?_, _, f, filled, rfl⟩
  intro x
  rw [get?_update, again, filled.get? x]
  by_cases first : x = (t.insert cn).1
  · have apart : x ≠ p := fun same => other (same ▸ first)
    simp [first, first ▸ apart]
  · by_cases same : x = p
    · simp [same, same ▸ first]
    · simp [first, same]

/-- A tree stays well-formed when a leaf is put below one of its nodes, as the last child. -/
theorem Grafted.wellFormed {pn' cn : CallNode} (g : Grafted t p c pn' cn t') (ok : t.WellFormed)
    (live : t.get? p = some pn) (leaf : cn.children = []) (parent : cn.parent = some p)
    (sameParent : pn'.parent = pn.parent) (children : pn'.children = pn.children ++ [c]) :
    t'.WellFormed := by
  rcases g.filled with ⟨mid, f, filled, rfl⟩
  have thin := thinned_update mid p f
  exact { thin.slotted filled.slotted,
    ok.toLinked.graft (thin.root.trans filled.root) live g.fresh g.get? leaf parent sameParent
      children with }

theorem openChild_stale (stale : t.get? p = none) (signature : String) :
    t.openChild pool now p signature = (.error (.staleNode p), t, pool) := by
  simp only [openChild, stale]

/-- A call below a node that is there is never refused, and grafts a blank leaf onto it. -/
theorem openChild_live (ok : t.WellFormed) (room : t.slots.size < 2 ^ 32) (blank : pool.AllBlank)
    (live : t.get? p = some pn) (now : Reading) (signature : String) :
    ∃ c t', t.openChild pool now p signature = (.ok c, t', pool.acquire.2) ∧
      Grafted t p c { pn with children := pn.children ++ [c] }
        (CallNode.blank.begun signature now (some p)) t' := by
  rcases grafted_insert ok room live
    (CallNode.blank.begun signature now (some p))
    fun q => { q with children := q.children ++
      [(t.insert (CallNode.blank.begun signature now (some p))).1] } with ⟨again, grafted⟩
  refine ⟨_, _, ?_, grafted⟩
  simp only [openChild, live, blank.acquire_fst, again]

theorem addIoCall_stale (stale : t.get? p = none) (description : String) (duration : UInt64) :
    t.addIoCall pool now p description duration = (.error (.staleNode p), t, pool) := by
  simp only [addIoCall, stale]

/-- A measured call below a node that is there grafts a closed leaf onto it, and charges the node. -/
theorem addIoCall_live (ok : t.WellFormed) (room : t.slots.size < 2 ^ 32) (blank : pool.AllBlank)
    (live : t.get? p = some pn) (now : Reading) (description : String) (duration : UInt64) :
    ∃ c t', t.addIoCall pool now p description duration = (.ok c, t', pool.acquire.2) ∧
      Grafted t p c ({ pn with children := pn.children ++ [c] }.charge duration)
        (CallNode.blank.measured description duration now p) t' := by
  rcases grafted_insert ok room live
    (CallNode.blank.measured description duration now p)
    fun q => { q with children := q.children ++
      [(t.insert (CallNode.blank.measured description duration now p)).1] }.charge duration with
    ⟨again, grafted⟩
  refine ⟨_, _, ?_, grafted⟩
  simp only [addIoCall, live, blank.acquire_fst, again]

/-! ## Changes in place, and pruning -/

theorem setSignature_stale (stale : t.get? h = none) (signature : String) :
    t.setSignature h signature = (.error (.staleNode h), t) := by
  simp only [setSignature, stale]

theorem setSignature_live (live : t.get? h = some n) (signature : String) :
    t.setSignature h signature = (.ok (), t.update h ({ · with signature := signature })) := by
  simp only [setSignature, live]

/-- The end of a call that is gone is refused, and changes nothing. -/
theorem close_stale (stale : t.get? h = none) (signature : Option String) (minimum : UInt64) :
    t.close pool now h signature minimum = (.error (.staleNode h), t, pool) := by
  simp only [close, stale]

/-- A root that is closed is never removed, and charges nobody. -/
theorem close_root (live : t.get? h = some n) (noParent : n.parent = none)
    (signature : Option String) (minimum : UInt64) :
    t.close pool now h signature minimum =
      (.ok .kept, t.update h fun _ => n.closedAt now signature, pool) := by
  have same : (n.closedAt now signature).parent = none := noParent
  simp only [close, live, same]

/-- A fast call is closed, detached and removed with all that is below it; its parent is not charged. -/
theorem close_pruned (live : t.get? h = some n) (parent : n.parent = some p)
    {minimum : UInt64} (fast : saturatingSub now n.start < minimum) (signature : Option String) :
    t.close pool now h signature minimum =
      (.ok .pruned, ((t.update h fun _ => n.closedAt now signature).detach p h).remove pool [h]) := by
  have same : (n.closedAt now signature).parent = some p := parent
  have gross : (n.closedAt now signature).gross < minimum := fast
  simp only [close, live, same, gross, if_true]

/-- A call that is kept is charged to its parent, if that is there. -/
theorem close_charged (live : t.get? h = some n) (parent : n.parent = some p) (caller : t.Live p)
    {minimum : UInt64} (slow : ¬ saturatingSub now n.start < minimum) (signature : Option String) :
    t.close pool now h signature minimum =
      (.ok .kept, (t.update h fun _ => n.closedAt now signature).update p
        (·.charge (saturatingSub now n.start)), pool) := by
  have same : (n.closedAt now signature).parent = some p := parent
  have gross : ¬ (n.closedAt now signature).gross < minimum := slow
  have live' : (t.update h fun _ => n.closedAt now signature).Live p := live_update.mpr caller
  rcases live' with ⟨pn, hp⟩
  simp only [close, live, same, gross, if_false, hp]
  rfl

/-- A call that is kept charges its parent, which is there in a linked tree. -/
theorem close_kept (ok : t.Linked) (live : t.get? h = some n) (parent : n.parent = some p)
    {minimum : UInt64} (slow : ¬ saturatingSub now n.start < minimum) (signature : Option String) :
    t.close pool now h signature minimum =
      (.ok .kept, (t.update h fun _ => n.closedAt now signature).update p
        (·.charge (saturatingSub now n.start)), pool) :=
  close_charged live parent (ok.below_of_parent live parent).live_left slow signature

/-- The end of a call that is there is never refused. -/
theorem close_accepted (ok : t.Linked) (live : t.get? h = some n) (pool : NodePool) (now : Reading)
    (signature : Option String) (minimum : UInt64) :
    ∃ outcome, (t.close pool now h signature minimum).1 = .ok outcome := by
  cases parent : n.parent with
  | none =>
    rw [close_root live parent]
    exact ⟨_, rfl⟩
  | some p =>
    by_cases fast : saturatingSub now n.start < minimum
    · rw [close_pruned live parent fast]
      exact ⟨_, rfl⟩
    · rw [close_kept ok live parent fast]
      exact ⟨_, rfl⟩

/-- The end of a call leaves the links alone. -/
theorem linked_closed (ok : t.Linked) (live : t.get? h = some n) (now : Reading)
    (signature : Option String) : (t.update h fun _ => n.closedAt now signature).Linked := by
  refine ok.update ?_
  intro m hm
  cases Option.mem_unique live hm
  exact ⟨rfl, rfl⟩

/-! ## Every change keeps the arena well-formed -/

/-- What one change does to slots: one is added only when none is vacant, and each old one keeps its
generation or is freed for its next one. -/
structure Evolved (t t' : CallTree) : Prop where
  root : t'.root = t.root
  size : t'.slots.size = t.slots.size ∨ t'.vacant = [] ∧ t'.slots.size = t.slots.size + 1
  slot : ∀ {i : Nat} {s : Slot}, t.slots[i]? = some s → ∃ s', t'.slots[i]? = some s' ∧
    (s'.generation = s.generation ∧ (s.node.isSome → s'.node.isSome) ∨
      s.node.isSome ∧ s' = ⟨s.generation + 1, none⟩)

theorem size_le (t : CallTree) : t.size ≤ t.slots.size := Nat.sub_le _ _

/-- A tree without vacant slots has as many nodes as slots. -/
theorem size_eq_of_full (full : t.vacant = []) : t.size = t.slots.size := by
  unfold size
  rw [full, List.length_nil, Nat.sub_zero]

/-- A thinning gives no new numbers to slots and lowers no generation. -/
theorem Thinned.evolved (thin : Thinned t t') : Evolved t t' where
  root := thin.root
  size := Or.inl thin.size
  slot := by
    intro i s hs
    rcases thin.slot hs with ⟨s', hs', kept | freed⟩
    · exact ⟨s', hs', Or.inl ⟨kept.1, fun full => kept.2.trans full⟩⟩
    · exact ⟨s', hs', Or.inr freed⟩

/-- A graft adds a slot only if none was vacant. -/
theorem Grafted.evolved {pn' cn : CallNode} (g : Grafted t p c pn' cn t') : Evolved t t' := by
  rcases g.filled with ⟨mid, f, filled, rfl⟩
  have thin := thinned_update mid p f
  refine ⟨thin.root.trans filled.root, ?_, ?_⟩
  · rw [thin.size, vacant_update]
    rcases filled.size with ⟨same, -⟩ | ⟨-, empty, more⟩
    · exact Or.inl same
    · exact Or.inr ⟨empty, more⟩
  · intro i s hs
    by_cases index : i = c.index.toNat
    · -- the slot was vacant, and what has come into it has its generation
      subst index
      cases filled.reused hs
      have inSlot := get?_eq_some_iff.mp ((filled.get? c).trans (if_pos rfl))
      rcases slot_update mid p f inSlot with ⟨s', hs', generation, -⟩
      exact ⟨s', hs', Or.inl ⟨generation, fun full => absurd full (by simp)⟩⟩
    · rcases slot_update mid p f (filled.slot hs index) with ⟨s', hs', generation, occupied⟩
      exact ⟨s', hs', Or.inl ⟨generation, fun full => occupied.trans full⟩⟩

/-- The end of a call rewrites its node, and then either charges its parent or removes the node with
all that is below it. -/
theorem WellFormed.close (ok : t.WellFormed) (blank : pool.AllBlank) (now : Reading) (h : NodeRef)
    (signature : Option String) (minimum : UInt64) :
    (t.close pool now h signature minimum).2.1.WellFormed ∧
    Thinned t (t.close pool now h signature minimum).2.1 ∧
    (t.close pool now h signature minimum).2.2.AllBlank := by
  cases live : t.get? h with
  | none =>
    rw [close_stale live]
    exact ⟨ok, Thinned.refl t, blank⟩
  | some n =>
    -- the node is closed in every case; what comes after that depends on its parent
    have linked := linked_closed ok.toLinked live now signature
    have thin := thinned_update t h fun _ => n.closedAt now signature
    have closed := ok.thinned thin linked
    cases parent : n.parent with
    | none =>
      rw [close_root live parent]
      exact ⟨closed, thin, blank⟩
    | some p =>
      by_cases fast : saturatingSub now n.start < minimum
      · rw [close_pruned live parent fast]
        have live' : (t.update h fun _ => n.closedAt now signature).get? h =
            some (n.closedAt now signature) := by
          rw [get?_update, if_pos rfl, live]
          rfl
        have thin' := (thin.trans (thinned_update _ p _)).trans
          (thinned_remove ((t.update h fun _ => n.closedAt now signature).detach p h) pool [h])
        exact ⟨ok.thinned thin' (linked.pruned pool live' parent), thin',
          allBlank_remove _ blank [h]⟩
      · rw [close_kept ok.toLinked live parent fast]
        exact ⟨closed.update fun m _ => ⟨rfl, rfl⟩, thin.trans (thinned_update _ p _), blank⟩

/-- A trim keeps a tree well-formed. -/
theorem WellFormed.removeCallsFasterThan (ok : t.WellFormed) (pool : NodePool)
    (threshold : UInt64) : (t.removeCallsFasterThan pool threshold).1.WellFormed := by
  rcases removeCallsFasterThan_spec ok.toSlotted ok.toLinked pool threshold with ⟨thin, linked, -, -⟩
  exact ok.thinned thin linked

/-- Every change keeps the arena well-formed and the pool blank. -/
theorem WellFormed.edit (ok : t.WellFormed) (room : t.slots.size < 2 ^ 32) (blank : pool.AllBlank)
    (now : Reading) (change : TreeEdit) :
    (t.edit pool now change).2.1.WellFormed ∧ Evolved t (t.edit pool now change).2.1 ∧
    (t.edit pool now change).2.2.AllBlank := by
  cases change with
  | openChild parent signature =>
    simp only [CallTree.edit]
    cases live : t.get? parent with
    | none =>
      rw [openChild_stale live]
      exact ⟨ok, (Thinned.refl t).evolved, blank⟩
    | some pn =>
      rcases openChild_live ok room blank live now signature with ⟨c, t', eq, grafted⟩
      rw [eq]
      exact ⟨grafted.wellFormed ok live rfl rfl rfl rfl, grafted.evolved, blank.acquire_snd⟩
  | close node signature minimum =>
    rcases ok.close blank now node signature minimum with ⟨ok', thin, blank'⟩
    exact ⟨ok', thin.evolved, blank'⟩
  | addIoCall parent description duration =>
    simp only [CallTree.edit]
    cases live : t.get? parent with
    | none =>
      rw [addIoCall_stale live]
      exact ⟨ok, (Thinned.refl t).evolved, blank⟩
    | some pn =>
      rcases addIoCall_live ok room blank live now description duration with ⟨c, t', eq, grafted⟩
      rw [eq]
      exact ⟨grafted.wellFormed ok live rfl rfl rfl rfl, grafted.evolved, blank.acquire_snd⟩
  | setSignature node signature =>
    simp only [CallTree.edit]
    cases live : t.get? node with
    | none =>
      rw [setSignature_stale live]
      exact ⟨ok, (Thinned.refl t).evolved, blank⟩
    | some n =>
      rw [setSignature_live live]
      exact ⟨ok.update fun m _ => ⟨rfl, rfl⟩, (thinned_update t node _).evolved, blank⟩
  | trim threshold =>
    rcases removeCallsFasterThan_spec ok.toSlotted ok.toLinked pool threshold with
      ⟨thin, -, blank', -⟩
    exact ⟨ok.removeCallsFasterThan pool threshold, thin.evolved, blank' blank⟩

end CallTree

end CallProfiler
