import CallProfiler.Proofs.Tree.Slots

/-!
# Proofs.Tree.Links: parents, children and what lies below a node

`Linked` is the invariant of the links between nodes: the root has no parent, every other node is
listed by the parent that it names, every listed child names its owner, and the links form no cycle.
Slots are used again, so the place of a node says nothing about its age; acyclicity is witnessed by a
rank that grows from a parent to its children, and a fresh leaf is ranked after its parent.

`Below` is the order of the tree. Three kinds of change keep the links: a change that leaves them
alone or takes away whole subtrees (`Linked.cut`), and a new leaf (`Linked.graft`).
-/

namespace CallProfiler.CallTree

/-- The invariant of the links between nodes. -/
structure Linked (t : CallTree) : Prop where
  root_live : ∃ n, t.get? t.root = some n ∧ n.parent = none
  parent_live : ∀ {h n}, t.get? h = some n → h ≠ t.root →
    ∃ p pn, n.parent = some p ∧ t.get? p = some pn ∧ h ∈ pn.children
  child_live : ∀ {p pn c}, t.get? p = some pn → c ∈ pn.children →
    ∃ cn, t.get? c = some cn ∧ cn.parent = some p
  children_nodup : ∀ {p pn}, t.get? p = some pn → pn.children.Nodup
  ranked : ∃ rank : NodeRef → Nat, ∀ {h n p}, t.get? h = some n → n.parent = some p →
    rank p < rank h

/-- The second handle is the first one or lies below it, and both have their nodes. -/
inductive Below (t : CallTree) (a : NodeRef) : NodeRef → Prop where
  | self {n : CallNode} : t.get? a = some n → t.Below a a
  | child {p c : NodeRef} {pn cn : CallNode} : t.Below a p → t.get? p = some pn →
      c ∈ pn.children → t.get? c = some cn → t.Below a c

variable {t t' : CallTree} {a b c p x : NodeRef} {n pn : CallNode}

/-! ## The order of any tree -/

theorem Below.live_left (h : t.Below a x) : t.Live a := by
  induction h with
  | self live => exact ⟨_, live⟩
  | child _ _ _ _ ih => exact ih

theorem Below.live_right (h : t.Below a x) : t.Live x := by
  cases h with
  | self live => exact ⟨_, live⟩
  | child _ _ _ live => exact ⟨_, live⟩

/-- Ancestors of ancestors are ancestors. -/
theorem Below.trans (h : t.Below a b) (h' : t.Below b x) : t.Below a x := by
  induction h' with
  | self _ => exact h
  | child _ hp hc live ih => exact ih.child hp hc live

/-- What lies below a node is the node itself or lies below one of its children. -/
theorem Below.eq_or_below_child (h : t.Below a x) (live : t.get? a = some n) :
    x = a ∨ ∃ c ∈ n.children, t.Below c x := by
  induction h with
  | self _ => exact Or.inl rfl
  | @child p c pn cn _ hp hc hcn ih =>
    rcases ih with rfl | ⟨d, hd, below⟩
    · cases Option.mem_unique live hp
      exact Or.inr ⟨c, hc, .self hcn⟩
    · exact Or.inr ⟨d, hd, below.child hp hc hcn⟩

/-- A path survives in a tree whose nodes keep at least its links. -/
theorem Below.mono (h : t.Below a x)
    (keeps : ∀ {y n}, t.Below a y → t.get? y = some n →
      ∃ n', t'.get? y = some n' ∧ ∀ c ∈ n.children, t.Below a c → c ∈ n'.children) :
    t'.Below a x := by
  induction h with
  | self live =>
    rcases keeps (.self live) live with ⟨n', live', -⟩
    exact .self live'
  | child below hp hc hcn ih =>
    rcases keeps below hp with ⟨pn', hp', sub⟩
    rcases keeps (below.child hp hc hcn) hcn with ⟨cn', hcn', -⟩
    exact ih.child hp' (sub _ hc (below.child hp hc hcn)) hcn'

/-! ## The order of a linked tree -/

/-- The root is always there. -/
theorem Linked.live_root (ok : t.Linked) : t.Live t.root := by
  rcases ok.root_live with ⟨n, hn, _⟩
  exact ⟨n, hn⟩

/-- The root is the only node without a parent. -/
theorem Linked.parent_none_iff (ok : t.Linked) (hx : t.get? x = some n) :
    n.parent = none ↔ x = t.root := by
  constructor
  · intro none
    by_contra root
    rcases ok.parent_live hx root with ⟨p, pn, parent, -, -⟩
    rw [none] at parent
    exact absurd parent (by simp)
  · rintro rfl
    rcases ok.root_live with ⟨m, hm, none⟩
    cases Option.mem_unique hx hm
    exact none

/-- A node with a parent is not the root. -/
theorem Linked.ne_root (ok : t.Linked) (hx : t.get? x = some n) (parent : n.parent = some p) :
    x ≠ t.root := by
  intro same
  rw [(ok.parent_none_iff hx).mpr same] at parent
  exact absurd parent (by simp)

/-- The parent of a node is there, and it lists the node. -/
theorem Linked.parent_lists (ok : t.Linked) (hx : t.get? x = some n) (parent : n.parent = some p) :
    ∃ pn, t.get? p = some pn ∧ x ∈ pn.children := by
  rcases ok.parent_live hx (ok.ne_root hx parent) with ⟨q, pn, parent', hq, listed⟩
  cases Option.mem_unique parent parent'
  exact ⟨pn, hq, listed⟩

/-- The node above the end of a path is on the path. -/
theorem Linked.below_parent (ok : t.Linked) (h : t.Below a x) (hx : t.get? x = some n) :
    x = a ∨ ∃ p, n.parent = some p ∧ t.Below a p := by
  cases h with
  | self _ => exact Or.inl rfl
  | @child p _ pn cn below hp hc hcn =>
    rcases ok.child_live hp hc with ⟨cn', hcn', parent⟩
    cases Option.mem_unique hx hcn'
    exact Or.inr ⟨p, parent, below⟩

/-- The parent of a node is there, and the node is below it. -/
theorem Linked.below_of_parent (ok : t.Linked) (hx : t.get? x = some n) (hp : n.parent = some p) :
    t.Below p x := by
  rcases ok.parent_lists hx hp with ⟨pn, live, mem⟩
  exact .child (.self live) live mem hx

/-- A rank that grows from parent to child grows along every path down. -/
theorem Linked.rank_le_of_below (ok : t.Linked) {rank : NodeRef → Nat}
    (ranked : ∀ {h n p}, t.get? h = some n → n.parent = some p → rank p < rank h)
    (h : t.Below a x) : rank a ≤ rank x := by
  induction h with
  | self _ => exact Nat.le_refl _
  | child _ hp hc _ ih =>
    rcases ok.child_live hp hc with ⟨cn, live, parent⟩
    exact Nat.le_trans ih (Nat.le_of_lt (ranked live parent))

/-- No two nodes are below each other. -/
theorem Linked.below_antisymm (ok : t.Linked) (h : t.Below a b) (h' : t.Below b a) : a = b := by
  obtain ⟨rank, ranked⟩ := ok.ranked
  rcases h.live_right with ⟨n, hn⟩
  rcases ok.below_parent h hn with same | ⟨p, hp, below⟩
  · exact same.symm
  · -- the parent of the lower node would lie below it
    have lt := ranked hn hp
    have up := ok.rank_le_of_below ranked (h'.trans below)
    omega

/-- Nothing lies below its own child. -/
theorem Linked.not_below_child (ok : t.Linked) (hp : t.get? p = some pn) (hc : c ∈ pn.children) :
    ¬ t.Below c p := by
  intro below
  obtain ⟨rank, ranked⟩ := ok.ranked
  rcases ok.child_live hp hc with ⟨cn, live, parent⟩
  have up := ok.rank_le_of_below ranked below
  have down := ranked live parent
  omega

/-- The nodes above a node form a chain. -/
theorem Linked.below_linear (ok : t.Linked) (h : t.Below a x) (h' : t.Below b x) :
    t.Below a b ∨ t.Below b a := by
  induction h with
  | self _ => exact Or.inr h'
  | @child p c pn cn below hp hc hcn ih =>
    rcases ok.child_live hp hc with ⟨cn', hcn', parent⟩
    rcases ok.below_parent h' hcn' with rfl | ⟨q, hq, belowq⟩
    · exact Or.inl (below.child hp hc hcn)
    · cases Option.mem_unique parent hq
      exact ih belowq

/-- A node that is above a child but not above its parent is the child itself. -/
theorem Linked.eq_of_below_child (ok : t.Linked) (hp : t.get? p = some pn) (hc : c ∈ pn.children)
    (below : t.Below a c) (apart : ¬ t.Below a p) : c = a := by
  rcases ok.child_live hp hc with ⟨cn, hcn, parent⟩
  rcases ok.below_parent below hcn with same | ⟨q, hq, belowq⟩
  · exact same
  · cases Option.mem_unique parent hq
    exact absurd belowq apart

/-- What lies below one child lies below no other child. -/
theorem Linked.below_children_unique (ok : t.Linked) (hp : t.get? p = some pn)
    (ha : a ∈ pn.children) (hb : b ∈ pn.children) (h : t.Below a x) (h' : t.Below b x) : a = b := by
  -- of two comparable siblings, the upper one would lie above the parent
  rcases ok.below_linear h h' with below | below
  · exact (ok.eq_of_below_child hp hb below (ok.not_below_child hp ha)).symm
  · exact ok.eq_of_below_child hp ha below (ok.not_below_child hp hb)

/-- Every node is below the root. -/
theorem Linked.root_below (ok : t.Linked) (h : t.Live x) : t.Below t.root x := by
  obtain ⟨rank, ranked⟩ := ok.ranked
  -- up to the root, along falling ranks
  induction hr : rank x using Nat.strongRecOn generalizing x with
  | ind r ih =>
    rcases h with ⟨n, hn⟩
    by_cases root : x = t.root
    · exact root ▸ .self hn
    · rcases ok.parent_live hn root with ⟨p, pn, parent, hp, mem⟩
      have lt := ranked hn parent
      exact (ih (rank p) (by omega) ⟨pn, hp⟩ rfl).child hp mem hn

theorem Linked.eq_root_of_below_root (ok : t.Linked) (h : t.Below a t.root) : a = t.root :=
  ok.below_antisymm h (ok.root_below h.live_left)

/-- A node lies below itself and below what its parent lies below. -/
theorem Linked.below_iff (ok : t.Linked) (hx : t.get? x = some n) :
    t.Below a x ↔ a = x ∨ ∃ p, n.parent = some p ∧ t.Below a p := by
  constructor
  · intro below
    rcases ok.below_parent below hx with same | above
    · exact Or.inl same.symm
    · exact Or.inr above
  · rintro (rfl | ⟨p, parent, below⟩)
    · exact .self hx
    · exact below.trans (ok.below_of_parent hx parent)

theorem Linked.not_below_parent (ok : t.Linked) (hx : t.get? x = some n) (hp : n.parent = some p) :
    ¬ t.Below x p := by
  intro below
  have same := ok.below_antisymm below (ok.below_of_parent hx hp)
  rw [← same] at hp
  obtain ⟨rank, ranked⟩ := ok.ranked
  exact Nat.lt_irrefl _ (ranked hx hp)

/-! ## Changes that keep the links -/

/-- Links survive when whole subtrees below the root go away, and the lists of children lose exactly
what is gone. With nothing gone, this says that only links matter. -/
theorem Linked.cut (ok : t.Linked) (root : t'.root = t.root) (gone : NodeRef → Prop)
    (rootKept : ¬ gone t.root)
    (downward : ∀ {p pn c}, t.get? p = some pn → c ∈ pn.children → gone p → gone c)
    (forth : ∀ {x n}, t.get? x = some n → ¬ gone x → t'.Live x)
    (back : ∀ {x n'}, t'.get? x = some n' → ∃ n, ¬ gone x ∧ t.get? x = some n ∧
      n'.parent = n.parent ∧ n'.children.Sublist n.children ∧
      ∀ c ∈ n.children, c ∈ n'.children ↔ ¬ gone c) :
    t'.Linked := by
  -- an old node that is kept has one copy in the new tree, and each node there is such a copy
  refine ⟨?_, ?_, ?_, ?_, ?_⟩
  · rcases ok.root_live with ⟨n, hn, none⟩
    rcases forth hn rootKept with ⟨n', hn'⟩
    rcases back hn' with ⟨m, -, hm, parent, -, -⟩
    cases Option.mem_unique hn hm
    exact ⟨n', root ▸ hn', parent.trans none⟩
  · intro h n' hn' notRoot
    rcases back hn' with ⟨n, kept, hn, parent, -, -⟩
    rcases ok.parent_live hn (root ▸ notRoot) with ⟨p, pn, hp, live, mem⟩
    have keptParent : ¬ gone p := fun g => kept (downward live mem g)
    rcases forth live keptParent with ⟨pn', live'⟩
    rcases back live' with ⟨m, -, hm, -, -, iff⟩
    cases Option.mem_unique live hm
    exact ⟨p, pn', parent.trans hp, live', (iff h mem).mpr kept⟩
  · intro p pn' c hp' hc
    rcases back hp' with ⟨pn, -, hp, -, sub, iff⟩
    have mem := sub.subset hc
    rcases ok.child_live hp mem with ⟨cn, hcn, parent⟩
    rcases forth hcn ((iff c mem).mp hc) with ⟨cn', hcn'⟩
    rcases back hcn' with ⟨m, -, hm, parent', -, -⟩
    cases Option.mem_unique hcn hm
    exact ⟨cn', hcn', parent'.trans parent⟩
  · intro p pn' hp'
    rcases back hp' with ⟨pn, -, hp, -, sub, -⟩
    exact (ok.children_nodup hp).sublist sub
  · rcases ok.ranked with ⟨rank, ranked⟩
    refine ⟨rank, ?_⟩
    intro h n' p hn' parent'
    rcases back hn' with ⟨n, -, hn, parent, -, -⟩
    exact ranked hn (parent.symm.trans parent')

/-- After a graft a node is the fresh leaf, or an old node with its parent and with its children, to which
the leaf may have come. -/
theorem graft_back {cn pn' n' : CallNode} (live : t.get? p = some pn)
    (get : ∀ x, t'.get? x = if x = c then some cn else if x = p then some pn' else t.get? x)
    (sameParent : pn'.parent = pn.parent) (children : pn'.children = pn.children ++ [c])
    (hx : t'.get? x = some n') : x = c ∧ n' = cn ∨ ∃ n, t.get? x = some n ∧ n'.parent = n.parent ∧
      (n'.children = n.children ∨ x = p ∧ n'.children = n.children ++ [c]) := by
  rw [get] at hx
  by_cases isNew : x = c
  · rw [if_pos isNew] at hx
    exact Or.inl ⟨isNew, (Option.some.inj hx).symm⟩
  · rw [if_neg isNew] at hx
    by_cases here : x = p
    · rw [if_pos here] at hx
      cases Option.some.inj hx
      exact Or.inr ⟨pn, here ▸ live, sameParent, Or.inr ⟨here, children⟩⟩
    · rw [if_neg here] at hx
      exact Or.inr ⟨n', hx, rfl, Or.inl rfl⟩

/-- Links survive when a fresh leaf becomes the last child of a node. -/
theorem Linked.graft {cn pn' : CallNode} (ok : t.Linked) (root : t'.root = t.root)
    (live : t.get? p = some pn) (fresh : t.get? c = none)
    (get : ∀ x, t'.get? x = if x = c then some cn else if x = p then some pn' else t.get? x)
    (leaf : cn.children = []) (parent : cn.parent = some p)
    (sameParent : pn'.parent = pn.parent) (children : pn'.children = pn.children ++ [c]) :
    t'.Linked := by
  have notFresh : ∀ {x n}, t.get? x = some n → x ≠ c := by
    intro x n hx same
    rw [same, fresh] at hx
    exact absurd hx (by simp)
  have newChild : t'.get? c = some cn := by rw [get, if_pos rfl]
  have newParent : t'.get? p = some pn' := by rw [get, if_neg (notFresh live), if_pos rfl]
  have back := fun {x n'} (hx : t'.get? x = some n') =>
    graft_back live get sameParent children hx
  -- an old node keeps its parent, and all of its children
  have forth : ∀ {x n}, t.get? x = some n → ∃ n', t'.get? x = some n' ∧ n'.parent = n.parent ∧
      ∀ d ∈ n.children, d ∈ n'.children := by
    intro x n hx
    by_cases here : x = p
    · rw [here] at hx ⊢
      cases Option.mem_unique live hx
      exact ⟨pn', newParent, sameParent, fun d hd => by rw [children]; simp [hd]⟩
    · exact ⟨n, by rw [get, if_neg (notFresh hx), if_neg here, hx], rfl, fun d hd => hd⟩
  refine ⟨?_, ?_, ?_, ?_, ?_⟩
  · rcases ok.root_live with ⟨n, hn, none⟩
    rcases forth hn with ⟨n', hn', parent', _⟩
    exact ⟨n', root ▸ hn', parent'.trans none⟩
  · intro h n' hn' notRoot
    rcases back hn' with ⟨isNew, same⟩ | ⟨n, hn, parent', _⟩
    · exact ⟨p, pn', same ▸ parent, newParent, by rw [children, isNew]; simp⟩
    · rcases ok.parent_live hn (root ▸ notRoot) with ⟨q, qn, hq, liveq, mem⟩
      rcases forth liveq with ⟨qn', liveq', _, sub⟩
      exact ⟨q, qn', parent'.trans hq, liveq', sub h mem⟩
  · intro q qn' d hq' hd
    rcases back hq' with ⟨_, same⟩ | ⟨qn, hq, _, kids⟩
    · rw [same, leaf] at hd
      exact absurd hd (by simp)
    · have old : d ∈ qn.children ∨ d = c ∧ q = p := by
        rcases kids with same | ⟨here, more⟩
        · exact Or.inl (same ▸ hd)
        · rw [more] at hd
          rcases List.mem_append.mp hd with hd | hd
          · exact Or.inl hd
          · exact Or.inr ⟨List.mem_singleton.mp hd, here⟩
      rcases old with hd | ⟨isNew, here⟩
      · rcases ok.child_live hq hd with ⟨dn, hdn, parentd⟩
        rcases forth hdn with ⟨dn', hdn', parentd', _⟩
        exact ⟨dn', hdn', parentd'.trans parentd⟩
      · rw [isNew, here]
        exact ⟨cn, newChild, parent⟩
  · intro q qn' hq'
    rcases back hq' with ⟨_, same⟩ | ⟨qn, hq, _, kids⟩
    · rw [same, leaf]
      exact List.nodup_nil
    · rcases kids with same | ⟨_, more⟩
      · rw [same]
        exact ok.children_nodup hq
      · have unlisted : c ∉ qn.children := by
          intro mem
          rcases ok.child_live hq mem with ⟨m, hm, _⟩
          exact notFresh hm rfl
        rw [more]
        exact List.Nodup.append (ok.children_nodup hq) (List.nodup_singleton c)
          (by simpa using unlisted)
  · -- the leaf is ranked after its parent, and no other node names it as its parent
    obtain ⟨rank, ranked⟩ := ok.ranked
    refine ⟨fun h => if h = c then rank p + 1 else rank h, ?_⟩
    intro h n' q hn' parentq
    rcases back hn' with ⟨isNew, same⟩ | ⟨n, hn, parent', _⟩
    · rw [same, parent] at parentq
      cases Option.some.inj parentq
      simp [isNew, notFresh live]
    · have hq := parent'.symm.trans parentq
      rcases (ok.below_of_parent hn hq).live_left with ⟨m, hm⟩
      simpa [notFresh hn, notFresh hm] using ranked hn hq

end CallProfiler.CallTree
