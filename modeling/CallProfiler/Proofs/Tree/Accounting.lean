import CallProfiler.Proofs.Tree.Edits

/-!
# Proofs.Tree.Accounting: no node is lost

Every node that the pool made is in use or waits in the pool. `Balanced` says this of any change: of
the pool before and after it, and of the number of nodes that were in use before and after it. A pool
that is switched off makes nodes and forgets them, so nothing is said about it.

Everything that takes nodes out of a tree only gives them back, one after the other (`Gave`), and
therefore balances. The number of nodes in a tree is its size as long as the vacant list holds each
empty slot once; this is all that is needed of a tree here (`Counted`), and it holds of trees with any
number of slots.
-/

namespace CallProfiler

namespace NodePool

/-- The nodes that are in use: those made less those that wait. -/
def outstanding (pool : NodePool) : UInt64 := pool.allocated - UInt64.ofNat pool.available

/-- While `used` nodes in use have become `used'`, the pool has made some nodes, and each node that
went out of use has come back to it. -/
structure Balanced (pool : NodePool) (used : Nat) (pool' : NodePool) (used' : Nat) : Prop where
  enabled : pool'.enabled = pool.enabled
  nodes : pool.enabled = true → ∃ made : Nat,
    pool'.allocated = pool.allocated + UInt64.ofNat made ∧
    pool'.available + used' = pool.available + used + made

variable {pool pool' pool'' : NodePool} {used used' used'' : Nat}

theorem Balanced.refl (pool : NodePool) (used : Nat) : pool.Balanced used pool used where
  enabled := rfl
  nodes := fun _ => ⟨0, (UInt64.add_zero _).symm, rfl⟩

/-- What two operations take and give back one after the other adds up. -/
theorem Balanced.trans (h : pool.Balanced used pool' used')
    (h' : pool'.Balanced used' pool'' used'') : pool.Balanced used pool'' used'' where
  enabled := h'.enabled.trans h.enabled
  nodes := by
    intro on
    obtain ⟨made, allocated, available⟩ := h.nodes on
    obtain ⟨made', allocated', available'⟩ := h'.nodes (h.enabled.trans on)
    refine ⟨made + made', ?_, by omega⟩
    rw [allocated', allocated, UInt64.ofNat_add, UInt64.add_assoc]

/-- The difference does not see how many nodes were made, even where the counter has wrapped. -/
theorem Balanced.outstanding_eq (h : pool.Balanced used pool' used) (on : pool.enabled = true) :
    pool'.outstanding = pool.outstanding := by
  obtain ⟨made, allocated, available⟩ := h.nodes on
  have waiting : pool'.available = pool.available + made := by omega
  unfold outstanding
  rw [allocated, waiting, UInt64.ofNat_add]
  exact add_sub_add_right_eq_sub _ _ _

/-- A node that is taken is in use. -/
theorem balanced_acquire (pool : NodePool) (used : Nat) :
    pool.Balanced used pool.acquire.2 (used + 1) := by
  rcases pool with ⟨enabled, free, allocated, reused⟩
  cases enabled with
  | false => exact ⟨rfl, fun on => absurd on (by simp)⟩
  | true =>
    cases free with
    | nil => exact ⟨rfl, fun _ => ⟨1, rfl, by simp [acquire, available]⟩⟩
    | cons node free =>
      exact ⟨rfl, fun _ => ⟨0, (UInt64.add_zero _).symm, by simp [acquire, available]; omega⟩⟩

/-- A node that comes back is not in use any more; with pooling it waits. -/
theorem balanced_release (pool : NodePool) (node : CallNode) (used : Nat) :
    pool.Balanced (used + 1) (pool.release node) used := by
  rcases pool with ⟨enabled, free, allocated, reused⟩
  cases enabled with
  | false => exact ⟨rfl, fun on => absurd on (by simp)⟩
  | true => exact ⟨rfl, fun _ => ⟨0, (UInt64.add_zero _).symm, by simp [release, available]; omega⟩⟩

/-- Of `used` nodes in use all but `used'` have been given back, and no node was handed out. -/
def Gave (pool : NodePool) (used : Nat) (pool' : NodePool) (used' : Nat) : Prop :=
  ∃ nodes : List CallNode, pool' = nodes.foldl release pool ∧ used = used' + nodes.length

theorem Gave.refl (pool : NodePool) (used : Nat) : pool.Gave used pool used := ⟨[], rfl, rfl⟩

theorem Gave.trans (h : pool.Gave used pool' used') (h' : pool'.Gave used' pool'' used'') :
    pool.Gave used pool'' used'' := by
  obtain ⟨nodes, rfl, rfl⟩ := h
  obtain ⟨nodes', rfl, rfl⟩ := h'
  refine ⟨nodes ++ nodes', List.foldl_append.symm, ?_⟩
  rw [List.length_append]
  omega

theorem gave_release (pool : NodePool) (node : CallNode) (used : Nat) :
    pool.Gave (used + 1) (pool.release node) used :=
  ⟨[node], rfl, rfl⟩

/-- Other nodes may be in use meanwhile. -/
theorem Gave.beside (h : pool.Gave used pool' used') (others : Nat) :
    pool.Gave (used + others) pool' (used' + others) := by
  obtain ⟨nodes, given, rfl⟩ := h
  exact ⟨nodes, given, by omega⟩

/-- Giving nodes back is one way to keep the balance. -/
theorem Gave.balanced (h : pool.Gave used pool' used') : pool.Balanced used pool' used' := by
  obtain ⟨nodes, rfl, rfl⟩ := h
  induction nodes generalizing pool with
  | nil => exact .refl pool used'
  | cons node rest ih => exact (balanced_release pool node _).trans ih

end NodePool

namespace CallTree

open NodePool

variable {t t' : CallTree} {pool : NodePool} {h p c : NodeRef} {n : CallNode}

/-! ## The number of nodes -/

/-- The slots that are not vacant hold the nodes. -/
structure Counted (t : CallTree) : Prop where
  vacant_nodup : t.vacant.Nodup
  vacant_empty : ∀ i ∈ t.vacant, ∃ g, t.slots[i.toNat]? = some ⟨g, none⟩
  full : t.slots.toList.countP (·.node.isSome) + t.vacant.length = t.slots.size

/-- The size of a tree counts its filled slots. -/
theorem Counted.size_eq (ok : t.Counted) : t.size = t.slots.toList.countP (·.node.isSome) := by
  have full := ok.full
  unfold size
  omega

/-- Well-formed slots are counted slots. -/
theorem Slotted.counted (ok : t.Slotted) : t.Counted where
  vacant_nodup := ok.vacant_nodup
  vacant_empty := fun i hi => (ok.mem_vacant i).mp hi
  full := by
    have listed :
        t.slots.toList = (List.range t.slots.size).map fun i => (t.slots[i]?).getD default := by
      -- by index, because the handles are listed by it
      apply List.ext_getElem?
      intro i
      rcases Nat.lt_or_ge i t.slots.size with bound | beyond
      · simp [bound]
      · simp [beyond]
    have count : t.liveHandles.length = t.slots.toList.countP (·.node.isSome) := by
      rw [listed, List.countP_map, liveHandles, List.length_filterMap_eq_countP]
      apply List.countP_congr
      intro i hi
      have bound := List.mem_range.mp hi
      rcases hs : t.slots[i] with ⟨generation, _ | node⟩ <;> simp [occupant?, bound, hs]
    have total := length_liveHandles ok
    omega

/-- The number of full slots after one slot has changed. -/
theorem countP_set {slots : Array Slot} {i : Nat} {s : Slot} (there : slots[i]? = some s)
    (s' : Slot) :
    (slots.setIfInBounds i s').toList.countP (·.node.isSome) + (if s.node.isSome then 1 else 0) =
      slots.toList.countP (·.node.isSome) + (if s'.node.isSome then 1 else 0) := by
  rw [← Array.getElem?_toList] at there
  obtain ⟨bound, rfl⟩ := List.getElem?_eq_some_iff.mp there
  have before := (List.getElem_cons_eraseIdx_perm bound).countP_eq (·.node.isSome)
  have after := (List.set_perm_cons_eraseIdx bound s').countP_eq (·.node.isSome)
  rw [List.countP_cons] at before after
  rw [Array.toList_setIfInBounds]
  omega

theorem vacant_set {vacant : List UInt32} {slots : Array Slot} {i : Nat} {s' : Slot}
    (empty : ∀ j ∈ vacant, ∃ g, slots[j.toNat]? = some ⟨g, none⟩)
    (other : ∀ j ∈ vacant, j.toNat ≠ i) :
    ∀ j ∈ vacant, ∃ g, (slots.setIfInBounds i s')[j.toNat]? = some ⟨g, none⟩ := by
  intro j hj
  rw [Array.getElem?_setIfInBounds_ne (other j hj).symm]
  exact empty j hj

theorem Counted.fresh (ok : t.Counted) (live : t.get? h = some n) :
    ∀ i ∈ t.vacant, i.toNat ≠ h.index.toNat := by
  intro i hi same
  obtain ⟨g, empty⟩ := ok.vacant_empty i hi
  rw [same, get?_eq_some_iff.mp live] at empty
  simp at empty

/-- An update neither fills nor empties slots. -/
theorem Counted.update (ok : t.Counted) (h : NodeRef) (f : CallNode → CallNode) :
    (t.update h f).Counted := by
  unfold CallTree.update
  split
  · next n live =>
    refine ⟨ok.vacant_nodup, vacant_set ok.vacant_empty (ok.fresh live), ?_⟩
    have count := countP_set (get?_eq_some_iff.mp live) ⟨h.generation, some (f n)⟩
    have full := ok.full
    simp only [Option.isSome_some, if_true] at count
    simp only [Array.size_setIfInBounds]
    omega
  · exact ok

theorem nodes_update (t : CallTree) (h : NodeRef) (f : CallNode → CallNode) :
    (t.update h f).size = t.size := by
  unfold size
  rw [(thinned_update t h f).size, vacant_update]

/-- An emptied slot is one node less. -/
theorem Counted.vacate (ok : t.Counted) (live : t.get? h = some n) :
    (t.vacate h).Counted ∧ t.size = (t.vacate h).size + 1 := by
  have count := countP_set (get?_eq_some_iff.mp live) ⟨h.generation + 1, none⟩
  have full := ok.full
  have fresh := ok.fresh live
  simp only [Option.isSome_some, Option.isSome_none, if_true, Bool.false_eq_true, if_false] at count
  have emptied : (t.vacate h).Counted := by
    refine ⟨List.nodup_cons.mpr ⟨fun mem => fresh _ mem rfl, ok.vacant_nodup⟩, ?_, ?_⟩
    · intro i hi
      rcases List.mem_cons.mp hi with rfl | mem
      · have bound := (Array.getElem?_eq_some_iff.mp (get?_eq_some_iff.mp live)).1
        exact ⟨_, Array.getElem?_setIfInBounds_self_of_lt bound⟩
      · exact vacant_set ok.vacant_empty fresh i mem
    · simp only [CallTree.vacate, Array.size_setIfInBounds, List.length_cons]
      omega
  refine ⟨emptied, ?_⟩
  rw [ok.size_eq, emptied.size_eq]
  exact count.symm

/-- A filled slot is one node more, whether it is new or was vacant. -/
theorem Counted.insert (ok : t.Counted) (n : CallNode) :
    (t.insert n).2.Counted ∧ (t.insert n).2.size = t.size + 1 := by
  have full := ok.full
  have filled : (t.insert n).2.Counted ∧ (t.insert n).2.slots.toList.countP (·.node.isSome) =
      t.slots.toList.countP (·.node.isSome) + 1 := by
    unfold CallTree.insert
    split
    -- the first vacant slot is filled, and no other one has its index
    · next index vacant free =>
      obtain ⟨g, empty⟩ := ok.vacant_empty index (free ▸ List.mem_cons_self ..)
      have distinct := List.nodup_cons.mp (free ▸ ok.vacant_nodup)
      have count := countP_set empty ⟨g, some n⟩
      simp only [Option.isSome_some, Option.isSome_none, if_true, Bool.false_eq_true, if_false]
        at count
      rw [free, List.length_cons] at full
      simp only [empty, Option.map_some, Option.getD_some]
      refine ⟨⟨distinct.2, vacant_set ?_ ?_, ?_⟩, count⟩
      · exact fun i hi => ok.vacant_empty i (free ▸ List.mem_cons_of_mem _ hi)
      · exact fun i hi same => distinct.1 (UInt32.toNat_inj.mp same ▸ hi)
      · simp only [Array.size_setIfInBounds]
        omega
    -- a slot is added at the end
    · next none =>
      rw [none, List.length_nil] at full
      refine ⟨⟨none ▸ List.nodup_nil, ?_, ?_⟩, by simp⟩
      · simp [none]
      · simp only [none, Array.toList_push, List.countP_append, Array.size_push, List.length_nil]
        simpa using full
  exact ⟨filled.1, by rw [filled.1.size_eq, ok.size_eq, filled.2]⟩

/-! ## Nodes that are given back -/

/-- A removal gives back as many nodes as the tree loses. -/
theorem gave_remove (t : CallTree) (pool : NodePool) (pending : List NodeRef) (ok : t.Counted) :
    (t.remove pool pending).1.Counted ∧
    pool.Gave t.size (t.remove pool pending).2 (t.remove pool pending).1.size := by
  induction t, pool, pending using remove.induct with
  | case1 t pool =>
    rw [remove_nil]
    exact ⟨ok, .refl pool t.size⟩
  | case2 t pool h pending n live ih =>
    rw [remove_live live]
    rcases ok.vacate live with ⟨emptied, size⟩
    rcases ih emptied with ⟨counted, gave⟩
    rw [size]
    exact ⟨counted, (gave_release pool n _).trans gave⟩
  | case3 t pool h pending gone ih =>
    rw [remove_gone gone]
    exact ih ok

/-- The fast children of a node are given back with all that is below them. -/
theorem gave_sift (threshold : UInt64) (cs : List NodeRef) (t : CallTree) (pool : NodePool)
    (ok : t.Counted) :
    (sift threshold cs t pool).2.2.1.Counted ∧
    pool.Gave t.size (sift threshold cs t pool).2.2.2 (sift threshold cs t pool).2.2.1.size := by
  induction cs generalizing t pool with
  | nil => exact ⟨ok, .refl pool t.size⟩
  | cons c rest ih =>
    unfold sift
    split
    · exact ih t pool ok
    · split
      -- a fast call goes with all that is below it, and the rest is sifted in what is left
      · rcases gave_remove t pool [c] ok with ⟨counted, removed⟩
        rcases ih _ (t.remove pool [c]).2 counted with ⟨counted', sifted⟩
        exact ⟨counted', removed.trans sifted⟩
      · exact ih t pool ok

/-- A visit of a trim gives back as many nodes as the tree loses. -/
theorem gave_trimNode (t : CallTree) (pool : NodePool) (threshold : UInt64) (h : NodeRef)
    (ok : t.Counted) :
    (t.trimNode pool threshold h).2.1.Counted ∧
    pool.Gave t.size (t.trimNode pool threshold h).2.2 (t.trimNode pool threshold h).2.1.size := by
  unfold trimNode
  split
  · exact ⟨ok, .refl pool t.size⟩
  next node live =>
    rcases gave_sift threshold node.children (t.update h ({ · with children := [] })) pool
      (ok.update h _) with ⟨counted, sifted⟩
    rw [nodes_update] at sifted
    dsimp only
    rw [nodes_update]
    exact ⟨counted.update h _, sifted⟩

/-- So does a trim from any list of pending nodes, by induction on its fuel. -/
theorem gave_trimPending (threshold : UInt64) (fuel : Nat) (pending : List NodeRef) (t : CallTree)
    (pool : NodePool) (ok : t.Counted) :
    (trimPending threshold fuel pending t pool).1.Counted ∧
    pool.Gave t.size (trimPending threshold fuel pending t pool).2
      (trimPending threshold fuel pending t pool).1.size := by
  induction fuel generalizing t pool pending with
  | zero => exact ⟨ok, .refl pool t.size⟩
  | succ fuel ih =>
    cases pending with
    | nil => exact ⟨ok, .refl pool t.size⟩
    | cons h pending =>
      rcases gave_trimNode t pool threshold h ok with ⟨counted, trimmed⟩
      rcases ih ((t.trimNode pool threshold h).1.reverse ++ pending) _
        (t.trimNode pool threshold h).2.2 counted with ⟨counted', rest⟩
      exact ⟨counted', trimmed.trans rest⟩

theorem gave_removeCallsFasterThan (t : CallTree) (pool : NodePool) (threshold : UInt64)
    (ok : t.Counted) :
    (t.removeCallsFasterThan pool threshold).1.Counted ∧
    pool.Gave t.size (t.removeCallsFasterThan pool threshold).2
      (t.removeCallsFasterThan pool threshold).1.size :=
  gave_trimPending threshold t.slots.size [t.root] t pool ok

/-- Giving back the nodes of some slots, one slot after the other. -/
theorem gave_slots (slots : List Slot) (pool : NodePool) :
    pool.Gave (slots.countP (·.node.isSome))
      (slots.foldl (fun pool slot => match slot.node with
        | some node => pool.release node
        | none => pool) pool) 0 := by
  induction slots generalizing pool with
  | nil => exact .refl pool 0
  | cons slot rest ih =>
    rcases slot with ⟨generation, _ | node⟩
    · rw [List.countP_cons_of_neg (by simp)]
      exact ih pool
    · rw [List.countP_cons_of_pos (by simp)]
      exact (gave_release pool node _).trans (ih _)

/-- A tree that is recycled gives all its nodes back. -/
theorem gave_recycle (ok : t.Counted) (pool : NodePool) : pool.Gave t.size (t.recycle pool) 0 := by
  rw [ok.size_eq]
  exact gave_slots t.slots.toList pool

/-- A tree that is recycled gives all of its nodes back. -/
theorem balanced_recycle (ok : t.Slotted) (pool : NodePool) :
    pool.Balanced t.size (t.recycle pool) 0 :=
  (gave_recycle ok.counted pool).balanced

/-- A node that is closed stays where it is, or it is removed with all that is below it. -/
theorem gave_close (ok : t.Counted) (pool : NodePool) (now : Reading) (h : NodeRef)
    (signature : Option String) (minimum : UInt64) :
    (t.close pool now h signature minimum).2.1.Counted ∧
    pool.Gave t.size (t.close pool now h signature minimum).2.2
      (t.close pool now h signature minimum).2.1.size := by
  unfold close
  split
  · exact ⟨ok, .refl pool t.size⟩
  next node live =>
    have closed := ok.update h fun _ => node.closedAt now signature
    have same := nodes_update t h fun _ => node.closedAt now signature
    dsimp only
    split
    · exact ⟨closed, same ▸ .refl pool _⟩
    · split
      -- a call that was too fast is detached, which gives nothing back, and then removed
      · rcases gave_remove _ pool [h] (closed.update _ _) with ⟨counted, removed⟩
        rw [nodes_update, same] at removed
        exact ⟨counted, removed⟩
      · split
        · exact ⟨closed, same ▸ .refl pool _⟩
        · refine ⟨closed.update _ _, ?_⟩
          rw [nodes_update, same]
          exact .refl pool _

/-! ## Nodes that are taken -/

/-- A new tree has its root in use. -/
theorem balanced_begin (blank : pool.AllBlank) (now : Reading) (signature : String) :
    pool.Balanced 0 (CallTree.begin pool now signature).2
      (CallTree.begin pool now signature).1.size := by
  have one : (CallTree.begin pool now signature).1.size = 1 := by
    rw [(begin_spec blank now signature).1]
    rfl
  rw [one]
  exact balanced_acquire pool 0

theorem Filled.nodes (filled : Filled t t' h n) (ok : t.Slotted) : t'.size = t.size + 1 := by
  have full := ok.counted.full
  unfold CallTree.size
  rcases filled.size with ⟨slots, vacant⟩ | ⟨none, none', slots⟩
  · omega
  · rw [none, none', slots]
    rfl

/-- A graft has one more node in use, which was taken from the pool. -/
theorem balanced_grafted {pn' cn : CallNode} (ok : t.Slotted) (graft : Grafted t p c pn' cn t')
    (pool : NodePool) : pool.Balanced t.size pool.acquire.2 t'.size := by
  rcases graft.filled with ⟨mid, f, filled, rfl⟩
  rw [nodes_update, filled.nodes ok]
  exact balanced_acquire pool t.size

end CallTree

end CallProfiler
