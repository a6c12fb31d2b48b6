import CallProfiler.Proofs.Tree.Accounting

/-!
# Proofs.Tree.Ledger: what the counters of a pool say

`NodePool.Balanced` relates the pool to the nodes in use. Here the counters themselves are read: how
many nodes were made, how many were handed out again, and how many wait. This needs to know of every
operation how many nodes it takes.

* `NodePool.Dealt` — an operation either takes one node or gives some back; `CallTree.edit_dealt` says
  which, also of changes that are refused
* `NodePool.Ledger` — the invariant of the counters, kept by whatever is dealt (`Ledger.dealt`). The
  number of nodes made is the largest number that was in use at once, because a node is made only
  while none waits

Trees may have any number of slots: that they are `Counted` is all that is used.
-/

namespace CallProfiler

/-! ## Operations and the nodes they take -/

namespace NodePool

/-- What an operation does to the pool and to the number of nodes in use: it takes one node, or it
gives back any number of them. The number that it takes is the third argument. -/
inductive Dealt (pool : NodePool) (used : Nat) : Nat → NodePool → Nat → Prop where
  | took : Dealt pool used 1 pool.acquire.2 (used + 1)
  | gave {pool' : NodePool} {used' : Nat} : pool.Gave used pool' used' → Dealt pool used 0 pool' used'

variable {pool pool' : NodePool} {pooling : Bool} {used used' taken peak k : Nat}

theorem Dealt.idle (pool : NodePool) (used : Nat) : pool.Dealt used 0 pool used :=
  .gave (.refl pool used)

/-- Other nodes may be in use meanwhile. -/
theorem Dealt.beside (h : pool.Dealt used k pool' used') (others : Nat) :
    pool.Dealt (used + others) k pool' (used' + others) := by
  cases h with
  | took =>
    rw [Nat.add_right_comm]
    exact .took
  | gave back => exact .gave (back.beside others)

/-- What is dealt to a part is dealt to the whole. -/
theorem Dealt.within {part part' : Nat} (h : pool.Dealt part k pool' part') (le : part ≤ used)
    (same : used' + part = used + part') : pool.Dealt used k pool' used' := by
  have whole := h.beside (used - part)
  have before : part + (used - part) = used := by omega
  have after : part' + (used - part) = used' := by omega
  rwa [before, after] at whole

/-- The counters of a pool that is switched on or off: `used` nodes are in use, `taken` have been
handed out so far, and `peak` is the largest number that was in use at once. -/
structure Ledger (pool : NodePool) (pooling : Bool) (used taken peak : Nat) : Prop where
  enabled : pool.enabled = pooling
  blank : pool.AllBlank
  taken : pool.allocated.toNat + pool.reused.toNat = taken
  on : pooling = true → pool.allocated.toNat = pool.available + used ∧ pool.allocated.toNat = peak
  off : pooling = false → pool.free = [] ∧ pool.reused = 0

theorem toNat_succ {x : UInt64} (small : x.toNat + 1 < 2 ^ 64) : (x + 1).toNat = x.toNat + 1 := by
  rw [UInt64.toNat_add]
  exact Nat.mod_eq_of_lt small

/-- A node that is taken is reused or made; either way the ledger counts it. -/
theorem Ledger.acquire (ledger : pool.Ledger pooling used taken peak) (few : taken + 1 < 2 ^ 64) :
    pool.acquire.2.Ledger pooling (used + 1) (taken + 1) (max (used + 1) peak) := by
  have blank := ledger.blank.acquire_snd
  have total := ledger.taken
  obtain rfl := ledger.enabled
  rcases pool with ⟨enabled, free, allocated, reused⟩
  dsimp only at total
  cases enabled with
  | false =>
    refine ⟨rfl, blank, ?_, fun on => absurd on (by simp), fun _ => ledger.off rfl⟩
    simp only [NodePool.acquire]
    rw [toNat_succ (by omega)]
    omega
  | true =>
    rcases ledger.on rfl with ⟨made, most⟩
    simp only [available] at made most
    cases free with
    -- none waits, so as many nodes were made as are in use: the new one is a new peak
    | nil =>
      rw [List.length_nil] at made
      refine ⟨rfl, blank, ?_, fun _ => ⟨?_, ?_⟩, fun off => absurd off (by simp)⟩
      all_goals
        simp only [NodePool.acquire, available, List.length_nil]
        rw [toNat_succ (by omega)]
        omega
    -- one waits, so there were more in use before
    | cons node free =>
      rw [List.length_cons] at made
      refine ⟨rfl, blank, ?_, fun _ => ⟨?_, ?_⟩, fun off => absurd off (by simp)⟩
      · simp only [NodePool.acquire]
        rw [toNat_succ (by omega)]
        omega
      all_goals
        simp only [NodePool.acquire, available]
        omega

/-- A node that comes back waits in the pool, if pooling is on. -/
theorem Ledger.release (ledger : pool.Ledger pooling (used + 1) taken peak) (node : CallNode) :
    (pool.release node).Ledger pooling used taken peak := by
  have blank := ledger.blank.release node
  obtain rfl := ledger.enabled
  rcases pool with ⟨enabled, free, allocated, reused⟩
  cases enabled with
  | false => exact ⟨rfl, blank, ledger.taken, fun on => absurd on (by simp), ledger.off⟩
  | true =>
    rcases ledger.on rfl with ⟨made, most⟩
    refine ⟨rfl, blank, ledger.taken, fun _ => ⟨?_, most⟩, fun off => absurd off (by simp)⟩
    simp only [NodePool.release, available, if_true, List.length_cons] at made ⊢
    omega

/-- Nodes that come back one by one leave what is taken and the peak alone. -/
theorem Ledger.gave (ledger : pool.Ledger pooling used taken peak)
    (back : pool.Gave used pool' used') : pool'.Ledger pooling used' taken peak := by
  obtain ⟨nodes, rfl, rfl⟩ := back
  induction nodes generalizing pool with
  | nil => exact ledger
  | cons node rest ih => exact ih (ledger.release node)

/-- The ledger is kept by whatever is dealt. -/
theorem Ledger.dealt (ledger : pool.Ledger pooling used taken peak)
    (h : pool.Dealt used k pool' used') (few : taken + k < 2 ^ 64) :
    pool'.Ledger pooling used' (taken + k) (max used' peak) := by
  cases h with
  | took => exact ledger.acquire few
  | gave back =>
    have kept := ledger.gave back
    obtain ⟨nodes, -, rfl⟩ := back
    refine ⟨kept.enabled, kept.blank, kept.taken, fun on => ?_, kept.off⟩
    rcases kept.on on with ⟨made, most⟩
    -- the nodes that have come back were in use at once with the others
    rcases ledger.on on with ⟨before, -⟩
    exact ⟨made, by omega⟩

end NodePool

/-! ## Trees -/

namespace CallTree

open NodePool

variable {t : CallTree} {pool : NodePool} {h : NodeRef} {n : CallNode}

/-- How many nodes a change takes: a new call takes one, unless the handle it goes below is gone. -/
def takes (t : CallTree) : TreeEdit → Nat
  | .openChild parent _ | .addIoCall parent _ _ => if (t.get? parent).isSome then 1 else 0
  | .close .. | .setSignature .. | .trim _ => 0

/-- A node that is put in leaves the others where they are, however many slots there are. -/
theorem Counted.insert_live (ok : t.Counted) (live : t.get? h = some n) (node : CallNode) :
    (t.insert node).2.get? h = some n := by
  have there := get?_eq_some_iff.mp live
  apply get?_eq_some_iff.mpr
  unfold CallTree.insert
  split
  · next index vacant free =>
    have fresh := ok.fresh live index (free ▸ List.mem_cons_self ..)
    dsimp only
    rw [Array.getElem?_setIfInBounds_ne fresh]
    exact there
  · have bound := (Array.getElem?_eq_some_iff.mp there).1
    dsimp only
    rw [Array.getElem?_push_lt bound, ← Array.getElem?_eq_getElem bound]
    exact there

/-- A new tree takes one node. -/
theorem begin_dealt (pool : NodePool) (now : Reading) (signature : String) :
    (CallTree.begin pool now signature).1.Counted ∧
    pool.Dealt 0 1 (CallTree.begin pool now signature).2 (CallTree.begin pool now signature).1.size := by
  have empty : (⟨#[], [], ⟨0, 0⟩⟩ : CallTree).Counted := ⟨List.nodup_nil, by simp, rfl⟩
  rcases empty.insert (pool.acquire.1.begun signature now none) with ⟨counted, size⟩
  refine ⟨⟨counted.vacant_nodup, counted.vacant_empty, counted.full⟩, ?_⟩
  have one : (CallTree.begin pool now signature).1.size = 0 + 1 := size
  rw [one]
  exact .took

/-- A call takes a node unless it is refused. -/
theorem openChild_dealt (ok : t.Counted) (pool : NodePool) (now : Reading) (parent : NodeRef)
    (signature : String) :
    (t.openChild pool now parent signature).2.1.Counted ∧
    pool.Dealt t.size (t.takes (.openChild parent signature))
      (t.openChild pool now parent signature).2.2 (t.openChild pool now parent signature).2.1.size := by
  cases live : t.get? parent with
  | none =>
    simp only [openChild, takes, live]
    exact ⟨ok, .idle pool t.size⟩
  | some node =>
    rcases ok.insert (pool.acquire.1.begun signature now (some parent)) with ⟨counted, size⟩
    simp only [openChild, takes, live, ok.insert_live live, nodes_update, size]
    exact ⟨counted.update _ _, .took⟩

/-- A measured call takes a node unless it is refused. -/
theorem addIoCall_dealt (ok : t.Counted) (pool : NodePool) (now : Reading) (parent : NodeRef)
    (description : String) (duration : UInt64) :
    (t.addIoCall pool now parent description duration).2.1.Counted ∧
    pool.Dealt t.size (t.takes (.addIoCall parent description duration))
      (t.addIoCall pool now parent description duration).2.2
      (t.addIoCall pool now parent description duration).2.1.size := by
  cases live : t.get? parent with
  | none =>
    simp only [addIoCall, takes, live]
    exact ⟨ok, .idle pool t.size⟩
  | some node =>
    rcases ok.insert (pool.acquire.1.measured description duration now parent) with ⟨counted, size⟩
    simp only [addIoCall, takes, live, ok.insert_live live, nodes_update, size]
    exact ⟨counted.update _ _, .took⟩

/-- A change takes as many nodes as it should, also when it is refused. -/
theorem edit_dealt (ok : t.Counted) (pool : NodePool) (now : Reading) (change : TreeEdit) :
    (t.edit pool now change).2.1.Counted ∧
    pool.Dealt t.size (t.takes change) (t.edit pool now change).2.2 (t.edit pool now change).2.1.size := by
  cases change with
  | openChild parent signature => exact openChild_dealt ok pool now parent signature
  | addIoCall parent description duration =>
    exact addIoCall_dealt ok pool now parent description duration
  | close node signature minimum =>
    rcases gave_close ok pool now node signature minimum with ⟨counted, gave⟩
    exact ⟨counted, .gave gave⟩
  | setSignature node signature =>
    cases live : t.get? node with
    | none =>
      simp only [edit, setSignature, live]
      exact ⟨ok, .idle pool t.size⟩
    | some _ =>
      simp only [edit, setSignature, live, nodes_update]
      exact ⟨ok.update _ _, .idle pool t.size⟩
  | trim threshold =>
    rcases gave_removeCallsFasterThan t pool threshold ok with ⟨counted, gave⟩
    exact ⟨counted, .gave gave⟩

end CallTree

end CallProfiler
