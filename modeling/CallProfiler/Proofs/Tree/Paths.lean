import CallProfiler.Proofs.Tree.Edits

/-!
# Proofs.Tree.Paths: the ways up and down a well-formed tree

The readings of a tree count their steps. In a well-formed tree the count never runs out: no path and
no tour visits a node twice, and there are at most as many nodes as slots.

* `ancestors_cons` — the ancestors of a node are its parent and the ancestors of its parent
* `mem_ancestors_iff` — they are exactly the nodes above it, up to the root
* `mem_preorder` and `nodup_preorder` — the preorder of a node lists what lies below it, each node once

The two induction principles `Linked.upward` and `Linked.downward` follow the links: a statement about
a node may assume the same of its parent, or of all of its children.
-/

namespace CallProfiler.CallTree

variable {t t' : CallTree} {a x p h : NodeRef} {n : CallNode} {l l' ps : List NodeRef}

/-- Live handles without repetitions are at most as many as the nodes. -/
theorem Slotted.length_le (ok : t.Slotted) (nodup : l.Nodup) (live : ∀ x ∈ l, t.Live x) :
    l.length ≤ t.slots.size := by
  have sub : l ⊆ t.liveHandles := fun x hx => (mem_liveHandles ok).mpr (live x hx)
  have le := nodup.length_le_of_subset sub
  have count := length_liveHandles ok
  omega

/-! ## Upwards -/

/-- Induction from the callers to the calls: what holds of a node if it holds of its parent holds of
all. -/
theorem Linked.upward (ok : t.Linked) {motive : NodeRef → Prop}
    (step : ∀ x n, t.get? x = some n → (∀ p, n.parent = some p → motive p) → motive x)
    (live : t.Live x) : motive x := by
  have acyclic := ok.ranked
  rcases acyclic with ⟨rank, ranked⟩
  induction hr : rank x using Nat.strongRecOn generalizing x with
  | ind r ih =>
    rcases live with ⟨n, hn⟩
    apply step x n hn
    intro p hp
    have lt := ranked hn hp
    exact ih (rank p) (by omega) (ok.below_of_parent hn hp).live_left rfl

/-- The parents of a node, one above the other up to the root. -/
inductive Path (t : CallTree) : NodeRef → List NodeRef → Prop where
  | root {x : NodeRef} {n : CallNode} : t.get? x = some n → n.parent = none → t.Path x []
  | up {x p : NodeRef} {n : CallNode} {l : List NodeRef} : t.get? x = some n →
      n.parent = some p → t.Path p l → t.Path x (p :: l)

/-- The way up from every node ends. -/
theorem Linked.exists_path (ok : t.Linked) (live : t.Live x) : ∃ l, t.Path x l := by
  apply ok.upward ?_ live
  intro x n hn above
  cases parent : n.parent with
  | none => exact ⟨[], .root hn parent⟩
  | some p =>
    rcases above p parent with ⟨l, path⟩
    exact ⟨p :: l, .up hn parent path⟩

/-- The way up passes exactly what the node lies below. -/
theorem Path.mem_iff (ok : t.Linked) (path : t.Path x l) : a ∈ x :: l ↔ t.Below a x := by
  induction path with
  | @root x n hn parent =>
    rw [List.mem_singleton]
    constructor
    · intro same
      rw [same]
      exact .self hn
    · intro below
      have isRoot := (ok.parent_none_iff hn).mp parent
      rw [isRoot] at below ⊢
      exact ok.eq_root_of_below_root below
  | @up x p n l hn parent _ ih =>
    rw [List.mem_cons, ih]
    constructor
    · intro above
      rcases above with same | above
      · rw [same]
        exact .self hn
      · exact above.trans (ok.below_of_parent hn parent)
    · intro below
      rcases ok.below_parent below hn with same | ⟨q, hq, above⟩
      · exact Or.inl same.symm
      · have same := Option.mem_unique parent hq
        exact Or.inr (same ▸ above)

/-- No node is passed twice, because parents have smaller ranks. -/
theorem Path.nodup (ok : t.Linked) (path : t.Path x l) : (x :: l).Nodup := by
  induction path with
  | root _ _ => exact List.nodup_singleton _
  | @up x p n l hn parent above ih =>
    refine List.nodup_cons.mpr ⟨?_, ih⟩
    -- a node that returned above itself would lie below its own child
    intro again
    have below := (above.mem_iff ok).mp again
    have up := ok.below_of_parent hn parent
    have same := ok.below_antisymm below up
    obtain ⟨rank, ranked⟩ := ok.ranked
    have lt := ranked hn parent
    rw [same] at lt
    omega

/-- The way up ends at the root. -/
theorem Path.last (ok : t.Linked) (path : t.Path x l) : (x :: l).getLast? = some t.root := by
  induction path with
  | root hn parent => rw [(ok.parent_none_iff hn).mp parent, List.getLast?_singleton]
  | up _ _ _ ih => rw [List.getLast?_cons_cons, ih]

/-- With fuel for its length, the chain of parents is the whole way up. -/
theorem Path.chain (path : t.Path x l) {fuel : Nat} (enough : l.length ≤ fuel) :
    t.parentChain fuel x = l := by
  induction path generalizing fuel with
  | root hn parent =>
    cases fuel with
    | zero => rfl
    | succ fuel => simp only [parentChain, parent?, hn, Option.bind_some, parent]
  | up hn parent _ ih =>
    cases fuel with
    | zero => simp at enough
    | succ fuel =>
      have rest := ih (Nat.le_of_succ_le_succ enough)
      simp only [parentChain, parent?, hn, Option.bind_some, parent, rest]

/-- A way up is shorter than the number of slots, which is why that is fuel enough. -/
theorem Path.length_lt (ok : t.WellFormed) (path : t.Path x l) : l.length < t.slots.size := by
  refine ok.toSlotted.length_le (path.nodup ok.toLinked) ?_
  intro y hy
  exact ((path.mem_iff ok.toLinked).mp hy).live_left

/-- Any count that is at least the number of slots gives all ancestors. -/
theorem WellFormed.path_ancestors (ok : t.WellFormed) (live : t.Live x) :
    t.Path x (t.ancestors x) := by
  rcases ok.toLinked.exists_path live with ⟨l, path⟩
  have le := Nat.le_of_lt (path.length_lt ok)
  have all : t.ancestors x = l := path.chain le
  rw [all]
  exact path

theorem parentChain_gone (gone : t.get? x = none) (fuel : Nat) : t.parentChain fuel x = [] := by
  cases fuel with
  | zero => rfl
  | succ fuel => simp only [parentChain, parent?, gone, Option.bind_none]

theorem ancestors_root (ok : t.WellFormed) : t.ancestors t.root = [] := by
  rcases ok.root_live with ⟨n, hn, parent⟩
  exact (Path.root hn parent).chain (Nat.zero_le _)

theorem ancestors_cons (ok : t.WellFormed) (hx : t.get? x = some n) (hp : n.parent = some p) :
    t.ancestors x = p :: t.ancestors p := by
  have live := (ok.toLinked.below_of_parent hx hp).live_left
  have path := Path.up hx hp (ok.path_ancestors live)
  have lt := path.length_lt ok
  exact path.chain (Nat.le_of_lt lt)

/-- The ancestors of a node are what it lies strictly below. -/
theorem mem_ancestors_iff (ok : t.WellFormed) (live : t.Live x) :
    a ∈ x :: t.ancestors x ↔ t.Below a x :=
  (ok.path_ancestors live).mem_iff ok.toLinked

/-- A way up stays if the nodes on it keep their parents. -/
theorem Path.congr (path : t.Path x l)
    (same : ∀ y ∈ x :: l, ∀ n, t.get? y = some n → ∃ n', t'.get? y = some n' ∧ n'.parent = n.parent) :
    t'.Path x l := by
  induction path with
  | @root x n hx parent =>
    rcases same x (List.mem_cons_self ..) n hx with ⟨n', hx', sameParent⟩
    exact .root hx' (sameParent.trans parent)
  | @up x p n l hx parent _ ih =>
    rcases same x (List.mem_cons_self ..) n hx with ⟨n', hx', sameParent⟩
    exact .up hx' (sameParent.trans parent) (ih fun y hy => same y (List.mem_cons_of_mem _ hy))

theorem Path.ancestors (ok : t.WellFormed) (path : t.Path x l) : t.ancestors x = l :=
  path.chain (Nat.le_of_lt (path.length_lt ok))

/-- What lies above a node stays there while the nodes above it keep their parents. -/
theorem above_congr (ok : t.WellFormed) (ok' : t'.WellFormed) (live : t.Live x)
    (same : ∀ y n, t.Below y x → t.get? y = some n →
      ∃ n', t'.get? y = some n' ∧ n'.parent = n.parent) :
    (∀ a, t'.Below a x ↔ t.Below a x) ∧ t'.ancestors x = t.ancestors x := by
  rcases ok.toLinked.exists_path live with ⟨l, path⟩
  have path' : t'.Path x l :=
    path.congr fun y hy n => same y n ((path.mem_iff ok.toLinked).mp hy)
  exact ⟨fun a => (path'.mem_iff ok'.toLinked).symm.trans (path.mem_iff ok.toLinked),
    (path'.ancestors ok').trans (path.ancestors ok).symm⟩

/-- The parent relation of a linked tree has no infinite chain. -/
theorem Linked.wellFounded_parent (ok : t.Linked) :
    WellFounded fun p h => t.parent? h = some p := by
  obtain ⟨rank, ranked⟩ := ok.ranked
  refine Subrelation.wf ?_ (measure rank).wf
  intro p h hp
  rcases Option.bind_eq_some_iff.mp hp with ⟨n, hn, parent⟩
  exact ranked hn parent

/-! ## Downwards -/

/-- Induction from the calls to their callers, the other way round. -/
theorem WellFormed.downward (ok : t.WellFormed) {motive : NodeRef → Prop}
    (step : ∀ x n, t.get? x = some n → (∀ c ∈ n.children, motive c) → motive x)
    (live : t.Live x) : motive x := by
  -- the slots bound the depth, so the room below a node shrinks on the way down
  induction room : t.slots.size - (t.ancestors x).length using Nat.strongRecOn generalizing x with
  | ind r ih =>
    rcases live with ⟨n, hn⟩
    apply step x n hn
    intro c hc
    rcases ok.child_live hn hc with ⟨cn, hcn, parent⟩
    have deeper := ancestors_cons ok hcn parent
    have bound := (ok.path_ancestors ⟨cn, hcn⟩).length_lt ok
    rw [deeper, List.length_cons] at bound
    refine ih (t.slots.size - (t.ancestors c).length) ?_ ⟨cn, hcn⟩ rfl
    rw [deeper, List.length_cons]
    omega

/-- A tour through pending handles, all of them live, and through what is below them. -/
inductive Tour (t : CallTree) : List NodeRef → List NodeRef → Prop where
  | nil : t.Tour [] []
  | visit {h : NodeRef} {n : CallNode} {ps l : List NodeRef} : t.get? h = some n →
      t.Tour (n.children ++ ps) l → t.Tour (h :: ps) (h :: l)

theorem Tour.append {qs : List NodeRef} (tour : t.Tour ps l) (next : t.Tour qs l') :
    t.Tour (ps ++ qs) (l ++ l') := by
  induction tour with
  | nil => exact next
  | visit hn _ ih =>
    rw [List.append_assoc] at ih
    exact .visit hn ih

/-- Tours of single handles make a tour of the list. -/
theorem exists_tour_of_all (each : ∀ x ∈ ps, ∃ l, t.Tour [x] l) : ∃ l, t.Tour ps l := by
  induction ps with
  | nil => exact ⟨[], .nil⟩
  | cons x ps ih =>
    rcases each x (List.mem_cons_self ..) with ⟨first, tour⟩
    rcases ih fun y hy => each y (List.mem_cons_of_mem _ hy) with ⟨rest, next⟩
    exact ⟨first ++ rest, tour.append next⟩

/-- The walk from every node ends, by induction from the calls to their callers. -/
theorem WellFormed.exists_tour (ok : t.WellFormed) (live : t.Live x) : ∃ l, t.Tour [x] l := by
  apply ok.downward ?_ live
  intro x n hn each
  rcases exists_tour_of_all each with ⟨l, tour⟩
  refine ⟨x :: l, .visit hn ?_⟩
  rw [List.append_nil]
  exact tour

/-- A tour visits exactly what lies at or below its pending handles. -/
theorem Tour.mem_iff (ok : t.Linked) (tour : t.Tour ps l) : x ∈ l ↔ ∃ p ∈ ps, t.Below p x := by
  induction tour with
  | nil => simp
  | @visit h n ps l hn _ ih =>
    rw [List.mem_cons, ih]
    -- a node below the first handle is that handle or lies below one of its children
    constructor
    · intro found
      rcases found with same | ⟨p, hp, below⟩
      · rw [same]
        exact ⟨h, List.mem_cons_self .., .self hn⟩
      · rcases List.mem_append.mp hp with hc | hp
        · rcases ok.child_live hn hc with ⟨cn, hcn, -⟩
          have step : t.Below h p := (Below.self hn).child hn hc hcn
          exact ⟨h, List.mem_cons_self .., step.trans below⟩
        · exact ⟨p, List.mem_cons_of_mem _ hp, below⟩
    · intro found
      rcases found with ⟨p, hp, below⟩
      rcases List.mem_cons.mp hp with same | hp
      · rw [same] at below
        rcases below.eq_or_below_child hn with same | ⟨c, hc, below⟩
        · exact Or.inl same
        · exact Or.inr ⟨c, List.mem_append_left _ hc, below⟩
      · exact Or.inr ⟨p, List.mem_append_right _ hp, below⟩

/-- A tour of handles with nothing below them in common visits no node twice. -/
theorem Tour.nodup (ok : t.Linked) (tour : t.Tour ps l)
    (apart : ps.Pairwise fun p q => ∀ y, t.Below p y → ¬ t.Below q y) : l.Nodup := by
  induction tour with
  | nil => exact List.nodup_nil
  | @visit h n ps l hn rest ih =>
    rcases List.pairwise_cons.mp apart with ⟨aparth, apart⟩
    have child : ∀ c ∈ n.children, t.Below h c := by
      intro c hc
      rcases ok.child_live hn hc with ⟨cn, hcn, -⟩
      exact (Below.self hn).child hn hc hcn
    -- the children are apart from each other, and from the handles that were pending before
    refine List.nodup_cons.mpr ⟨?_, ih (List.pairwise_append.mpr ⟨?_, apart, ?_⟩)⟩
    · intro again
      rcases (rest.mem_iff ok).mp again with ⟨p, hp, below⟩
      rcases List.mem_append.mp hp with hc | hp
      · exact ok.not_below_child hn hc below
      · exact aparth p hp h (.self hn) below
    · refine (ok.children_nodup hn).imp_of_mem ?_
      intro c d hc hd other y below belowd
      exact other (ok.below_children_unique hn hc hd below belowd)
    · intro c hc q hq y below belowq
      exact aparth q hq y ((child c hc).trans below) belowq

/-- With fuel for its length, the walk is the whole tour. -/
theorem Tour.visit_eq (tour : t.Tour ps l) {fuel : Nat} (enough : l.length ≤ fuel) :
    t.visit fuel ps = l := by
  induction tour generalizing fuel with
  | nil => cases fuel <;> rfl
  | visit hn _ ih =>
    cases fuel with
    | zero => simp at enough
    | succ fuel =>
      have rest := ih (Nat.le_of_succ_le_succ enough)
      simp only [CallTree.visit, hn, rest]

/-- Any count that is at least the number of slots gives the whole preorder, which is a tour. -/
theorem WellFormed.tour_preorder (ok : t.WellFormed) (live : t.Live h) {fuel : Nat}
    (enough : t.slots.size ≤ fuel) :
    t.visit fuel [h] = t.preorder h ∧ t.Tour [h] (t.preorder h) ∧ (t.preorder h).Nodup := by
  rcases ok.exists_tour live with ⟨l, tour⟩
  have nodup := tour.nodup ok.toLinked (List.pairwise_singleton ..)
  have bound : l.length ≤ t.slots.size := by
    refine ok.toSlotted.length_le nodup ?_
    intro x hx
    rcases (tour.mem_iff ok.toLinked).mp hx with ⟨p, -, below⟩
    exact below.live_right
  have all : t.preorder h = l := tour.visit_eq bound
  rw [all]
  exact ⟨tour.visit_eq (Nat.le_trans bound enough), tour, nodup⟩

/-- The preorder of a node lists exactly what lies at or below it. -/
theorem mem_preorder (ok : t.WellFormed) (live : t.Live h) : x ∈ t.preorder h ↔ t.Below h x := by
  have tour := (ok.tour_preorder live (Nat.le_refl _)).2.1
  rw [tour.mem_iff ok.toLinked]
  simp

/-- The preorder of the root lists exactly the nodes of the tree. -/
theorem mem_preorder_root (ok : t.WellFormed) : x ∈ t.preorder t.root ↔ t.Live x := by
  rw [mem_preorder ok ok.toLinked.live_root]
  exact ⟨Below.live_right, ok.toLinked.root_below⟩

/-- No preorder lists a node twice. -/
theorem nodup_preorder (ok : t.WellFormed) (live : t.Live h) : (t.preorder h).Nodup :=
  (ok.tour_preorder live (Nat.le_refl _)).2.2

/-- The number of nodes is the length of the preorder of the root. -/
theorem size_eq_length_preorder (ok : t.WellFormed) : t.size = (t.preorder t.root).length := by
  have same : (t.preorder t.root).Perm t.liveHandles := by
    refine (List.perm_ext_iff_of_nodup (nodup_preorder ok ok.toLinked.live_root)
      (nodup_liveHandles ok.toSlotted)).mpr ?_
    intro x
    rw [mem_preorder_root ok, mem_liveHandles ok.toSlotted]
  have count := length_liveHandles ok.toSlotted
  unfold size
  rw [same.length_eq]
  omega

end CallProfiler.CallTree
