import CallProfiler.Proofs.Tree.Removal

/-!
# Proofs.Tree.Trimming: what a trim leaves

`removeCallsFasterThan_spec` describes a trim node by node: a node stays if neither it nor any node
above it, the root excepted, is closed and fast (`Doomed`), and what stays is the old node without its
fast children and with its net time computed anew (`trimmed`).

The trim works down from the root through a list of pending nodes. `TrimFront` is its invariant: below
a pending node nothing has been touched, and everything else is already as it will be in the end. A
visit trims the children of one node (`trimNode_spec`) and moves the front below it. The number of
visits is bounded by a list that covers all nodes at or below the front, and loses a node per visit.
So the visits stop because nothing is pending any more (`TrimEnds`), and not because they are counted.

Trees of any shape come last: there a trim may not stop by itself, but it still only empties slots
(`thinned_trimPending`), and none if no call has ended (`AllOpen.trimPending`).
-/

namespace CallProfiler.CallTree

/-- Whether a handle is that of a closed call below the threshold. -/
def isFast (t : CallTree) (threshold : UInt64) (h : NodeRef) : Bool :=
  (t.get? h).any fun n => n.closed && n.gross < threshold

/-- The gross times of some nodes together, modulo `2 ^ 64`. -/
def grossSum (t : CallTree) (hs : List NodeRef) : UInt64 :=
  ((hs.filterMap t.get?).map (·.gross)).sum

/-- A node without its fast children: a closed one gets its net time from the children it keeps, an
open one gets the time of the others back. -/
def trimmed (t : CallTree) (threshold : UInt64) (n : CallNode) : CallNode :=
  let kept := n.children.filter fun c => !t.isFast threshold c
  { n with
    children := kept
    net := if n.closed then saturatingSub n.gross (t.grossTotal kept)
      else n.net + t.grossSum (n.children.filter fun c => t.isFast threshold c) }

/-- A node that a trim removes: it is fast or lies below a fast node other than the root. -/
def Doomed (t : CallTree) (threshold : UInt64) (x : NodeRef) : Prop :=
  ∃ a, a ≠ t.root ∧ t.isFast threshold a ∧ t.Below a x

variable {t t' t₀ : CallTree} {h x : NodeRef} {n : CallNode} {threshold : UInt64}

/-- Whether a call is fast depends on nothing but what is found under its handle. -/
theorem isFast_congr (same : t'.get? x = t.get? x) :
    t'.isFast threshold x = t.isFast threshold x := by
  unfold isFast
  rw [same]

theorem filterMap_get?_congr {hs : List NodeRef} (same : ∀ c ∈ hs, t'.get? c = t.get? c) :
    hs.filterMap t'.get? = hs.filterMap t.get? :=
  List.filterMap_congr same

theorem grossTotal_congr {hs : List NodeRef} (same : ∀ c ∈ hs, t'.get? c = t.get? c) :
    t'.grossTotal hs = t.grossTotal hs := by
  unfold grossTotal
  rw [filterMap_get?_congr same]

/-- What a trim makes of a node depends on nothing but its children. -/
theorem trimmed_congr (same : ∀ c ∈ n.children, t'.get? c = t.get? c) :
    t'.trimmed threshold n = t.trimmed threshold n := by
  have fast : ∀ c ∈ n.children, t'.isFast threshold c = t.isFast threshold c :=
    fun c hc => isFast_congr (same c hc)
  have kept : n.children.filter (fun c => !t'.isFast threshold c) =
      n.children.filter fun c => !t.isFast threshold c :=
    List.filter_congr fun c hc => by rw [fast c hc]
  have dropped : n.children.filter (fun c => t'.isFast threshold c) =
      n.children.filter fun c => t.isFast threshold c :=
    List.filter_congr fast
  unfold trimmed grossSum
  simp only [kept, dropped]
  rw [grossTotal_congr fun c hc => same c (List.mem_of_mem_filter hc),
    filterMap_get?_congr fun c hc => same c (List.mem_of_mem_filter hc)]

/-- A path survives where the nodes along it do. -/
theorem Below.congr (below : t.Below h x) (same : ∀ y, t.Below h y → t'.get? y = t.get? y) :
    t'.Below h x :=
  below.mono fun hy hn => ⟨_, (same _ hy).trans hn, fun _ hc _ => hc⟩

/-- A slow child of a node that stays is not removed. -/
theorem Linked.safe_child (ok : t.Linked) (live : t.get? h = some n)
    (safe : ¬ t.Doomed threshold h) {c : NodeRef} (hc : c ∈ n.children)
    (slow : t.isFast threshold c = false) : ¬ t.Doomed threshold c := by
  intro doomed
  rcases doomed with ⟨a, notRoot, fast, below⟩
  by_cases above : t.Below a h
  · exact safe ⟨a, notRoot, fast, above⟩
  · rw [← ok.eq_of_below_child live hc below above, slow] at fast
    exact absurd fast (by simp)

/-! ## Slots

Whatever the shape of a tree, a trim only empties slots. -/

/-- Sifting handles only empties slots, whether or not they are found. -/
theorem thinned_sift (threshold : UInt64) (cs : List NodeRef) (t : CallTree) (pool : NodePool) :
    Thinned t (sift threshold cs t pool).2.2.1 := by
  induction cs generalizing t pool with
  | nil => exact .refl t
  | cons c rest ih =>
    unfold sift
    cases live : t.get? c with
    | none => exact ih t pool
    | some n =>
      dsimp only
      split
      · exact (thinned_remove t pool [c]).trans (ih _ _)
      · exact ih t pool

/-- A visit of any handle only empties slots. -/
theorem thinned_trimNode (t : CallTree) (pool : NodePool) (threshold : UInt64) (h : NodeRef) :
    Thinned t (t.trimNode pool threshold h).2.1 := by
  unfold trimNode
  cases live : t.get? h with
  | none => exact .refl t
  | some n =>
    exact ((thinned_update t h _).trans (thinned_sift ..)).trans (thinned_update _ h _)

/-- So does a whole trim, by induction on its fuel; nothing that is gone comes back. -/
theorem thinned_trimPending (threshold : UInt64) (fuel : Nat) (pending : List NodeRef)
    (t : CallTree) (pool : NodePool) : Thinned t (trimPending threshold fuel pending t pool).1 := by
  induction fuel generalizing pending t pool with
  | zero => exact .refl t
  | succ fuel ih =>
    cases pending with
    | nil => exact .refl t
    | cons h pending => exact (t.thinned_trimNode pool threshold h).trans (ih _ _ _)

/-! ## One list of children -/

/-- Sifting removes the fast ones of some handles with all that lies below them, if no two of the
handles have anything below them in common. -/
theorem sift_spec (threshold : UInt64) (cs : List NodeRef) (t : CallTree) (pool : NodePool)
    (live : ∀ c ∈ cs, t.Live c) (apart : cs.Pairwise fun c d => ∀ x, t.Below c x → ¬ t.Below d x) :
    (sift threshold cs t pool).1 = cs.filter (fun c => !t.isFast threshold c) ∧
    (sift threshold cs t pool).2.1 = t.grossSum (cs.filter fun c => t.isFast threshold c) ∧
    (pool.AllBlank → (sift threshold cs t pool).2.2.2.AllBlank) ∧
    ∀ x n, (sift threshold cs t pool).2.2.1.get? x = some n ↔
      t.get? x = some n ∧ ¬ ∃ c ∈ cs, t.isFast threshold c ∧ t.Below c x := by
  induction cs generalizing t pool with
  | nil => exact ⟨rfl, rfl, id, fun x n => by simp [sift]⟩
  | cons c rest ih =>
    rcases live c (List.mem_cons_self ..) with ⟨cn, hcn⟩
    rcases List.pairwise_cons.mp apart with ⟨apartc, apart⟩
    have liveRest : ∀ d ∈ rest, t.Live d := fun d hd => live d (List.mem_cons_of_mem _ hd)
    by_cases fast : cn.closed && decide (cn.gross < threshold)
    · -- the first handle goes; what lies below the others is not affected
      have isFast : t.isFast threshold c = true := by simpa [CallTree.isFast, hcn] using fast
      have self : ∀ d ∈ rest, (t.remove pool [c]).1.get? d = t.get? d := by
        intro d hd
        rcases liveRest d hd with ⟨m, hm⟩
        exact get?_remove_of_apart pool (apartc d hd) (.self hm)
      have liveRest' : ∀ d ∈ rest, (t.remove pool [c]).1.Live d := by
        intro d hd
        rcases liveRest d hd with ⟨m, hm⟩
        exact ⟨m, (self d hd).trans hm⟩
      have apart' : rest.Pairwise fun d e => ∀ x, (t.remove pool [c]).1.Below d x →
          ¬ (t.remove pool [c]).1.Below e x := by
        refine apart.imp ?_
        intro d e disjoint x below belowe
        exact disjoint x (below_remove pool below) (below_remove pool belowe)
      rcases ih (t.remove pool [c]).1 (t.remove pool [c]).2 liveRest' apart' with
        ⟨kept, credited, blank, final⟩
      have fastRest : ∀ d ∈ rest,
          (t.remove pool [c]).1.isFast threshold d = t.isFast threshold d :=
        fun d hd => isFast_congr (self d hd)
      simp only [sift, hcn, fast, if_true]
      refine ⟨?_, ?_, fun ok => blank (allBlank_remove t ok [c]), ?_⟩
      · rw [kept, List.filter_cons_of_neg (by simp [isFast])]
        exact List.filter_congr fun d hd => by rw [fastRest d hd]
      · rw [credited, List.filter_cons_of_pos isFast, List.filter_congr fastRest]
        unfold grossSum
        rw [filterMap_get?_congr fun d hd => self d (List.mem_of_mem_filter hd)]
        simp [hcn]
      · intro x n
        have others : (∃ d ∈ rest, (t.remove pool [c]).1.isFast threshold d ∧
            (t.remove pool [c]).1.Below d x) ↔
            ∃ d ∈ rest, t.isFast threshold d ∧ t.Below d x := by
          constructor
          · intro found
            rcases found with ⟨d, hd, f, below⟩
            exact ⟨d, hd, fastRest d hd ▸ f, below_remove pool below⟩
          · intro found
            rcases found with ⟨d, hd, f, below⟩
            refine ⟨d, hd, (fastRest d hd).symm ▸ f, below.congr ?_⟩
            intro y inside
            exact get?_remove_of_apart pool (apartc d hd) inside
        rw [final, others, get?_remove]
        simp only [List.mem_singleton, exists_eq_left, List.exists_mem_cons_iff, isFast, true_and,
          not_or, and_assoc]
    · have slow : t.isFast threshold c = false := by simpa [CallTree.isFast, hcn] using fast
      rcases ih t pool liveRest apart with ⟨kept, credited, blank, final⟩
      simp only [sift, hcn, fast, if_false, Bool.false_eq_true]
      refine ⟨?_, ?_, blank, ?_⟩
      · rw [kept, List.filter_cons_of_pos (by simp [slow])]
      · rw [credited, List.filter_cons_of_neg (by simp [slow])]
      · intro x n
        rw [final]
        simp only [List.exists_mem_cons_iff, slow, Bool.false_eq_true, false_and, false_or]

/-! ## One visit -/

/-- The tree while the children of a node are sifted: the node does not list them. -/
def childless (t : CallTree) (h : NodeRef) : CallTree := t.update h ({ · with children := [] })

theorem get?_childless (t : CallTree) (h x : NodeRef) : (t.childless h).get? x =
    if x = h then (t.get? h).map ({ · with children := [] }) else t.get? x :=
  get?_update t h x _

/-- Whether a call is fast does not depend on its children, nor on those of another one. -/
theorem isFast_childless (t : CallTree) (threshold : UInt64) (h x : NodeRef) :
    (t.childless h).isFast threshold x = t.isFast threshold x := by
  unfold isFast
  rw [get?_childless]
  split
  · rename_i same
    rw [same]
    cases t.get? h with
    | none => rfl
    | some n => rfl
  · rfl

/-- No node is its own child, so a child is found as before while its parent has none. -/
theorem get?_childless_of_child (ok : t.Linked) (live : t.get? h = some n) {c : NodeRef}
    (hc : c ∈ n.children) : (t.childless h).get? c = t.get? c := by
  rw [get?_childless, if_neg]
  intro same
  rw [same] at hc
  exact ok.not_below_child live hc (.self live)

/-- Below a child nothing changes when the list of children is taken out of the node. -/
theorem below_childless (ok : t.Linked) (live : t.get? h = some n) {c : NodeRef}
    (hc : c ∈ n.children) : (t.childless h).Below c x ↔ t.Below c x := by
  constructor
  · intro below
    refine below.mono ?_
    intro y m _ hy
    rw [get?_childless] at hy
    split at hy
    · rename_i first
      rcases Option.map_eq_some_iff.mp hy with ⟨m, hm, rfl⟩
      exact ⟨m, first ▸ hm, fun d hd _ => absurd hd (by simp)⟩
    · exact ⟨m, hy, fun d hd _ => hd⟩
  · intro below
    refine below.congr ?_
    intro y inside
    rw [get?_childless, if_neg]
    intro same
    rw [same] at inside
    exact ok.not_below_child live hc inside

/-- What a visit does to the children of a node, told in terms of the tree before the visit. -/
theorem sift_children (ok : t.Linked) (live : t.get? h = some n) (pool : NodePool)
    (threshold : UInt64) :
    (sift threshold n.children (t.childless h) pool).1 =
      n.children.filter (fun c => !t.isFast threshold c) ∧
    (sift threshold n.children (t.childless h) pool).2.1 =
      t.grossSum (n.children.filter fun c => t.isFast threshold c) ∧
    (pool.AllBlank → (sift threshold n.children (t.childless h) pool).2.2.2.AllBlank) ∧
    ∀ x m, (sift threshold n.children (t.childless h) pool).2.2.1.get? x = some m ↔
      (t.childless h).get? x = some m ∧
        ¬ ∃ c ∈ n.children, t.isFast threshold c ∧ t.Below c x := by
  have self : ∀ c ∈ n.children, (t.childless h).get? c = t.get? c :=
    fun c hc => get?_childless_of_child ok live hc
  have fast : ∀ c ∈ n.children, (t.childless h).isFast threshold c = t.isFast threshold c :=
    fun c _ => isFast_childless t threshold h c
  have liveChildren : ∀ c ∈ n.children, (t.childless h).Live c := by
    intro c hc
    rcases ok.child_live live hc with ⟨cn, hcn, _⟩
    exact ⟨cn, (self c hc).trans hcn⟩
  have apart : n.children.Pairwise fun c d => ∀ x, (t.childless h).Below c x →
      ¬ (t.childless h).Below d x := by
    refine (ok.children_nodup live).imp_of_mem ?_
    intro c d hc hd other x below belowd
    exact other (ok.below_children_unique live hc hd ((below_childless ok live hc).mp below)
      ((below_childless ok live hd).mp belowd))
  rcases sift_spec threshold n.children (t.childless h) pool liveChildren apart with
    ⟨kept, credited, blank, get⟩
  refine ⟨?_, ?_, blank, ?_⟩
  · rw [kept]
    exact List.filter_congr fun c hc => by rw [fast c hc]
  · rw [credited, List.filter_congr fast]
    unfold grossSum
    rw [filterMap_get?_congr fun c hc => self c (List.mem_of_mem_filter hc)]
  · intro x m
    have gone : (∃ c ∈ n.children, (t.childless h).isFast threshold c ∧
        (t.childless h).Below c x) ↔ ∃ c ∈ n.children, t.isFast threshold c ∧ t.Below c x := by
      constructor
      · intro found
        rcases found with ⟨c, hc, f, below⟩
        exact ⟨c, hc, fast c hc ▸ f, (below_childless ok live hc).mp below⟩
      · intro found
        rcases found with ⟨c, hc, f, below⟩
        exact ⟨c, hc, (fast c hc).symm ▸ f, (below_childless ok live hc).mpr below⟩
    rw [get, gone]

/-- The outcome of a visit: the children that the node keeps, and the tree. The node keeps its slow
children, in their order; the others are gone with all below them, and no other node is touched. -/
structure Visited (t : CallTree) (threshold : UInt64) (h : NodeRef) (n : CallNode)
    (kept : List NodeRef) (t' : CallTree) : Prop where
  linked : t.Linked
  live : t.get? h = some n
  kept_eq : kept = n.children.filter fun c => !t.isFast threshold c
  get? : ∀ x n', t'.get? x = some n' ↔
    ¬ (∃ c ∈ n.children, t.isFast threshold c ∧ t.Below c x) ∧
      ∃ m, t.get? x = some m ∧ n' = if x = h then t.trimmed threshold m else m

/-- A visit does what it is to do, and gives blank nodes to a blank pool. -/
theorem trimNode_spec (ok : t.Linked) (live : t.get? h = some n) (pool : NodePool)
    (threshold : UInt64) :
    Visited t threshold h n (t.trimNode pool threshold h).1 (t.trimNode pool threshold h).2.1 ∧
    (pool.AllBlank → (t.trimNode pool threshold h).2.2.AllBlank) := by
  rcases sift_children ok live pool threshold with ⟨kept, credited, blank, get⟩
  generalize hr : sift threshold n.children (t.childless h) pool = r at *
  rcases r with ⟨keptList, credit, t₁, pool₁⟩
  simp only at kept credited blank get
  -- the kept children are where they were, so they can be added up before or after the visit
  have keptTime : t₁.grossTotal keptList = t.grossTotal keptList := by
    refine grossTotal_congr ?_
    intro c hc
    rw [kept, List.mem_filter] at hc
    rcases hc with ⟨hc, slow⟩
    rcases ok.child_live live hc with ⟨cn, hcn, _⟩
    rw [hcn, get, get?_childless_of_child ok live hc]
    refine ⟨hcn, ?_⟩
    intro found
    rcases found with ⟨d, hd, f, below⟩
    rw [ok.below_children_unique live hd hc below (.self hcn)] at f
    simp [f] at slow
  have selfKept : ¬ ∃ c ∈ n.children, t.isFast threshold c ∧ t.Below c h := by
    intro found
    rcases found with ⟨c, hc, _, below⟩
    exact ok.not_below_child live hc below
  have atNode : t₁.get? h = some { n with children := [] } := by
    rw [get, get?_childless, if_pos rfl, live]
    exact ⟨rfl, selfKept⟩
  unfold childless at hr
  simp only [trimNode, live, hr]
  refine ⟨⟨ok, live, kept, ?_⟩, blank⟩
  intro x n'
  rw [get?_update]
  by_cases same : x = h
  · subst same
    simp only [if_true, atNode, Option.map_some, live, Option.some.injEq, exists_eq_left']
    rw [keptTime, kept, credited]
    constructor
    · intro eq
      exact ⟨selfKept, eq.symm⟩
    · intro both
      exact both.2.symm
  · simp only [if_neg same, get, get?_childless]
    constructor
    · intro both
      exact ⟨both.2, n', both.1, rfl⟩
    · intro found
      rcases found with ⟨apart, m, hx, eq⟩
      rw [eq]
      exact ⟨hx, apart⟩

namespace Visited

variable {kept : List NodeRef} {c : NodeRef}

/-- A visit keeps the slow children. -/
theorem mem_kept (v : Visited t threshold h n kept t') :
    c ∈ kept ↔ c ∈ n.children ∧ t.isFast threshold c = false := by
  rw [v.kept_eq, List.mem_filter]
  simp

theorem below_child (v : Visited t threshold h n kept t') (hc : c ∈ n.children) : t.Below h c := by
  rcases v.linked.child_live v.live hc with ⟨cn, hcn, -⟩
  exact (Below.self v.live).child v.live hc hcn

/-- Every path of the new tree was there before. -/
theorem below_back (v : Visited t threshold h n kept t') {a : NodeRef} (below : t'.Below a x) :
    t.Below a x := by
  refine below.mono ?_
  intro y m' _ hy
  rcases (v.get? y m').mp hy with ⟨-, m, hm, rfl⟩
  refine ⟨m, hm, fun d hd _ => ?_⟩
  split at hd
  · exact List.mem_of_mem_filter hd
  · exact hd

/-- What is below no fast child of the visited node is found as before. -/
theorem get?_of_not_fast (v : Visited t threshold h n kept t') (other : x ≠ h)
    (slow : ∀ c ∈ n.children, t.isFast threshold c → ¬ t.Below c x) : t'.get? x = t.get? x := by
  have noFast : ¬ ∃ c ∈ n.children, t.isFast threshold c ∧ t.Below c x :=
    fun ⟨c, hc, f, below⟩ => slow c hc f below
  refine Option.ext fun m => ?_
  simp only [v.get?, if_neg other]
  constructor
  · rintro ⟨-, m, hm, rfl⟩
    exact hm
  · exact fun hm => ⟨noFast, m, hm, rfl⟩

/-- Below a kept child nothing has changed. -/
theorem get?_of_kept (v : Visited t threshold h n kept t') (hc : c ∈ kept) (below : t.Below c x) :
    t'.get? x = t.get? x := by
  rcases v.mem_kept.mp hc with ⟨hc, slow⟩
  refine v.get?_of_not_fast ?_ ?_
  · rintro rfl
    exact v.linked.not_below_child v.live hc below
  · intro d hd f belowd
    cases v.linked.below_children_unique v.live hc hd below belowd
    simp [slow] at f

/-- Outside the subtree of the node nothing has changed. -/
theorem get?_of_outside (v : Visited t threshold h n kept t') (outside : ¬ t.Below h x) :
    t'.get? x = t.get? x := by
  refine v.get?_of_not_fast ?_ fun c hc _ below => outside ((v.below_child hc).trans below)
  rintro rfl
  exact outside (.self v.live)

/-- Below a child that is kept everything stays in its place. -/
theorem below_of_kept (v : Visited t threshold h n kept t') (hc : c ∈ kept)
    (below : t.Below c x) : t'.Below c x :=
  below.congr fun _ belowy => v.get?_of_kept hc belowy

/-- Apart from the visited node everything stays in its place. -/
theorem below_of_apart (v : Visited t threshold h n kept t') {p : NodeRef}
    (apart : ∀ y, t.Below h y → ¬ t.Below p y) (below : t.Below p x) : t'.Below p x :=
  below.congr fun y belowy => v.get?_of_outside fun belowh => apart y belowh belowy

/-- A visit keeps the links. -/
theorem linked_after (v : Visited t threshold h n kept t') (root : t'.root = t.root) :
    t'.Linked := by
  have ok := v.linked
  have live := v.live
  have get := v.get?
  refine ok.cut root (fun x => ∃ c ∈ n.children, t.isFast threshold c ∧ t.Below c x)
    ?_ ?_ ?_ ?_
  · rintro ⟨c, hc, -, below⟩
    cases ok.eq_root_of_below_root below
    exact ok.not_below_child live hc (ok.root_below ⟨n, live⟩)
  · rintro p pn d hp hd ⟨c, hc, f, below⟩
    rcases ok.child_live hp hd with ⟨dn, hdn, -⟩
    exact ⟨c, hc, f, below.child hp hd hdn⟩
  · intro x m hx apart
    exact ⟨_, (get x _).mpr ⟨apart, m, hx, rfl⟩⟩
  · intro x m' hx
    rcases (get x m').mp hx with ⟨apart, m, hm, rfl⟩
    refine ⟨m, apart, hm, ?_, ?_, ?_⟩
    · split <;> rfl
    · split
      · exact List.filter_sublist
      · exact List.Sublist.refl _
    · intro d hd
      rcases ok.child_live hm hd with ⟨dn, hdn, parentd⟩
      -- a child of a kept node is gone only if it is itself one of the fast children
      have gone : (∃ c ∈ n.children, t.isFast threshold c ∧ t.Below c d) ↔
          x = h ∧ t.isFast threshold d = true := by
        constructor
        · rintro ⟨c, hc, f, below⟩
          have same := ok.eq_of_below_child hm hd below fun above => apart ⟨c, hc, f, above⟩
          rw [same] at hdn
          rcases ok.child_live live hc with ⟨cn, hcn, parent⟩
          cases Option.mem_unique hdn hcn
          exact ⟨Option.mem_unique parentd parent, same ▸ f⟩
        · rintro ⟨rfl, f⟩
          cases Option.mem_unique live hm
          exact ⟨d, hd, f, .self hdn⟩
      rw [gone]
      by_cases same : x = h
      · simp [same, trimmed, hd]
      · simp [same, hd]

end Visited

/-! ## The whole trim -/

/-- The invariant of a trim that began with one tree and has reached another: at and below the pending
nodes nothing has been touched, and all the rest is as it will be in the end. -/
structure TrimFront (t₀ : CallTree) (threshold : UInt64) (t : CallTree)
    (pending : List NodeRef) : Prop where
  linked : t.Linked
  live : ∀ p ∈ pending, t.Live p
  apart : pending.Pairwise fun p q => ∀ x, t.Below p x → ¬ t.Below q x
  safe : ∀ p ∈ pending, ¬ t₀.Doomed threshold p
  ahead : ∀ p ∈ pending, ∀ x, t.Below p x → t.get? x = t₀.get? x
  done : ∀ x, (¬ ∃ p ∈ pending, t.Below p x) → ∀ n', t.get? x = some n' ↔
    ¬ t₀.Doomed threshold x ∧ ∃ n, t₀.get? x = some n ∧ n' = t₀.trimmed threshold n

/-- In the beginning the root is pending, and nothing has been touched. -/
theorem trimFront_root (ok : t.Linked) (threshold : UInt64) : TrimFront t threshold t [t.root] where
  linked := ok
  live := by
    rcases ok.root_live with ⟨n, hn, -⟩
    simpa using ⟨n, hn⟩
  apart := List.pairwise_singleton ..
  safe := by
    simp only [List.mem_singleton, forall_eq]
    rintro ⟨a, notRoot, -, below⟩
    exact notRoot (ok.eq_root_of_below_root below)
  ahead := fun _ _ _ _ => rfl
  done := by
    intro x outside n'
    have dead : ¬ t.Live x := fun live => outside ⟨t.root, by simp, ok.root_below live⟩
    constructor
    · exact fun hx => absurd ⟨n', hx⟩ dead
    · rintro ⟨-, n, hx, -⟩
      exact absurd ⟨n, hx⟩ dead

namespace TrimFront

variable {pending kept : List NodeRef}

/-- The pending nodes after a visit are as far apart as those before it. -/
theorem apart_visited (front : TrimFront t₀ threshold t (h :: pending))
    (v : Visited t threshold h n kept t') :
    (kept.reverse ++ pending).Pairwise fun p q => ∀ x, t'.Below p x → ¬ t'.Below q x := by
  rcases List.pairwise_cons.mp front.apart with ⟨aparth, apart⟩
  refine List.pairwise_append.mpr ⟨?_, ?_, ?_⟩
  · have distinct : kept.reverse.Nodup := by
      rw [v.kept_eq]
      exact List.nodup_reverse.mpr ((v.linked.children_nodup v.live).filter _)
    refine distinct.imp_of_mem fun hc hd other x below belowd => ?_
    rw [List.mem_reverse] at hc hd
    exact other (v.linked.below_children_unique v.live (v.mem_kept.mp hc).1 (v.mem_kept.mp hd).1
      (v.below_back below) (v.below_back belowd))
  · exact apart.imp fun disjoint x below belowq =>
      disjoint x (v.below_back below) (v.below_back belowq)
  · intro c hc q hq x below belowq
    rw [List.mem_reverse] at hc
    exact aparth q hq x ((v.below_child (v.mem_kept.mp hc).1).trans (v.below_back below))
      (v.below_back belowq)

/-- A kept child is not to be removed: it is slow itself, and nothing above it is to be removed. -/
theorem safe_kept (front : TrimFront t₀ threshold t (h :: pending)) (ok₀ : t₀.Linked)
    (v : Visited t threshold h n kept t') {c : NodeRef} (hc : c ∈ kept) :
    ¬ t₀.Doomed threshold c := by
  rcases v.mem_kept.mp hc with ⟨hc, slow⟩
  have same := front.ahead h (List.mem_cons_self ..)
  have live₀ := (same h (.self v.live)).symm.trans v.live
  rw [isFast_congr (same c (v.below_child hc))] at slow
  exact ok₀.safe_child live₀ (front.safe h (List.mem_cons_self ..)) hc slow

/-- What lies below a fast child of a pending node is to be removed. -/
theorem doomed_fast (front : TrimFront t₀ threshold t (h :: pending)) (ok₀ : t₀.Linked)
    (v : Visited t threshold h n kept t') {c : NodeRef} (hc : c ∈ n.children)
    (f : t.isFast threshold c = true) (below : t.Below c x) : t₀.Doomed threshold x := by
  have same := front.ahead h (List.mem_cons_self ..)
  refine ⟨c, ?_, isFast_congr (same c (v.below_child hc)) ▸ f, ?_⟩
  · rcases v.linked.child_live v.live hc with ⟨cn, hcn, parent⟩
    rw [same c (v.below_child hc)] at hcn
    exact ok₀.ne_root hcn parent
  · exact below.congr fun y belowy => (same y ((v.below_child hc).trans belowy)).symm

/-- After a visit everything off the front is as it will be in the end. -/
theorem done_visited (front : TrimFront t₀ threshold t (h :: pending)) (ok₀ : t₀.Linked)
    (v : Visited t threshold h n kept t')
    (outside : ¬ ∃ p ∈ kept.reverse ++ pending, t'.Below p x) (n' : CallNode) :
    t'.get? x = some n' ↔
      ¬ t₀.Doomed threshold x ∧ ∃ n, t₀.get? x = some n ∧ n' = t₀.trimmed threshold n := by
  rcases List.pairwise_cons.mp front.apart with ⟨aparth, -⟩
  have same := front.ahead h (List.mem_cons_self ..)
  by_cases belowh : t.Below h x
  · rcases belowh.eq_or_below_child v.live with rfl | ⟨c, hc, below⟩
    · -- the visited node itself
      have noFast : ¬ ∃ c ∈ n.children, t.isFast threshold c ∧ t.Below c x := by
        rintro ⟨c, hc, -, below⟩
        exact v.linked.not_below_child v.live hc below
      have final : t.trimmed threshold n = t₀.trimmed threshold n :=
        trimmed_congr fun c hc => same c (v.below_child hc)
      have live₀ := (same x (.self v.live)).symm.trans v.live
      rw [v.get?, v.live, live₀]
      simp [noFast, front.safe x (List.mem_cons_self ..), final]
    · -- below a child, which is fast because the front does not pass over the slow ones
      have f : t.isFast threshold c = true := by
        by_contra slow
        have hk := v.mem_kept.mpr ⟨hc, by simpa using slow⟩
        exact outside ⟨c, by simp [hk], v.below_of_kept hk below⟩
      have doomed := front.doomed_fast ok₀ v hc f below
      rw [v.get?]
      simp only [doomed, not_true_eq_false, false_and, iff_false, not_and]
      exact fun noFast => absurd ⟨c, hc, f, below⟩ noFast
  · rw [v.get?_of_outside belowh]
    refine front.done x ?_ n'
    rintro ⟨p, hp, below⟩
    rcases List.mem_cons.mp hp with rfl | hp
    · exact belowh below
    · exact outside ⟨p, by simp [hp], v.below_of_apart (aparth p hp) below⟩

/-- A visit moves the front from a node to the children that it keeps. -/
theorem visit (front : TrimFront t₀ threshold t (h :: pending)) (ok₀ : t₀.Linked)
    (v : Visited t threshold h n kept t') (linked : t'.Linked) :
    TrimFront t₀ threshold t' (kept.reverse ++ pending) := by
  rcases List.pairwise_cons.mp front.apart with ⟨aparth, -⟩
  refine ⟨linked, ?_, front.apart_visited v, ?_, ?_, fun x => front.done_visited ok₀ v⟩
  · intro p hp
    rcases List.mem_append.mp hp with hp | hp
    · rw [List.mem_reverse] at hp
      rcases v.linked.child_live v.live (v.mem_kept.mp hp).1 with ⟨cn, hcn, -⟩
      exact (v.below_of_kept hp (.self hcn)).live_right
    · rcases front.live p (List.mem_cons_of_mem _ hp) with ⟨m, hm⟩
      exact (v.below_of_apart (aparth p hp) (.self hm)).live_right
  · intro p hp
    rcases List.mem_append.mp hp with hp | hp
    · exact front.safe_kept ok₀ v (List.mem_reverse.mp hp)
    · exact front.safe p (List.mem_cons_of_mem _ hp)
  · intro p hp x below
    have below := v.below_back below
    rcases List.mem_append.mp hp with hp | hp
    · rw [List.mem_reverse] at hp
      rw [v.get?_of_kept hp below]
      exact front.ahead h (List.mem_cons_self ..) x
        ((v.below_child (v.mem_kept.mp hp).1).trans below)
    · rw [v.get?_of_outside fun belowh => aparth p hp x belowh below]
      exact front.ahead p (List.mem_cons_of_mem _ hp) x below

/-- What lies below the new front lay below the old one, and the visited node no longer does. -/
theorem front_shrinks (front : TrimFront t₀ threshold t (h :: pending))
    (v : Visited t threshold h n kept t')
    (inside : ∃ p ∈ kept.reverse ++ pending, t'.Below p x) :
    x ≠ h ∧ ∃ p ∈ h :: pending, t.Below p x := by
  rcases List.pairwise_cons.mp front.apart with ⟨aparth, -⟩
  rcases inside with ⟨p, hp, below⟩
  have below := v.below_back below
  rcases List.mem_append.mp hp with hp | hp
  · rw [List.mem_reverse] at hp
    rcases v.mem_kept.mp hp with ⟨hc, -⟩
    refine ⟨?_, h, List.mem_cons_self .., (v.below_child hc).trans below⟩
    rintro rfl
    exact v.linked.not_below_child v.live hc below
  · refine ⟨?_, p, List.mem_cons_of_mem _ hp, below⟩
    rintro rfl
    exact aparth p hp x (.self v.live) below

end TrimFront

/-- A trim of the pending nodes that visits one after the other until none is pending, whatever the
number of visits: it comes to its end with a tree and a pool. -/
inductive TrimEnds (threshold : UInt64) :
    List NodeRef → CallTree → NodePool → CallTree × NodePool → Prop where
  | done {t : CallTree} {pool : NodePool} : TrimEnds threshold [] t pool (t, pool)
  | visit {h : NodeRef} {pending : List NodeRef} {t : CallTree} {pool : NodePool}
      {final : CallTree × NodePool} :
      TrimEnds threshold ((t.trimNode pool threshold h).1.reverse ++ pending)
        (t.trimNode pool threshold h).2.1 (t.trimNode pool threshold h).2.2 final →
      TrimEnds threshold (h :: pending) t pool final

/-- A trim from a front, with as many visits as there are nodes at or below it. -/
theorem trimPending_spec (ok₀ : t₀.Linked) (fuel : Nat) (pending : List NodeRef) (t : CallTree)
    (pool : NodePool) (front : TrimFront t₀ threshold t pending) (cover : List NodeRef)
    (enough : cover.length ≤ fuel) (covers : ∀ x, (∃ p ∈ pending, t.Below p x) → x ∈ cover) :
    (pool.AllBlank → (trimPending threshold fuel pending t pool).2.AllBlank) ∧
    TrimFront t₀ threshold (trimPending threshold fuel pending t pool).1 [] ∧
    TrimEnds threshold pending t pool (trimPending threshold fuel pending t pool) := by
  induction fuel generalizing pending t pool cover with
  | zero =>
    cases pending with
    | nil => exact ⟨id, front, .done⟩
    | cons h pending =>
      -- a pending node would be covered by a list without elements
      rcases front.live h (List.mem_cons_self ..) with ⟨n, live⟩
      have first := covers h ⟨h, List.mem_cons_self .., .self live⟩
      rw [List.length_eq_zero_iff.mp (Nat.le_zero.mp enough)] at first
      exact absurd first (List.not_mem_nil)
  | succ fuel ih =>
    cases pending with
    | nil => exact ⟨id, front, .done⟩
    | cons h pending =>
      rcases front.live h (List.mem_cons_self ..) with ⟨n, live⟩
      rcases trimNode_spec front.linked live pool threshold with ⟨v, blank⟩
      have next := front.visit ok₀ v (v.linked_after (t.thinned_trimNode pool threshold h).root)
      have first := covers h ⟨h, List.mem_cons_self .., .self live⟩
      have shorter := List.length_erase_of_mem first
      have covers' : ∀ x, (∃ p ∈ (t.trimNode pool threshold h).1.reverse ++ pending,
          (t.trimNode pool threshold h).2.1.Below p x) → x ∈ cover.erase h := by
        intro x inside
        rcases front.front_shrinks v inside with ⟨other, before⟩
        exact (List.mem_erase_of_ne other).mpr (covers x before)
      rcases ih _ _ (t.trimNode pool threshold h).2.2 next (cover.erase h) (by omega) covers' with
        ⟨blank', last, ends⟩
      exact ⟨fun ok => blank' (blank ok), last, .visit ends⟩

/-- The front of a whole trim is the root, and all nodes are at or below it. -/
theorem trimPending_root (slotted : t.Slotted) (ok : t.Linked) (pool : NodePool)
    (threshold : UInt64) :
    (pool.AllBlank → (t.removeCallsFasterThan pool threshold).2.AllBlank) ∧
    TrimFront t threshold (t.removeCallsFasterThan pool threshold).1 [] ∧
    TrimEnds threshold [t.root] t pool (t.removeCallsFasterThan pool threshold) := by
  have count := length_liveHandles slotted
  refine trimPending_spec ok t.slots.size [t.root] t pool (trimFront_root ok threshold)
    t.liveHandles (by omega) ?_
  rintro x ⟨p, -, below⟩
  exact (mem_liveHandles slotted).mpr below.live_right

/-- A trim removes exactly the doomed nodes, and trims every other node. -/
theorem removeCallsFasterThan_spec (slotted : t.Slotted) (ok : t.Linked) (pool : NodePool)
    (threshold : UInt64) :
    Thinned t (t.removeCallsFasterThan pool threshold).1 ∧
    (t.removeCallsFasterThan pool threshold).1.Linked ∧
    (pool.AllBlank → (t.removeCallsFasterThan pool threshold).2.AllBlank) ∧
    ∀ x n', (t.removeCallsFasterThan pool threshold).1.get? x = some n' ↔
      ¬ t.Doomed threshold x ∧ ∃ n, t.get? x = some n ∧ n' = t.trimmed threshold n := by
  rcases trimPending_root slotted ok pool threshold with ⟨blank, last, -⟩
  exact ⟨thinned_trimPending .., last.linked, blank, fun x n' => last.done x (by simp) n'⟩

/-- The visits of a trim come to an end by themselves. -/
theorem removeCallsFasterThan_ends (slotted : t.Slotted) (ok : t.Linked) (pool : NodePool)
    (threshold : UInt64) :
    TrimEnds threshold [t.root] t pool (t.removeCallsFasterThan pool threshold) :=
  (trimPending_root slotted ok pool threshold).2.2

/-! ## Trees of any shape -/

/-- A node is gone after the removal of anything above it. -/
theorem removed_gone (pool : NodePool) (below : t.Below h x) : (t.remove pool [h]).1.get? x = none := by
  refine Option.eq_none_iff_forall_not_mem.mpr ?_
  intro n hn
  exact ((get?_remove t pool [h] x n).mp hn).2 ⟨h, List.mem_singleton_self h, below⟩

/-- A fast handle of a list is removed, whatever else is in the list. -/
theorem sift_fast {c : NodeRef} {cs : List NodeRef} {threshold : UInt64} (listed : c ∈ cs)
    (fast : t.isFast threshold c = true) (pool : NodePool) :
    (sift threshold cs t pool).2.2.1.get? c = none := by
  induction cs generalizing t pool with
  | nil => cases listed
  | cons d rest ih =>
    unfold sift
    cases live : t.get? d with
    | none =>
      rcases List.mem_cons.mp listed with rfl | listed
      · rw [CallTree.isFast, live] at fast
        cases fast
      · exact ih listed fast pool
    | some n =>
      dsimp only
      split
      · -- the first handle goes, and it may take the fast one with it
        cases after : (t.remove pool [d]).1.get? c with
        | none => exact (thinned_sift ..).gone after
        | some m =>
          rcases List.mem_cons.mp listed with rfl | listed
          · rw [removed_gone pool (.self live)] at after
            cases after
          · have before := ((get?_remove t pool [d] c m).mp after).1
            exact ih listed ((isFast_congr (after.trans before.symm)).trans fast) _
      · rename_i slow
        rcases List.mem_cons.mp listed with rfl | listed
        · rw [CallTree.isFast, live] at fast
          exact absurd fast slow
        · exact ih listed fast pool

/-- A visit removes the fast children of a node, also the node itself if it is one of them. -/
theorem trimNode_fast {c : NodeRef} {threshold : UInt64} (live : t.get? h = some n)
    (listed : c ∈ n.children) (fast : t.isFast threshold c = true) (pool : NodePool) :
    (t.trimNode pool threshold h).2.1.get? c = none := by
  rw [← isFast_childless t threshold h] at fast
  have gone := sift_fast listed fast pool
  unfold trimNode
  rw [live]
  exact (thinned_update ..).gone gone

/-- What lies below the only child of a node goes with it, if it is fast. -/
theorem trimNode_only_child {c : NodeRef} (live : t.get? h = some n) (only : n.children = [c])
    (fast : t.isFast threshold c = true) (below : (t.childless h).Below c x) (pool : NodePool) :
    (t.trimNode pool threshold h).2.1.get? x = none := by
  rw [← isFast_childless t threshold h] at fast
  rcases below.live_left with ⟨cn, there⟩
  have here : (cn.closed && decide (cn.gross < threshold)) = true := by
    rw [isFast, there] at fast
    exact fast
  have sifted : (sift threshold n.children (t.childless h) pool).2.2.1 =
      ((t.childless h).remove pool [c]).1 := by
    simp only [only, sift, there, here, if_true]
  have gone := removed_gone pool below
  rw [← sifted] at gone
  unfold trimNode
  rw [live]
  exact (thinned_update ..).gone gone

/-- So do the calls of the only child, if they are other nodes. -/
theorem trimNode_grandchild {c d : NodeRef} {cn dn : CallNode} (live : t.get? h = some n)
    (only : n.children = [c]) (fast : t.isFast threshold c = true) (child : t.get? c = some cn)
    (apart : c ≠ h) (listed : d ∈ cn.children) (there : t.get? d = some dn) (other : d ≠ h)
    (pool : NodePool) : (t.trimNode pool threshold h).2.1.get? d = none := by
  have child' : (t.childless h).get? c = some cn := by rw [get?_childless, if_neg apart, child]
  have there' : (t.childless h).get? d = some dn := by rw [get?_childless, if_neg other, there]
  have below : (t.childless h).Below c d := (Below.self child').child child' listed there'
  exact trimNode_only_child live only fast below pool

/-- One round of the trim, for rewriting. -/
theorem trimPending_cons (threshold : UInt64) (fuel : Nat) (h : NodeRef) (pending : List NodeRef)
    (t : CallTree) (pool : NodePool) : trimPending threshold (fuel + 1) (h :: pending) t pool =
      trimPending threshold fuel ((t.trimNode pool threshold h).1.reverse ++ pending)
        (t.trimNode pool threshold h).2.1 (t.trimNode pool threshold h).2.2 :=
  rfl

/-- No call of the tree has ended. -/
def AllOpen (t : CallTree) : Prop := ∀ h n, t.get? h = some n → n.closed = false

/-- None has ended if none of the nodes in the slots has. -/
theorem allOpen_of_slots (none : ∀ slot ∈ t.slots, ∀ n ∈ slot.node, n.closed = false) :
    t.AllOpen := by
  intro h n live
  unfold get? at live
  split at live
  · next slot here =>
    split at live
    · exact none slot (Array.mem_of_getElem? here) n live
    · cases live
  · cases live

/-- An update that ends no call leaves a tree without ended calls. -/
theorem AllOpen.update (allOpen : t.AllOpen) (h : NodeRef) {f : CallNode → CallNode}
    (keeps : ∀ n, (f n).closed = n.closed) : (t.update h f).AllOpen := by
  intro x n hx
  rw [get?_update] at hx
  split at hx
  · rcases Option.map_eq_some_iff.mp hx with ⟨m, hm, rfl⟩
    rw [keeps, allOpen h m hm]
  · exact allOpen x n hx

/-- Where no call has ended there is nothing to remove. -/
theorem AllOpen.sift (allOpen : t.AllOpen) (threshold : UInt64) (cs : List NodeRef)
    (pool : NodePool) : (CallTree.sift threshold cs t pool).2.2.1 = t := by
  induction cs with
  | nil => rfl
  | cons c rest ih =>
    unfold CallTree.sift
    cases live : t.get? c with
    | none => exact ih
    | some n =>
      dsimp only
      rw [allOpen c n live, Bool.false_and, if_neg (by simp)]
      exact ih

/-- A visit finds nothing to remove where no call has ended. -/
theorem AllOpen.trimNode (allOpen : t.AllOpen) (pool : NodePool) (threshold : UInt64)
    (h : NodeRef) : (t.trimNode pool threshold h).2.1.AllOpen ∧
      ((t.trimNode pool threshold h).2.1.Live x ↔ t.Live x) := by
  unfold CallTree.trimNode
  cases live : t.get? h with
  | none => exact ⟨allOpen, Iff.rfl⟩
  | some n =>
    have childless : (t.update h ({ · with children := [] })).AllOpen :=
      allOpen.update h fun _ => rfl
    dsimp only
    rw [childless.sift]
    exact ⟨childless.update h fun _ => rfl, live_update.trans live_update⟩

/-- So a trim leaves all nodes. -/
theorem AllOpen.trimPending (allOpen : t.AllOpen) (threshold : UInt64) (fuel : Nat)
    (pending : List NodeRef) (pool : NodePool) :
    (CallTree.trimPending threshold fuel pending t pool).1.Live x ↔ t.Live x := by
  induction fuel generalizing pending t pool with
  | zero => exact Iff.rfl
  | succ fuel ih =>
    cases pending with
    | nil => exact Iff.rfl
    | cons h pending =>
      rcases allOpen.trimNode (x := x) pool threshold h with ⟨visited, kept⟩
      exact (ih visited ..).trans kept

end CallProfiler.CallTree
