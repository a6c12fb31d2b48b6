import CallProfiler.Proofs.Tree.Links

/-!
# Proofs.Tree.Removal: what the work list frees

Removing a list of handles frees exactly what lies below them (`get?_remove`). This holds of any tree,
linked or not, and for handles of any kind: the work list is a search of the tree in which every node
that is visited is taken out before its children are. Each slot that is freed moves one generation on
(`thinned_remove`), and the pool only receives blank nodes.

`Linked.pruned` puts this together with `detach`: a node that is taken out of its parent's list and
then removed leaves a linked tree behind.
-/

namespace CallProfiler.CallTree

variable {t : CallTree} {h x : NodeRef} {n : CallNode}

@[simp] theorem remove_nil (t : CallTree) (pool : NodePool) : t.remove pool [] = (t, pool) := by
  rw [remove]

/-- A pending node goes to the pool, and its children become pending, the last one first. -/
theorem remove_live (live : t.get? h = some n) (pool : NodePool) (pending : List NodeRef) :
    t.remove pool (h :: pending) =
      (t.vacate h).remove (pool.release n) (n.children.reverse ++ pending) := by
  rw [remove]
  split
  · rename_i m hm
    cases Option.mem_unique live hm
    rfl
  · rename_i gone
    rw [live] at gone
    exact absurd gone (by simp)

/-- A pending handle whose node is gone is passed over. -/
theorem remove_gone (gone : t.get? h = none) (pool : NodePool) (pending : List NodeRef) :
    t.remove pool (h :: pending) = t.remove pool pending := by
  rw [remove]
  split
  · rename_i m hm
    rw [gone] at hm
    exact absurd hm (by simp)
  · rfl

/-- A removal only empties slots. -/
theorem thinned_remove (t : CallTree) (pool : NodePool) (pending : List NodeRef) :
    Thinned t (t.remove pool pending).1 := by
  induction t, pool, pending using remove.induct with
  | case1 t pool =>
    rw [remove_nil]
    exact Thinned.refl t
  | case2 t pool h pending n live ih =>
    rw [remove_live live]
    exact (thinned_vacate ⟨n, live⟩).trans ih
  | case3 t pool h pending gone ih =>
    rw [remove_gone gone]
    exact ih

/-- Removed nodes are reset on their way into the pool. -/
theorem allBlank_remove (t : CallTree) {pool : NodePool} (blank : pool.AllBlank)
    (pending : List NodeRef) : (t.remove pool pending).2.AllBlank := by
  induction t, pool, pending using remove.induct with
  | case1 t pool =>
    rw [remove_nil]
    exact blank
  | case2 t pool h pending n live ih =>
    rw [remove_live live]
    exact ih (blank.release n)
  | case3 t pool h pending gone ih =>
    rw [remove_gone gone]
    exact ih blank

theorem allBlank_recycle (t : CallTree) {pool : NodePool} (blank : pool.AllBlank) :
    (t.recycle pool).AllBlank := by
  unfold recycle
  induction t.slots.toList generalizing pool with
  | nil => exact blank
  | cons slot slots ih =>
    rw [List.foldl_cons]
    apply ih
    split
    · exact blank.release _
    · exact blank

/-- What lies below a list of handles whose first node is live: that node, and, once it is taken out,
what lies below its children or the other handles. -/
theorem below_pending_iff (live : t.get? h = some n) (pending : List NodeRef) :
    (∃ p ∈ h :: pending, t.Below p x) ↔
      x = h ∨ ∃ p ∈ n.children.reverse ++ pending, (t.vacate h).Below p x := by
  have get := get?_vacate ⟨n, live⟩
  constructor
  · rintro ⟨p, hp, below⟩
    -- along the path, which starts anew whenever it comes to the node that is taken out
    induction below with
    | self hpn =>
      by_cases same : p = h
      · exact Or.inl same
      · rcases List.mem_cons.mp hp with first | hp
        · exact absurd first same
        · exact Or.inr ⟨p, by simp [hp], .self (by rw [get, if_neg same, hpn])⟩
    | @child z c zn cn _ hz hc hcn ih =>
      by_cases same : c = h
      · exact Or.inl same
      · have hcn' : (t.vacate h).get? c = some cn := by rw [get, if_neg same, hcn]
        rcases ih with rfl | ⟨q, hq, below⟩
        · cases Option.mem_unique live hz
          exact Or.inr ⟨c, by simp [hc], .self hcn'⟩
        · rcases below.live_right with ⟨zn', hz'⟩
          have kept := hz'
          rw [get] at kept
          split at kept
          · exact absurd kept (by simp)
          · cases Option.mem_unique hz kept
            exact Or.inr ⟨q, hq, below.child hz' hc hcn'⟩
  · have lift : ∀ {p}, (t.vacate h).Below p x → t.Below p x := by
      intro p below
      refine below.mono ?_
      intro y m _ hy
      rw [get] at hy
      split at hy
      · exact absurd hy (by simp)
      · exact ⟨m, hy, fun c hc _ => hc⟩
    rintro (rfl | ⟨p, hp, below⟩)
    · exact ⟨x, List.mem_cons_self .., .self live⟩
    · rcases List.mem_append.mp hp with hp | hp
      · have below := lift below
        rcases below.live_left with ⟨pn, hpn⟩
        exact ⟨h, List.mem_cons_self ..,
          ((Below.self live).child live (List.mem_reverse.mp hp) hpn).trans below⟩
      · exact ⟨p, List.mem_cons_of_mem _ hp, lift below⟩

/-- Removal frees exactly what lies below the pending handles. -/
theorem get?_remove (t : CallTree) (pool : NodePool) (pending : List NodeRef) (x : NodeRef)
    (n : CallNode) : (t.remove pool pending).1.get? x = some n ↔
      t.get? x = some n ∧ ¬ ∃ p ∈ pending, t.Below p x := by
  induction t, pool, pending using remove.induct with
  | case1 t pool => simp
  | case2 t pool h pending m live ih =>
    rw [remove_live live, ih, below_pending_iff live pending, get?_vacate ⟨m, live⟩]
    by_cases same : x = h
    · simp [same]
    · simp [same]
  | case3 t pool h pending gone ih =>
    rw [remove_gone gone, ih]
    -- nothing lies below a handle without a node
    have dead : ¬ t.Below h x := by
      intro below
      rcases below.live_left with ⟨m, hm⟩
      rw [gone] at hm
      exact absurd hm (by simp)
    simp [dead]

/-- The removal of a node does not touch what lies below a node apart from it. -/
theorem get?_remove_of_apart (pool : NodePool) {y : NodeRef}
    (apart : ∀ y, t.Below h y → ¬ t.Below x y) (below : t.Below x y) :
    (t.remove pool [h]).1.get? y = t.get? y := by
  rcases below.live_right with ⟨m, hm⟩
  rw [hm, get?_remove]
  simp only [List.mem_singleton, exists_eq_left]
  exact ⟨hm, fun inside => apart y inside below⟩

/-- What is below a node after a removal was below it before. -/
theorem below_remove (pool : NodePool) {y : NodeRef}
    (below : (t.remove pool [h]).1.Below x y) : t.Below x y := by
  refine below.mono ?_
  intro z m _ hz
  exact ⟨m, ((get?_remove t pool [h] z m).mp hz).1, fun c hc _ => hc⟩

/-! ## Detaching -/

/-- In a list without repetitions, dropping the last element is the same as leaving it out. -/
theorem dropLast_eq_filter {α : Type} [DecidableEq α] {l : List α} {a : α} (nodup : l.Nodup)
    (last : l.getLast? = some a) : l.dropLast = l.filter (· ≠ a) := by
  rcases List.getLast?_eq_some_iff.mp last with ⟨front, rfl⟩
  have apart := List.nodup_append.mp nodup
  have keep : ∀ b ∈ front, decide (b ≠ a) = true := by
    intro b hb
    exact decide_eq_true (apart.2.2 b hb a (List.mem_singleton_self a))
  rw [List.dropLast_concat, List.filter_append, List.filter_eq_self.mpr keep]
  simp

/-- A detached child is taken out of the list of its parent, and nothing else changes. -/
theorem get?_detach (ok : t.Linked) (p h x : NodeRef) :
    (t.detach p h).get? x = if x = p then
      (t.get? p).map fun pn => { pn with children := pn.children.filter (· ≠ h) }
    else t.get? x := by
  unfold detach
  rw [get?_update]
  cases hp : t.get? p with
  | none => rfl
  | some pn =>
    by_cases last : pn.children.getLast? = some h
    · simp [last, dropLast_eq_filter (ok.children_nodup hp) last]
    · simp [last]

/-- A detached node still has everything below it. -/
theorem below_detach (ok : t.Linked) {p : NodeRef} : (t.detach p h).Below h x ↔ t.Below h x := by
  constructor
  · intro below
    refine below.mono ?_
    intro y m _ hy
    rw [get?_detach ok] at hy
    split at hy
    · rename_i same
      rcases Option.map_eq_some_iff.mp hy with ⟨pn, hpn, rfl⟩
      exact ⟨pn, same ▸ hpn, fun c hc _ => (List.mem_filter.mp hc).1⟩
    · exact ⟨m, hy, fun c hc _ => hc⟩
  · intro below
    -- the only link that is lost leads to the detached node, where the path starts anew
    induction below with
    | self live =>
      by_cases same : h = p
      · exact .self (by rw [get?_detach ok, if_pos same, ← same, live]; rfl)
      · exact .self (by rw [get?_detach ok, if_neg same, live])
    | @child z c zn cn _ hz hc hcn ih =>
      by_cases again : c = h
      · rcases ih.live_left with ⟨m, hm⟩
        rw [again]
        exact .self hm
      · have keep : ∀ y m, t.get? y = some m → ∃ m', (t.detach p h).get? y = some m' ∧
            (c ∈ m.children → c ∈ m'.children) := by
          intro y m hy
          rw [get?_detach ok]
          by_cases same : y = p
          · subst same
            exact ⟨_, by rw [if_pos rfl, hy]; rfl, fun hc => by simpa [hc] using again⟩
          · exact ⟨m, by rw [if_neg same, hy], id⟩
        rcases keep z zn hz with ⟨zn', hz', sub⟩
        rcases keep c cn hcn with ⟨cn', hcn', -⟩
        exact ih.child hz' (sub hc) hcn'

/-- The tree after a node is detached and removed: what lay below it is gone, and its parent has one
child less. -/
theorem get?_remove_detach (ok : t.Linked) (pool : NodePool) (p h x : NodeRef) (n' : CallNode) :
    ((t.detach p h).remove pool [h]).1.get? x = some n' ↔ ¬ t.Below h x ∧
      ∃ n, t.get? x = some n ∧
        n' = if x = p then { n with children := n.children.filter (· ≠ h) } else n := by
  rw [get?_remove, get?_detach ok]
  simp only [List.mem_singleton, exists_eq_left, below_detach ok]
  by_cases same : x = p
  · subst same
    simp only [if_true, Option.map_eq_some_iff]
    constructor
    · rintro ⟨⟨n, hn, rfl⟩, apart⟩
      exact ⟨apart, n, hn, rfl⟩
    · rintro ⟨apart, n, hn, rfl⟩
      exact ⟨⟨n, hn, rfl⟩, apart⟩
  · simp only [if_neg same]
    constructor
    · rintro ⟨hn, apart⟩
      exact ⟨apart, n', hn, rfl⟩
    · rintro ⟨apart, n, hn, rfl⟩
      exact ⟨hn, apart⟩

/-- A tree stays linked when a call is detached from its parent and removed with all below it. -/
theorem Linked.pruned (ok : t.Linked) (pool : NodePool) {p : NodeRef} (live : t.get? h = some n)
    (parent : n.parent = some p) : ((t.detach p h).remove pool [h]).1.Linked := by
  have get := get?_remove_detach ok pool p h
  have thin := (thinned_update t p _).trans (thinned_remove (t.detach p h) pool [h])
  refine ok.cut thin.root (t.Below h) ?_ ?_ ?_ ?_
  · intro below
    exact ok.ne_root live parent (ok.eq_root_of_below_root below)
  · intro q qn c hq hc below
    rcases ok.child_live hq hc with ⟨cn, hcn, -⟩
    exact below.child hq hc hcn
  · intro y m hy apart
    exact ⟨_, (get y _).mpr ⟨apart, m, hy, rfl⟩⟩
  · intro y m' hy
    rcases (get y m').mp hy with ⟨apart, m, hm, rfl⟩
    -- a child of a kept node is gone only if it is the detached node itself
    have onlyDetached : ∀ c ∈ m.children, t.Below h c → c = h ∧ y = p := by
      intro c hc below
      have same := ok.eq_of_below_child hm hc below apart
      rcases ok.child_live hm hc with ⟨cn, hcn, parentc⟩
      rw [same] at hcn
      cases Option.mem_unique live hcn
      exact ⟨same, Option.mem_unique parentc parent⟩
    refine ⟨m, apart, hm, ?_, ?_, ?_⟩
    · split <;> rfl
    · split
      · exact List.filter_sublist
      · exact List.Sublist.refl _
    · intro c hc
      split
      · rename_i same
        simp only [List.mem_filter, hc, true_and, decide_eq_true_eq]
        constructor
        · exact fun other below => other (onlyDetached c hc below).1
        · rintro kept rfl
          exact kept (.self live)
      · rename_i other
        simp only [hc, true_iff]
        exact fun below => other (onlyDetached c hc below).2

end CallProfiler.CallTree
