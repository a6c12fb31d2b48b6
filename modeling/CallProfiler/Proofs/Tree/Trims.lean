import CallProfiler.Proofs.Tree.Handles
import CallProfiler.Proofs.Tree.NetTime
import CallProfiler.Proofs.Tree.Overflow

/-!
# Proofs.Tree.Trims: what trims leave, one by one and together

`IsTrim` describes what a trim leaves by the look-ups before and after it alone: which handles still
have their nodes, and what each of these holds. It does not mention visits, pools or slots, and it
leaves no choice.

* `WellFormed.isTrim` — every trim leaves what the description says
* `IsTrim.unique` — two trees that fit the description hold the same nodes
* `IsTrim.trans` — a trim of a trim fits the description of one trim at the greater threshold
* `trim_removes_fast_calls`, `trims_compose` — so it is after every history with numbers for its slots
* `trim_of_endedLoopHistory_removes_root`, `trims_of_crossedHistory_differ` — and why it is not after those
  that run out of numbers: a root that is listed below itself can be removed
-/

namespace CallProfiler

/-- A call that is as slow as the greater of two thresholds is as slow as both. -/
theorem max_le_iff_le {a b c : UInt64} : max a b ≤ c ↔ a ≤ c ∧ b ≤ c := by
  show (if a ≤ b then b else a) ≤ c ↔ a ≤ c ∧ b ≤ c
  split
  · rename_i le
    exact ⟨fun greater => ⟨UInt64.le_trans le greater, greater⟩, And.right⟩
  · rename_i notLe
    have less := UInt64.le_of_lt (UInt64.not_le.mp notLe)
    exact ⟨fun greater => ⟨greater, UInt64.le_trans less greater⟩, And.left⟩

/-- A node is its record, its children and its net time. -/
theorem CallNode.eq_of_record {n m : CallNode} (record : n.record = m.record)
    (children : n.children = m.children) (net : n.net = m.net) : n = m := by
  cases n
  cases m
  simp only [CallNode.record, NodeRecord.mk.injEq] at record
  simp_all

namespace CallTree

variable {t t' t'' : CallTree} {pool : NodePool} {a b threshold : UInt64} {h x : NodeRef}
  {n n' : CallNode}

/-! ## What a trim leaves -/

/-- A node before and after a trim that it survives. Its children are those that survive as well. A
closed node nets what these take, and an open one gets the time of the others back. -/
structure Survives (t t' : CallTree) (h : NodeRef) (n n' : CallNode) : Prop where
  record : n'.record = n.record
  children : n'.children = n.children.filter fun c => (t'.get? c).isSome
  closed_net : n'.closed = true → n'.net.toNat = n'.gross.toNat - t'.childTime h
  open_net : n'.closed = false →
    n'.net = n.net + UInt64.ofNat (t.timeOf (n.children.filter fun c => (t'.get? c).isNone))

theorem Survives.closed (kept : t.Survives t' h n n') : n'.closed = n.closed :=
  congrArg NodeRecord.closed kept.record

theorem Survives.gross (kept : t.Survives t' h n n') : n'.gross = n.gross :=
  congrArg NodeRecord.gross kept.record

/-- One tree is what a trim leaves of another. A node survives if neither it nor any of its ancestors,
the root excepted, is closed and below the threshold. -/
structure IsTrim (t : CallTree) (threshold : UInt64) (t' : CallTree) : Prop where
  root : t'.root = t.root
  live_iff : ∀ h, t'.Live h ↔ t.Live h ∧ ∀ x ∈ h :: t.ancestors h, x ≠ t.root →
    ∀ n, t.get? x = some n → n.closed = false ∨ threshold ≤ n.gross
  survives : ∀ h n n', t.get? h = some n → t'.get? h = some n' → t.Survives t' h n n'

/-- A call is fast if it has ended below the threshold. -/
theorem isFast_iff (live : t.get? h = some n) :
    t.isFast threshold h = true ↔ n.closed = true ∧ n.gross < threshold := by
  simp [isFast, live]

/-- A node is safe from a trim if neither it nor any ancestor but the root is fast. -/
theorem not_doomed_iff (ok : t.WellFormed) (live : t.Live h) (threshold : UInt64) :
    ¬ t.Doomed threshold h ↔ ∀ x ∈ h :: t.ancestors h, x ≠ t.root →
      ∀ n, t.get? x = some n → n.closed = false ∨ threshold ≤ n.gross := by
  constructor
  · intro safe x above notRoot n hx
    by_contra fast
    rw [not_or, Bool.not_eq_false, UInt64.not_le] at fast
    exact safe ⟨x, notRoot, (isFast_iff hx).mpr fast, (mem_ancestors_iff ok live).mp above⟩
  · rintro slow ⟨x, notRoot, fast, below⟩
    rcases below.live_left with ⟨n, hx⟩
    rcases (isFast_iff hx).mp fast with ⟨closed, less⟩
    rcases slow x ((mem_ancestors_iff ok live).mpr below) notRoot n hx with isOpen | le
    · rw [closed] at isOpen
      exact absurd isOpen (by simp)
    · exact UInt64.not_lt.mpr le less

/-- A child of a node that stays is itself removed just if it is fast. -/
theorem isSome_trim_child (ok : t.WellFormed) (live : t.get? h = some n)
    (safe : ¬ t.Doomed threshold h) {c : NodeRef} (hc : c ∈ n.children) (pool : NodePool) :
    ((t.removeCallsFasterThan pool threshold).1.get? c).isSome = !t.isFast threshold c := by
  rcases removeCallsFasterThan_spec ok.toSlotted ok.toLinked pool threshold with ⟨-, -, -, get⟩
  rcases ok.child_live live hc with ⟨cn, hcn, parent⟩
  cases fast : t.isFast threshold c with
  | false =>
    have stays := ok.toLinked.safe_child live safe hc fast
    rw [(get c _).mpr ⟨stays, cn, hcn, rfl⟩]
    rfl
  | true =>
    have doomed : t.Doomed threshold c := ⟨c, ok.toLinked.ne_root hcn parent, fast, .self hcn⟩
    have gone : (t.removeCallsFasterThan pool threshold).1.get? c = none := by
      refine Option.eq_none_iff_forall_not_mem.mpr ?_
      intro m hm
      exact ((get c m).mp hm).1 doomed
    rw [gone]
    rfl

/-- Every trim of a well-formed tree leaves what is to be left. -/
theorem WellFormed.isTrim (ok : t.WellFormed) (pool : NodePool) (threshold : UInt64) :
    t.IsTrim threshold (t.removeCallsFasterThan pool threshold).1 := by
  rcases removeCallsFasterThan_spec ok.toSlotted ok.toLinked pool threshold with ⟨thin, -, -, get⟩
  refine ⟨thin.root, ?_, ?_⟩
  · intro h
    constructor
    · rintro ⟨n', hn'⟩
      rcases (get h n').mp hn' with ⟨safe, n, hn, -⟩
      exact ⟨⟨n, hn⟩, (not_doomed_iff ok ⟨n, hn⟩ threshold).mp safe⟩
    · rintro ⟨⟨n, hn⟩, slow⟩
      have safe := (not_doomed_iff ok ⟨n, hn⟩ threshold).mpr slow
      exact ⟨_, (get h _).mpr ⟨safe, n, hn, rfl⟩⟩
  · intro h n n' hn hn'
    rcases (get h n').mp hn' with ⟨safe, m, hm, eq⟩
    cases Option.mem_unique hn hm
    have kept : n'.children = n.children.filter fun c => !t.isFast threshold c := by rw [eq]; rfl
    have isSome : ∀ c ∈ n.children, ((t.removeCallsFasterThan pool threshold).1.get? c).isSome =
        !t.isFast threshold c := fun c hc => isSome_trim_child ok hn safe hc pool
    have isNone : ∀ c ∈ n.children, ((t.removeCallsFasterThan pool threshold).1.get? c).isNone =
        t.isFast threshold c := by
      intro c hc
      have here := isSome c hc
      rw [← Option.not_isNone] at here
      exact Bool.not_inj here
    have childTime : (t.removeCallsFasterThan pool threshold).1.childTime h =
        t.timeOf (n.children.filter fun c => !t.isFast threshold c) := by
      rw [childTime_eq hn', kept]
      refine timeOf_trim ok pool threshold ?_
      intro c hc
      rcases List.mem_filter.mp hc with ⟨hc, slow⟩
      exact Option.isSome_iff_exists.mp ((isSome c hc).trans slow)
    refine ⟨by rw [eq]; rfl, ?_, ?_, ?_⟩
    · rw [kept]
      exact List.filter_congr fun c hc => (isSome c hc).symm
    · intro closed
      rw [eq] at closed
      rw [childTime, eq]
      exact net_trimmed_closed closed
    · intro isOpen
      rw [eq] at isOpen
      rw [List.filter_congr isNone, eq]
      exact net_trimmed_open isOpen

/-! ## What the description fixes -/

namespace IsTrim

/-- What is left of a tree was in it before. -/
theorem back (trim : t.IsTrim threshold t') (hx : t'.get? h = some n') :
    ∃ n, t.get? h = some n ∧ t.Survives t' h n n' := by
  rcases ((trim.live_iff h).mp ⟨n', hx⟩).1 with ⟨n, hn⟩
  exact ⟨n, hn, trim.survives h n n' hn hx⟩

/-- Nodes that are left have the durations that they had. -/
theorem timeOf_eq (trim : t.IsTrim threshold t') {cs : List NodeRef}
    (live : ∀ c ∈ cs, t'.Live c) : t'.timeOf cs = t.timeOf cs := by
  apply timeOf_kept
  intro c hc
  rcases live c hc with ⟨n', hn'⟩
  rcases trim.back hn' with ⟨n, hn, kept⟩
  exact ⟨n, n', hn, hn', kept.gross⟩

/-- The children of a node that survives had the durations that they have. -/
theorem childTime_eq (trim : t.IsTrim threshold t') (hx : t'.get? h = some n') :
    t'.childTime h = t.timeOf n'.children := by
  rw [CallTree.childTime_eq hx]
  apply trim.timeOf_eq
  intro c hc
  rcases trim.back hx with ⟨n, -, kept⟩
  rw [kept.children] at hc
  exact Option.isSome_iff_exists.mp (List.mem_filter.mp hc).2

/-- Whatever is left of a tree, it is the same. -/
theorem unique (one : t.IsTrim threshold t') (other : t.IsTrim threshold t'') (h : NodeRef) :
    t'.get? h = t''.get? h := by
  have live : ∀ x, t'.Live x ↔ t''.Live x := fun x => (one.live_iff x).trans (other.live_iff x).symm
  have isSome : ∀ x, (t'.get? x).isSome = (t''.get? x).isSome := by
    intro x
    rw [Bool.eq_iff_iff, Option.isSome_iff_exists, Option.isSome_iff_exists]
    exact live x
  cases hn' : t'.get? h with
  | none =>
    have gone := isSome h
    rw [hn'] at gone
    exact (Option.isNone_iff_eq_none.mp (Option.isSome_eq_false_iff.mp gone.symm)).symm
  | some n' =>
    rcases (live h).mp ⟨n', hn'⟩ with ⟨n'', hn''⟩
    rcases one.back hn' with ⟨n, hn, kept'⟩
    have kept'' := other.survives h n n'' hn hn''
    have record : n'.record = n''.record := kept'.record.trans kept''.record.symm
    have children : n'.children = n''.children := by
      rw [kept'.children, kept''.children]
      exact List.filter_congr fun c _ => isSome c
    have closed : n'.closed = n''.closed := kept'.closed.trans kept''.closed.symm
    have gross : n'.gross = n''.gross := kept'.gross.trans kept''.gross.symm
    have net : n'.net = n''.net := by
      cases status : n'.closed with
      | true =>
        apply UInt64.toNat_inj.mp
        rw [kept'.closed_net status, kept''.closed_net (closed.symm.trans status), gross,
          one.childTime_eq hn', other.childTime_eq hn'', children]
      | false =>
        have isNone : ∀ x, (t'.get? x).isNone = (t''.get? x).isNone := by
          intro x
          rw [← Option.not_isSome, ← Option.not_isSome, isSome x]
        rw [kept'.open_net status, kept''.open_net (closed.symm.trans status)]
        rw [List.filter_congr fun c _ => isNone c]
    rw [hn'', CallNode.eq_of_record record children net]

/-! ## A trim of a trim -/

/-- A node that survives has the ancestors that it had. -/
theorem ancestors_eq (trim : t.IsTrim threshold t') (ok : t.WellFormed) (ok' : t'.WellFormed)
    (live : t'.Live h) : t'.ancestors h = t.ancestors h := by
  refine ((above_congr ok' ok live ?_).2).symm
  intro x n' _ hx
  rcases trim.back hx with ⟨n, hn, kept⟩
  exact ⟨n, hn, (congrArg NodeRecord.parent kept.record).symm⟩

/-- The time of the children that are gone after both trims is that of the ones which the first trim
removes and of the ones which the second does. -/
theorem timeOf_gone (first : t.IsTrim a t') (second : t'.IsTrim b t'') (cs : List NodeRef) :
    t.timeOf (cs.filter fun c => (t'.get? c).isNone) +
      t'.timeOf ((cs.filter fun c => (t'.get? c).isSome).filter fun c => (t''.get? c).isNone) =
    t.timeOf (cs.filter fun c => (t''.get? c).isNone) := by
  have later : ∀ c, (t'.get? c).isNone = true → (t''.get? c).isNone = true := by
    intro c gone
    rw [Option.isNone_iff_eq_none] at gone ⊢
    by_contra there
    rcases Option.ne_none_iff_exists'.mp there with ⟨n'', hn''⟩
    rcases second.back hn'' with ⟨n', hn', -⟩
    rw [gone] at hn'
    exact absurd hn' (by simp)
  have early : (cs.filter fun c => (t''.get? c).isNone).filter (fun c => !(t'.get? c).isSome) =
      cs.filter fun c => (t'.get? c).isNone := by
    rw [List.filter_filter]
    apply List.filter_congr
    intro c _
    cases gone : (t'.get? c).isNone with
    | true => simp [later c gone, gone]
    | false => simp [gone]
  rw [timeOf_filter t (fun c => (t'.get? c).isSome) (cs.filter fun c => (t''.get? c).isNone), early,
    first.timeOf_eq]
  · rw [List.filter_filter, List.filter_filter]
    simp only [Bool.and_comm]
  · intro c hc
    have kept := (List.mem_filter.mp (List.mem_filter.mp hc).1).2
    exact Option.isSome_iff_exists.mp kept

/-- A node that survives two trims is left as by one: its children are those that survive both. -/
theorem survives_trans (first : t.IsTrim a t') (second : t'.IsTrim b t'') {n'' : CallNode}
    (before : t.Survives t' h n n') (later : t'.Survives t'' h n' n'') :
    t.Survives t'' h n n'' where
  record := later.record.trans before.record
  children := by
    rw [later.children, before.children, List.filter_filter]
    apply List.filter_congr
    intro c _
    cases stays : (t''.get? c).isSome with
    | false => rfl
    | true =>
      rcases Option.isSome_iff_exists.mp stays with ⟨m'', hm''⟩
      rcases second.back hm'' with ⟨m', hm', -⟩
      rw [hm']
      rfl
  closed_net := later.closed_net
  open_net := by
    intro isOpen
    have isOpen' : n'.closed = false := later.closed.symm.trans isOpen
    rw [later.open_net isOpen, before.open_net isOpen', before.children, UInt64.add_assoc,
      ← UInt64.ofNat_add, first.timeOf_gone second]

/-- Two trims one after the other leave what one trim at the greater threshold leaves. -/
theorem trans (ok : t.WellFormed) (ok' : t'.WellFormed) (first : t.IsTrim a t')
    (second : t'.IsTrim b t'') : t.IsTrim (max a b) t'' where
  root := second.root.trans first.root
  live_iff := by
    intro h
    rw [second.live_iff, first.live_iff, first.root]
    constructor
    · rintro ⟨⟨live, slow⟩, slow'⟩
      have live' := (first.live_iff h).mpr ⟨live, slow⟩
      refine ⟨live, fun x above notRoot n hx => ?_⟩
      have above' := above
      rw [← first.ancestors_eq ok ok' live'] at above'
      rcases ((mem_ancestors_iff ok' live').mp above').live_left with ⟨n', hx'⟩
      have kept := first.survives x n n' hx hx'
      rcases slow x above notRoot n hx with isOpen | le
      · exact Or.inl isOpen
      · rcases slow' x above' notRoot n' hx' with isOpen | le'
        · exact Or.inl (kept.closed ▸ isOpen)
        · exact Or.inr (max_le_iff_le.mpr ⟨le, kept.gross ▸ le'⟩)
    · rintro ⟨live, slow⟩
      have slowFirst : ∀ x ∈ h :: t.ancestors h, x ≠ t.root → ∀ n, t.get? x = some n →
          n.closed = false ∨ a ≤ n.gross := fun x above notRoot n hx =>
        (slow x above notRoot n hx).imp_right fun le => (max_le_iff_le.mp le).1
      have live' := (first.live_iff h).mpr ⟨live, slowFirst⟩
      refine ⟨⟨live, slowFirst⟩, fun x above' notRoot n' hx' => ?_⟩
      rw [first.ancestors_eq ok ok' live'] at above'
      rcases first.back hx' with ⟨n, hx, kept⟩
      rw [kept.closed, kept.gross]
      exact (slow x above' notRoot n hx).imp_right fun le => (max_le_iff_le.mp le).2
  survives := by
    intro h n n'' hn hn''
    rcases second.back hn'' with ⟨n', hn', later⟩
    exact first.survives_trans second (first.survives h n n' hn hn') later

end IsTrim

/-! ## A trim with nothing to do -/

/-- A tree in which a trim finds nothing to do: no child of a node is fast, and every closed node nets
the time that its children leave. -/
structure Settled (t : CallTree) (threshold : UInt64) : Prop where
  slow : ∀ h n, t.get? h = some n → ∀ c ∈ n.children, t.isFast threshold c = false
  net : ∀ h n, t.get? h = some n → n.closed = true → n.net.toNat = n.gross.toNat - t.childTime h

/-- If no child is fast, all are kept and nothing is removed. -/
theorem sift_slow (cs : List NodeRef) (t : CallTree) (pool : NodePool)
    (slow : ∀ c ∈ cs, t.Live c ∧ t.isFast threshold c = false) :
    sift threshold cs t pool = (cs, 0, t, pool) := by
  induction cs with
  | nil => rfl
  | cons c rest ih =>
    rcases slow c (List.mem_cons_self ..) with ⟨⟨n, hn⟩, here⟩
    have later := ih fun d hd => slow d (List.mem_cons_of_mem _ hd)
    have notFast : (n.closed && decide (n.gross < threshold)) = false := by
      simpa [isFast, hn] using here
    simp only [sift, hn, notFast, later, Bool.false_eq_true, if_false]

/-- Children that are all slow stay, whatever they are. -/
theorem sift_childless_slow {cs : List NodeRef}
    (slow : ∀ c ∈ cs, t.Live c ∧ t.isFast threshold c = false) (h : NodeRef) (pool : NodePool) :
    sift threshold cs (t.childless h) pool = (cs, 0, t.childless h, pool) := by
  apply sift_slow
  intro c hc
  rcases slow c hc with ⟨there, here⟩
  exact ⟨live_update.mpr there, (isFast_childless t threshold h c).trans here⟩

/-- A visit that finds no fast child rewrites the visited node and nothing else. -/
theorem trimNode_slow (live : t.get? h = some n)
    (slow : ∀ c ∈ n.children, t.Live c ∧ t.isFast threshold c = false) (pool : NodePool) :
    ∃ net : CallNode → UInt64, t.trimNode pool threshold h =
      (n.children, t.update h fun m => { m with children := n.children, net := net m }, pool) := by
  have sifted := sift_childless_slow slow h pool
  unfold childless at sifted
  unfold trimNode
  rw [live]
  dsimp only
  rw [sifted]
  dsimp only
  rw [update_update]
  exact ⟨_, rfl⟩

/-- A visit of a settled tree changes nothing, not even the net time that it computes anew. -/
theorem Settled.trimNode (settled : t.Settled threshold) (ok : t.Linked) (pool : NodePool)
    (h : NodeRef) : (t.trimNode pool threshold h).2 = (t, pool) := by
  cases live : t.get? h with
  | none => simp only [CallTree.trimNode, live]
  | some n =>
    have self : ∀ c ∈ n.children, (t.childless h).get? c = t.get? c :=
      fun c hc => get?_childless_of_child ok live hc
    have sifted : sift threshold n.children (t.childless h) pool =
        (n.children, 0, t.childless h, pool) := by
      apply sift_childless_slow
      intro c hc
      rcases ok.child_live live hc with ⟨cn, hcn, -⟩
      exact ⟨⟨cn, hcn⟩, settled.slow h n live c hc⟩
    unfold childless at sifted
    simp only [CallTree.trimNode, live, sifted]
    -- the list of children is taken out and put back, and the net time is computed as it is
    have kept : (t.update h ({ · with children := [] })).grossTotal n.children =
        t.grossTotal n.children := grossTotal_congr self
    rw [kept, update_update]
    congr 1
    apply update_eq_self
    intro m hm
    cases Option.mem_unique live hm
    have net : (if n.closed = true then saturatingSub n.gross (t.grossTotal n.children)
        else n.net + 0) = n.net := by
      split
      · rename_i closed
        have bound := n.gross.toNat_lt
        apply UInt64.toNat_inj.mp
        rw [settled.net h n live closed, CallTree.childTime_eq live, saturatingSub_grossTotal,
          UInt64.toNat_ofNat_of_lt']
        · rfl
        · show _ < 2 ^ 64
          omega
      · exact UInt64.add_zero _
    show { n with net := _ } = n
    rw [net]

/-- A trim with nothing to do leaves the tree and the pool as they are. -/
theorem Settled.removeCallsFasterThan (settled : t.Settled threshold) (ok : t.Linked)
    (pool : NodePool) : t.removeCallsFasterThan pool threshold = (t, pool) := by
  have still : ∀ fuel pending, trimPending threshold fuel pending t pool = (t, pool) := by
    intro fuel
    induction fuel with
    | zero => exact fun _ => rfl
    | succ fuel ih =>
      intro pending
      cases pending with
      | nil => rfl
      | cons h pending =>
        have visited := settled.trimNode ok pool h
        simp only [trimPending, visited, ih]
  exact still t.slots.size [t.root]

/-- A trim leaves nothing to do for a second one that is no stricter. -/
theorem IsTrim.settled (trim : t.IsTrim a t') (ok' : t'.WellFormed) (le : b ≤ a) :
    t'.Settled b where
  slow := by
    intro h n' hn' c hc
    rcases ok'.child_live hn' hc with ⟨cn', hcn', parent⟩
    rcases trim.back hcn' with ⟨cn, hcn, kept⟩
    have notRoot : c ≠ t.root := trim.root ▸ ok'.toLinked.ne_root hcn' parent
    by_contra fast
    rcases (isFast_iff hcn').mp (Bool.eq_true_of_not_eq_false fast) with ⟨ended, less⟩
    rcases ((trim.live_iff c).mp ⟨cn', hcn'⟩).2 c (List.mem_cons_self ..) notRoot cn hcn with
      isOpen | slow
    · rw [← kept.closed, ended] at isOpen
      exact absurd isOpen (by simp)
    · rw [← kept.gross] at slow
      exact UInt64.not_lt.mpr (UInt64.le_trans le slow) less
  net := by
    intro h n' hn' closed
    rcases trim.back hn' with ⟨n, hn, kept⟩
    exact kept.closed_net closed

/-! ## Trees that cannot be told apart -/

/-- Two trees that hold the same nodes under the same handles, and so read the same. -/
structure Alike (t t' : CallTree) : Prop where
  get? : ∀ h, t.get? h = t'.get? h
  size : t.size = t'.size
  snapshot : t.snapshot = t'.snapshot

/-- Trees that answer alike under every handle have one size and one snapshot. -/
theorem alike_of_get? (ok : t.WellFormed) (ok' : t'.WellFormed) (root : t.root = t'.root)
    (same : ∀ h, t.get? h = t'.get? h) : t.Alike t' := by
  have snapshot : t.snapshot = t'.snapshot := by
    unfold CallTree.snapshot
    rw [root]
    exact snapshotFrom_congr ok' ok ok'.toLinked.live_root fun y _ => same y
  rcases exists_snapshot ok ok.toLinked.live_root with ⟨s, copy⟩
  refine ⟨same, ?_, snapshot⟩
  rw [size_eq_count ok copy, size_eq_count ok' (snapshot.symm.trans copy)]

/-- Trees that come from one tree by trims are alike if one description fits both. -/
theorem IsTrim.alike (one : t.IsTrim threshold t') (other : t.IsTrim threshold t'')
    (ok' : t'.WellFormed) (ok'' : t''.WellFormed) : t'.Alike t'' :=
  alike_of_get? ok' ok'' (one.root.trans other.root.symm) (one.unique other)

end CallTree

/-! ## Every history -/

/-- A trim comes to its end, and it leaves exactly the nodes that are slow or open and lie below no fast
call but the root. Each keeps what it holds on its own account, its children keep their order, and its
net time is that of the children that it keeps. This holds after any changes to a tree whose slots can be
numbered in 32 bits, also where calls are ended twice or after their callers. -/
theorem trim_removes_fast_calls (pooling : Bool) (before : List PoolEvent) (now : Reading)
    (signature : String) (events : List TreeEvent)
    (room : ((SharedTree.begin pooling before now signature).run events).tree.slots.size < 2 ^ 32)
    (pool : NodePool) (threshold : UInt64) :
    let t := ((SharedTree.begin pooling before now signature).run events).tree
    CallTree.TrimEnds threshold [t.root] t pool (t.removeCallsFasterThan pool threshold) ∧
    t.IsTrim threshold (t.removeCallsFasterThan pool threshold).1 := by
  intro t
  have ok := ((SharedTree.good_begin pooling before now signature).run room).tree
  exact ⟨CallTree.removeCallsFasterThan_ends ok.toSlotted ok.toLinked pool threshold,
    ok.isTrim pool threshold⟩

/-- A history in which a call ends before the one below it and once more later, a leaf is longer than
its caller, a fast call has a slow one below it, and calls stay open. -/
def unruledHistory : List TreeEvent :=
  [.edit 10 (.openChild ⟨0, 0⟩ "load"), .edit 12 (.openChild ⟨1, 0⟩ "parse"),
    .edit 20 (.close ⟨1, 0⟩ none 0), .edit 26 (.close ⟨2, 0⟩ none 0),
    .edit 27 (.addIoCall ⟨1, 0⟩ "read" 50), .edit 30 (.openChild ⟨0, 0⟩ "brief"), .pool .taken,
    .edit 31 (.addIoCall ⟨4, 0⟩ "slow" 40), .edit 33 (.close ⟨4, 0⟩ none 0),
    .edit 34 (.openChild ⟨0, 0⟩ "still"), .edit 35 (.addIoCall ⟨6, 0⟩ "tick" 2),
    .edit 60 (.close ⟨1, 0⟩ (some "loaded") 0)]

/-- The history has room, and its trim removes three calls of eight. -/
theorem trim_of_unruledHistory :
    let t := ((SharedTree.begin true [] 0 "job").run unruledHistory).tree
    t.slots.size < 2 ^ 32 ∧ t.size = 8 ∧ (t.removeCallsFasterThan {} 14).1.size = 5 ∧
    CallTree.TrimEnds 14 [t.root] t {} (t.removeCallsFasterThan {} 14) ∧
    t.IsTrim 14 (t.removeCallsFasterThan {} 14).1 := by
  have room : ((SharedTree.begin true [] 0 "job").run unruledHistory).tree.slots.size < 2 ^ 32 := by
    decide +kernel
  exact ⟨room, by decide +kernel, by decide +kernel,
    trim_removes_fast_calls true [] 0 "job" unruledHistory room {} 14⟩

/-- A trim of a tree whose root is a fast child of its own removes the root. -/
theorem CallTree.root_removed {t : CallTree} {n : CallNode} {threshold : UInt64}
    (live : t.get? t.root = some n) (listed : t.root ∈ n.children)
    (fast : t.isFast threshold t.root = true) (pool : NodePool) :
    (t.removeCallsFasterThan pool threshold).1.get? t.root = none := by
  unfold CallTree.removeCallsFasterThan
  cases size : t.slots.size with
  | zero =>
    rw [CallTree.get?, Array.getElem?_eq_none (by omega)] at live
    cases live
  | succ fuel =>
    have after := CallTree.thinned_trimPending threshold fuel
      ((t.trimNode pool threshold t.root).1.reverse ++ []) (t.trimNode pool threshold t.root).2.1
      (t.trimNode pool threshold t.root).2.2
    exact after.gone (CallTree.trimNode_fast live listed fast pool)

/-- Without a number for the last slot, a trim can remove the root, which it is to leave alone. -/
theorem trim_of_endedLoopHistory_removes_root :
    let t := ((SharedTree.begin true [] 0 "job").run endedLoopHistory).tree
    t.Live t.root ∧ ¬ (t.removeCallsFasterThan {} 6).1.Live t.root ∧
    ¬ t.IsTrim 6 (t.removeCallsFasterThan {} 6).1 := by
  have shape := run_endedLoopHistory
  dsimp only at shape ⊢
  generalize ((SharedTree.begin true [] 0 "job").run endedLoopHistory).tree = t at shape ⊢
  rcases shape with ⟨root, size, job, -⟩
  have job := (congrArg t.get? root).trans job
  have fast : t.isFast 6 t.root = true := (CallTree.isFast_iff job).mpr (by decide)
  have gone := CallTree.root_removed job (by rw [root]; decide) fast {}
  have removed : ¬ (t.removeCallsFasterThan {} 6).1.Live t.root := by
    rintro ⟨n, live⟩
    rw [gone] at live
    cases live
  have alone : t.ancestors t.root = [] := by
    unfold CallTree.ancestors
    rw [size, CallTree.parentChain, CallTree.parent?, job, Option.bind_some]
  refine ⟨⟨_, job⟩, removed, fun trim => removed ((trim.live_iff t.root).mpr ⟨⟨_, job⟩, ?_⟩)⟩
  intro x above other
  rw [alone] at above
  exact absurd (List.mem_singleton.mp above) other

/-- Two trims one after the other leave the same as one at the greater threshold, so their order does
not matter; a second trim at the same threshold changes neither the tree nor the pool. Assumed: the slots
of the tree can be numbered in 32 bits. -/
theorem trims_compose (pooling : Bool) (before : List PoolEvent) (now : Reading)
    (signature : String) (events : List TreeEvent)
    (room : ((SharedTree.begin pooling before now signature).run events).tree.slots.size < 2 ^ 32)
    (a b : UInt64) (pool pool' pool'' : NodePool) :
    let t := ((SharedTree.begin pooling before now signature).run events).tree
    CallTree.Alike ((t.removeCallsFasterThan pool a).1.removeCallsFasterThan pool' b).1
      (t.removeCallsFasterThan pool'' (max a b)).1 ∧
    CallTree.Alike ((t.removeCallsFasterThan pool b).1.removeCallsFasterThan pool' a).1
      (t.removeCallsFasterThan pool'' (max a b)).1 ∧
    (t.removeCallsFasterThan pool a).1.removeCallsFasterThan pool' a =
      ((t.removeCallsFasterThan pool a).1, pool') := by
  intro t
  have ok : t.WellFormed := ((SharedTree.good_begin pooling before now signature).run room).tree
  -- the two thresholds are interchangeable because a call is as slow as both in either order
  have once := ok.isTrim pool'' (max a b)
  have okOnce := ok.removeCallsFasterThan pool'' (max a b)
  have twice : ∀ c d, t.IsTrim (max c d)
      ((t.removeCallsFasterThan pool c).1.removeCallsFasterThan pool' d).1 := by
    intro c d
    have ok' := ok.removeCallsFasterThan pool c
    exact (ok.isTrim pool c).trans ok ok' (ok'.isTrim pool' d)
  have okTwice : ∀ c d,
      ((t.removeCallsFasterThan pool c).1.removeCallsFasterThan pool' d).1.WellFormed :=
    fun c d => (ok.removeCallsFasterThan pool c).removeCallsFasterThan pool' d
  refine ⟨(twice a b).alike once (okTwice a b) okOnce, ?_, ?_⟩
  · have same : max b a = max a b := UInt64.le_antisymm
      (max_le_iff_le.mpr (max_le_iff_le.mp (UInt64.le_refl _)).symm)
      (max_le_iff_le.mpr (max_le_iff_le.mp (UInt64.le_refl _)).symm)
    exact (same ▸ twice b a).alike once (okTwice b a) okOnce
  · have ok' := ok.removeCallsFasterThan pool a
    exact ((ok.isTrim pool a).settled ok' (UInt64.le_refl a)).removeCallsFasterThan ok'.toLinked pool'

/-- The history has room, so both orders of the thresholds agree on it. -/
theorem trims_of_unruledHistory_compose :
    let t := ((SharedTree.begin true [] 0 "job").run unruledHistory).tree
    t.slots.size < 2 ^ 32 ∧
    CallTree.Alike ((t.removeCallsFasterThan {} 3).1.removeCallsFasterThan {} 14).1
      (t.removeCallsFasterThan {} (max 3 14)).1 ∧
    CallTree.Alike ((t.removeCallsFasterThan {} 14).1.removeCallsFasterThan {} 3).1
      (t.removeCallsFasterThan {} (max 3 14)).1 ∧
    (t.removeCallsFasterThan {} 3).1.removeCallsFasterThan {} 3 =
      ((t.removeCallsFasterThan {} 3).1, {}) := by
  have room : ((SharedTree.begin true [] 0 "job").run unruledHistory).tree.slots.size < 2 ^ 32 := by
    decide +kernel
  exact ⟨room, trims_compose true [] 0 "job" unruledHistory room 3 14 {} {} {}⟩

/-! ### A root below one of its calls -/

namespace CallTree

/-- Of three calls of the root, the last one has ended after it and has it for a child. The first one has
no calls of its own, and all that has ended are these two. -/
structure Crossed (t : CallTree) (rn bn pn : CallNode) : Prop where
  top : t.root = ⟨0, 0⟩
  size : t.slots.size = 2 ^ 32 + 1
  root : t.get? ⟨0, 0⟩ = some rn
  brief : rn.closed = true ∧ rn.gross = 1 ∧ rn.children = [⟨1, 0⟩, ⟨2, 0⟩, ⟨3, 0⟩]
  leaf : t.get? ⟨1, 0⟩ = some bn
  crowded : t.Live ⟨2, 0⟩
  caller : t.get? ⟨3, 0⟩ = some pn
  slow : pn.closed = true ∧ pn.gross = 3 ∧ pn.children = [⟨0, 0⟩]
  others : ∀ x n, t.get? x = some n → x ≠ ⟨0, 0⟩ → x ≠ ⟨3, 0⟩ → n.closed = false

variable {t : CallTree} {rn bn pn : CallNode}

/-- What is found while the children of the root are sifted: the root has none. -/
theorem Crossed.childless_nodes (crossed : t.Crossed rn bn pn) :
    (t.childless ⟨0, 0⟩).get? ⟨0, 0⟩ = some { rn with children := [] } ∧
    (t.childless ⟨0, 0⟩).get? ⟨1, 0⟩ = some bn ∧ (t.childless ⟨0, 0⟩).Live ⟨2, 0⟩ ∧
    (t.childless ⟨0, 0⟩).get? ⟨3, 0⟩ = some pn := by
  have get := get?_childless t ⟨0, 0⟩
  rcases crossed.crowded with ⟨cn, crowded⟩
  refine ⟨?_, ?_, ⟨cn, ?_⟩, ?_⟩
  · rw [get, if_pos rfl, crossed.root, Option.map_some]
  · rw [get, if_neg (by decide), crossed.leaf]
  · rw [get, if_neg (by decide), crowded]
  · rw [get, if_neg (by decide), crossed.caller]

/-- Meanwhile the root is all that is below its caller. -/
theorem Crossed.below_caller (crossed : t.Crossed rn bn pn) {x : NodeRef} :
    (t.childless ⟨0, 0⟩).Below ⟨3, 0⟩ x ↔ x = ⟨3, 0⟩ ∨ x = ⟨0, 0⟩ := by
  rcases crossed.childless_nodes with ⟨root, -, -, caller⟩
  constructor
  · intro below
    rcases below.eq_or_below_child caller with same | ⟨c, listed, below⟩
    · exact .inl same
    rw [crossed.slow.2.2, List.mem_singleton] at listed
    rw [listed] at below
    rcases below.eq_or_below_child root with same | ⟨d, listed, -⟩
    · exact .inr same
    · cases listed
  · rintro (rfl | rfl)
    · exact .self caller
    · exact (Below.self caller).child caller (by rw [crossed.slow.2.2]; decide) root

/-- At a threshold above its time the caller of the root is sifted out, and no other call is. -/
theorem Crossed.sift_removes (crossed : t.Crossed rn bn pn) (pool : NodePool) :
    (sift 4 rn.children (t.childless ⟨0, 0⟩) pool).2.2.1 =
      ((t.childless ⟨0, 0⟩).remove pool [⟨3, 0⟩]).1 := by
  rcases crossed.childless_nodes with ⟨-, leaf, ⟨cn, crowded⟩, caller⟩
  have leafOpen := crossed.others _ _ crossed.leaf (by decide) (by decide)
  have crowdOpen : cn.closed = false := by
    rw [get?_childless, if_neg (by decide)] at crowded
    exact crossed.others _ _ crowded (by decide) (by decide)
  have fast : pn.gross < 4 := by
    rw [crossed.slow.2.1]
    decide
  simp [crossed.brief.2.2, sift, leaf, crowded, caller, leafOpen, crowdOpen, crossed.slow.1, fast]

/-- All else stays. -/
theorem Crossed.get?_sifted (crossed : t.Crossed rn bn pn) (pool : NodePool) {x : NodeRef}
    {n : CallNode} : ((t.childless ⟨0, 0⟩).remove pool [⟨3, 0⟩]).1.get? x = some n ↔
      t.get? x = some n ∧ x ≠ ⟨0, 0⟩ ∧ x ≠ ⟨3, 0⟩ := by
  have gone : (∃ h ∈ [(⟨3, 0⟩ : NodeRef)], (t.childless ⟨0, 0⟩).Below h x) ↔
      x = ⟨3, 0⟩ ∨ x = ⟨0, 0⟩ := by
    rw [← crossed.below_caller]
    simp
  rw [get?_remove, gone, get?_childless]
  by_cases atRoot : x = ⟨0, 0⟩
  · simp [atRoot]
  · simp [atRoot]

/-- A trim that removes the caller of the root, and the root with it, leaves the leaf alone. -/
theorem Crossed.leaf_stays (crossed : t.Crossed rn bn pn) (pool : NodePool) :
    (t.removeCallsFasterThan pool 4).1.Live ⟨1, 0⟩ := by
  have leaf : ((t.childless ⟨0, 0⟩).remove pool [⟨3, 0⟩]).1.Live ⟨1, 0⟩ :=
    ⟨bn, (crossed.get?_sifted pool).mpr ⟨crossed.leaf, by decide, by decide⟩⟩
  have allOpen : ((t.childless ⟨0, 0⟩).remove pool [⟨3, 0⟩]).1.AllOpen := by
    intro x n hx
    rcases (crossed.get?_sifted pool).mp hx with ⟨hx, notRoot, notCaller⟩
    exact crossed.others x n hx notRoot notCaller
  have visited : (t.trimNode pool 4 ⟨0, 0⟩).2.1.AllOpen ∧
      (t.trimNode pool 4 ⟨0, 0⟩).2.1.Live ⟨1, 0⟩ := by
    unfold trimNode
    rw [crossed.root]
    show (update (sift 4 rn.children (t.childless ⟨0, 0⟩) pool).2.2.1 _ _).AllOpen ∧
      (update (sift 4 rn.children (t.childless ⟨0, 0⟩) pool).2.2.1 _ _).Live _
    rw [crossed.sift_removes]
    exact ⟨allOpen.update _ fun _ => rfl, live_update.mpr leaf⟩
  -- what is left has not ended, so the visits that follow remove nothing
  unfold removeCallsFasterThan
  rw [crossed.top, crossed.size]
  exact (visited.1.trimPending ..).mpr visited.2

/-- At a threshold below the time of the caller no call of the root is fast. -/
theorem Crossed.children_slow (crossed : t.Crossed rn bn pn) :
    ∀ c ∈ rn.children, t.Live c ∧ t.isFast 2 c = false := by
  rcases crossed.crowded with ⟨cn, crowded⟩
  have leafOpen := crossed.others _ _ crossed.leaf (by decide) (by decide)
  have crowdOpen := crossed.others _ _ crowded (by decide) (by decide)
  have slow : ¬ pn.gross < 2 := by
    rw [crossed.slow.2.1]
    decide
  rw [crossed.brief.2.2]
  intro c listed
  simp only [List.mem_cons, List.not_mem_nil, or_false] at listed
  rcases listed with rfl | rfl | rfl
  · exact ⟨⟨_, crossed.leaf⟩, by simp [isFast, crossed.leaf, leafOpen]⟩
  · exact ⟨⟨_, crowded⟩, by simp [isFast, crowded, crowdOpen]⟩
  · exact ⟨⟨_, crossed.caller⟩, by simp [isFast, crossed.caller, slow]⟩

/-- A trim that keeps the caller of the root comes to it, and removes all that is below the root. -/
theorem Crossed.leaf_goes (crossed : t.Crossed rn bn pn) (pool : NodePool) :
    (t.removeCallsFasterThan pool 2).1.get? ⟨1, 0⟩ = none := by
  rcases trimNode_slow crossed.root crossed.children_slow pool with ⟨net, visited⟩
  obtain ⟨fuel, enough⟩ : ∃ fuel, t.slots.size = fuel + 1 + 1 := ⟨2 ^ 32 - 1, crossed.size⟩
  unfold removeCallsFasterThan
  rw [crossed.top, enough, trimPending_cons, visited, crossed.brief.2.2]
  -- next is the caller, which is the last of the three
  show (trimPending 2 (fuel + 1) (⟨3, 0⟩ :: [⟨2, 0⟩, ⟨1, 0⟩]) _ _).1.get? ⟨1, 0⟩ = none
  rw [trimPending_cons]
  refine (thinned_trimPending ..).gone ?_
  have get := fun x => get?_update t ⟨0, 0⟩ x fun m =>
    { m with children := [⟨1, 0⟩, ⟨2, 0⟩, ⟨3, 0⟩], net := net m }
  generalize t.update ⟨0, 0⟩ _ = t₁ at get ⊢
  have root : t₁.get? ⟨0, 0⟩ =
      some { rn with children := [⟨1, 0⟩, ⟨2, 0⟩, ⟨3, 0⟩], net := net rn } := by
    rw [get, if_pos rfl, crossed.root, Option.map_some]
  have leaf : t₁.get? ⟨1, 0⟩ = some bn := by rw [get, if_neg (by decide), crossed.leaf]
  have caller : t₁.get? ⟨3, 0⟩ = some pn := by rw [get, if_neg (by decide), crossed.caller]
  have brief : rn.gross < 2 := by
    rw [crossed.brief.2.1]
    decide
  have fast : t₁.isFast 2 ⟨0, 0⟩ = true := (isFast_iff root).mpr ⟨crossed.brief.1, brief⟩
  exact trimNode_grandchild caller crossed.slow.2.2 fast root (by decide) (List.mem_cons_self ..) leaf
    (by decide) pool

end CallTree

/-- Three calls are started below the root. The crowd below the second one fills all slots that have
numbers, and the call that is started below the third one gets the handle of the root. Then the root
ends, and the third call after it. -/
def crossedHistory : List TreeEvent :=
  [.edit 0 (.openChild ⟨0, 0⟩ "load"), .edit 0 (.openChild ⟨0, 0⟩ "fill"),
    .edit 0 (.openChild ⟨0, 0⟩ "store")] ++ (overrun (2 ^ 32 - 4) ⟨2, 0⟩ ⟨3, 0⟩ ++
    [.edit 1 (.close ⟨0, 0⟩ none 0), .edit 3 (.close ⟨3, 0⟩ none 0)])

/-- The end of a root and then of a call below it touches these two only. -/
theorem SharedTree.run_closes {s : SharedTree} {r h : NodeRef} {rn n : CallNode} (now later : Reading)
    (root : s.tree.get? r = some rn) (noParent : rn.parent = none) (call : s.tree.get? h = some n)
    (below : n.parent = some r) (apart : h ≠ r) :
    let t := (s.run [.edit now (.close r none 0), .edit later (.close h none 0)]).tree
    CallTree.Thinned s.tree t ∧
    t.get? r = some ((rn.closedAt now none).charge (saturatingSub later n.start)) ∧
    t.get? h = some (n.closedAt later none) ∧
    ∀ x, x ≠ r → x ≠ h → t.get? x = s.tree.get? x := by
  dsimp only
  rw [run_cons, step_close_root root noParent, run_cons, run_nil]
  have get := fun x => CallTree.get?_update s.tree r x fun _ => rn.closedAt now none
  have thin := CallTree.thinned_update s.tree r fun _ => rn.closedAt now none
  generalize s.tree.update r (fun _ => rn.closedAt now none) = t₁ at get thin ⊢
  have root₁ : t₁.get? r = some (rn.closedAt now none) := by
    rw [get, if_pos rfl, root, Option.map_some]
  have call₁ : t₁.get? h = some n := by rw [get, if_neg apart, call]
  have step : SharedTree.step ⟨t₁, s.pool⟩ (.edit later (.close h none 0)) =
      ⟨(t₁.update h fun _ => n.closedAt later none).update r (·.charge (saturatingSub later n.start)),
        s.pool⟩ := by
    simp only [SharedTree.step, CallTree.edit]
    rw [CallTree.close_charged call₁ below ⟨_, root₁⟩ UInt64.not_lt_zero]
  rw [step]
  dsimp only
  have get' := fun x => CallTree.get?_update t₁ h x fun _ => n.closedAt later none
  have thin' := CallTree.thinned_update t₁ h fun _ => n.closedAt later none
  generalize t₁.update h (fun _ => n.closedAt later none) = t₂ at get' thin' ⊢
  have get'' := fun x => CallTree.get?_update t₂ r x (·.charge (saturatingSub later n.start))
  refine ⟨(thin.trans thin').trans (CallTree.thinned_update t₂ r _), ?_, ?_, fun x notRoot notCall => ?_⟩
  · rw [get'', if_pos rfl, get', if_neg apart.symm, root₁, Option.map_some]
  · rw [get'', if_neg apart, get', if_pos rfl, call₁, Option.map_some]
  · rw [get'', if_neg notRoot, get', if_neg notCall, get, if_neg notRoot]

/-- The root ends after one unit and a call below it after three, where the tree was overrun. -/
theorem SharedTree.crossed_of_overrun {s s' : SharedTree} {rn bn cn pn : CallNode}
    (overrun : s.tree.Overrun ⟨2, 0⟩ cn ⟨3, 0⟩ pn s'.tree) (top : s.tree.root = ⟨0, 0⟩)
    (allOpen : s.tree.AllOpen) (root : s.tree.get? ⟨0, 0⟩ = some rn)
    (first : rn.parent = none ∧ rn.start = 0 ∧ rn.children = [⟨1, 0⟩, ⟨2, 0⟩, ⟨3, 0⟩])
    (leaf : s.tree.get? ⟨1, 0⟩ = some bn)
    (last : pn.parent = some ⟨0, 0⟩ ∧ pn.start = 0 ∧ pn.children = []) :
    ∃ rn pn, (s'.run [.edit 1 (.close ⟨0, 0⟩ none 0), .edit 3 (.close ⟨3, 0⟩ none 0)]).tree.Crossed
      rn bn pn := by
  have allOpen := overrun.allOpen allOpen
  have root := overrun.others (by decide) (by decide) root
  have leaf := overrun.others (by decide) (by decide) leaf
  rcases overrun.crowded with ⟨more, crowded⟩
  rcases SharedTree.run_closes 1 3 root first.1 overrun.caller last.1 (by decide) with
    ⟨thin, root', caller', others⟩
  generalize (s'.run _).tree = t at thin root' caller' others ⊢
  refine ⟨(rn.closedAt 1 none).charge (saturatingSub 3 pn.start),
    ({ pn with children := pn.children ++ [⟨0, 0⟩] } : CallNode).closedAt 3 none, ?_⟩
  exact {
    top := by rw [thin.root, overrun.root, top]
    size := by rw [thin.size, overrun.size]
    root := root'
    brief := by
      refine ⟨rfl, ?_, first.2.2⟩
      show saturatingSub 1 rn.start = 1
      rw [first.2.1]
      decide
    leaf := by rw [others _ (by decide) (by decide), leaf]
    crowded := ⟨_, by rw [others _ (by decide) (by decide), crowded]⟩
    caller := caller'
    slow := by
      refine ⟨rfl, ?_, ?_⟩
      · show saturatingSub 3 pn.start = 3
        rw [last.2.1]
        decide
      · show pn.children ++ [⟨0, 0⟩] = [⟨0, 0⟩]
        rw [last.2.2, List.nil_append]
    others := by
      intro x n live notRoot notCaller
      rw [others x notRoot notCaller] at live
      exact allOpen x n live }

/-- The root has ended and is the child of a slower call of its own. -/
theorem run_crossedHistory : ∃ rn bn pn,
    ((SharedTree.begin true [] 0 "job").run crossedHistory).tree.Crossed rn bn pn := by
  rw [crossedHistory, SharedTree.run_append, SharedTree.run_append]
  have begun := SharedTree.begun_three "load" "fill" "store"
  generalize (SharedTree.begin true [] 0 "job").run _ = s at begun ⊢
  have filled : s.tree.slots.size + (2 ^ 32 - 4) = 2 ^ 32 := by
    have size := begun.size
    omega
  rcases SharedTree.overrun_run begun.full begun.blank begun.second begun.third (by decide) filled with
    ⟨overran, -⟩
  generalize s.run (overrun (2 ^ 32 - 4) ⟨2, 0⟩ ⟨3, 0⟩) = s' at overran ⊢
  rcases SharedTree.crossed_of_overrun overran begun.top begun.allOpen begun.root ⟨rfl, rfl, rfl⟩
    begun.first ⟨rfl, rfl, rfl⟩ with ⟨rn, pn, crossed⟩
  exact ⟨rn, _, pn, crossed⟩

/-- Without a number for the last slot, two trims one after the other can remove a call that one trim at
the greater threshold leaves. -/
theorem trims_of_crossedHistory_differ :
    let t := ((SharedTree.begin true [] 0 "job").run crossedHistory).tree
    ¬ CallTree.Alike ((t.removeCallsFasterThan {} 2).1.removeCallsFasterThan {} 4).1
      (t.removeCallsFasterThan {} (max 2 4)).1 := by
  rcases run_crossedHistory with ⟨rn, bn, pn, crossed⟩
  dsimp only
  generalize ((SharedTree.begin true [] 0 "job").run crossedHistory).tree = t at crossed ⊢
  intro alike
  have greater : max (2 : UInt64) 4 = 4 := by decide
  have gone : ((t.removeCallsFasterThan {} 2).1.removeCallsFasterThan {} 4).1.get? ⟨1, 0⟩ = none :=
    (CallTree.thinned_trimPending ..).gone (crossed.leaf_goes {})
  rcases crossed.leaf_stays {} with ⟨n, stays⟩
  have same := alike.get? ⟨1, 0⟩
  rw [gone, greater, stays] at same
  cases same

end CallProfiler
