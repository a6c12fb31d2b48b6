import CallProfiler.Proofs.Stack.Frames

/-!
# Proofs.Stack.Spelling: a recording spells a list of open calls

`Spells` says that the open nodes of a tree, from a node up to the root, are the frames of a list. Each
open node holds its frame: its children are those of the frame and the open node below it, and all that
is below the finished children has ended. Its net time is minus that of the finished children.

Each operation on the innermost open node changes nothing that is not at or below that node or its
parent, so the frames above it stay as they are (`Spells.replace`). What happens to the innermost frames
is said once for each operation: `spells_begin`, `Spells.openChild`, `Spells.addLeaf`, `Spells.rename`,
`Holds.closeRoot`, `Spells.closeKept` and `Spells.closePruned`.
-/

namespace CallProfiler.CallTree

variable {t t' : CallTree} {x p i c k y : NodeRef} {n pn : CallNode} {inner : Option NodeRef}
  {f g : Frame} {fs : List Frame} {kids : List NodeRef} {calls : List Snapshot}

theorem ne_of_not_below (live : t.get? x = some n) (outside : ¬ t.Below x y) : y ≠ x := by
  intro same
  rw [same] at outside
  exact outside (.self live)

/-! ## Finished children -/

/-- Some nodes have certain copies, and all that is below them has ended. -/
structure Finished (t : CallTree) (kids : List NodeRef) (calls : List Snapshot) : Prop where
  copies : kids.map t.snapshotFrom = calls.map some
  ended : ∀ k ∈ kids, ∀ y m, t.Below k y → t.get? y = some m → m.closed = true

theorem Finished.nil : t.Finished [] [] where
  copies := rfl
  ended := fun k hk => absurd hk (by simp)

/-- Finished children are there. -/
theorem Finished.live (done : t.Finished kids calls) (hk : k ∈ kids) : t.Live k := by
  have copied : t.snapshotFrom k ∈ calls.map some := by
    rw [← done.copies]
    exact List.mem_map_of_mem hk
  rcases List.mem_map.mp copied with ⟨s, _, copy⟩
  exact live_of_snapshot copy.symm

/-- Where nothing has changed below a node, nothing has come to lie below it. -/
theorem below_of_same (ok : t.Linked) (live : t.Live k)
    (same : ∀ y, t.Below k y → t'.get? y = t.get? y) (below : t'.Below k y) : t.Below k y := by
  induction below with
  | self _ =>
    rcases live with ⟨n, hn⟩
    exact .self hn
  | child _ hz hc _ ih =>
    rw [same _ ih] at hz
    rcases ok.child_live hz hc with ⟨cn, hcn, _⟩
    exact ih.child hz hc hcn

/-- Finished children stay so if nothing changes at or below them. -/
theorem Finished.congr (ok : t.WellFormed) (ok' : t'.WellFormed) (done : t.Finished kids calls)
    (same : ∀ k ∈ kids, ∀ y, t.Below k y → t'.get? y = t.get? y) : t'.Finished kids calls where
  copies := by
    rw [← done.copies]
    apply List.map_congr_left
    intro k hk
    exact snapshotFrom_congr ok ok' (done.live hk) (same k hk)
  ended := by
    intro k hk y m below hy
    have before := below_of_same ok.toLinked (done.live hk) (same k hk) below
    rw [same k hk y before] at hy
    exact done.ended k hk y m before hy

/-- One more call below which all have ended is one more finished child. -/
theorem Finished.concat {call : Snapshot} (done : t.Finished kids calls)
    (copy : t.snapshotFrom k = some call)
    (ended : ∀ y m, t.Below k y → t.get? y = some m → m.closed = true) :
    t.Finished (kids ++ [k]) (calls ++ [call]) where
  copies := by
    rw [List.map_append, List.map_append, done.copies]
    simp [copy]
  ended := by
    intro j hj
    rcases List.mem_append.mp hj with old | new
    · exact done.ended j old
    · rw [List.mem_singleton.mp new]
      exact ended

/-- The copies of the children of a node whose children have all finished. -/
theorem Finished.filterMap (done : t.Finished kids calls) :
    kids.filterMap t.snapshotFrom = calls := filterMap_of_map_some done.copies

/-! ## Frames -/

/-- An open node holds a frame: its finished children are those of the frame, and the open node below
it, if there is one, is its last child. -/
structure Holds (t : CallTree) (x : NodeRef) (n : CallNode) (inner : Option NodeRef) (f : Frame) :
    Prop where
  live : t.get? x = some n
  signature : n.signature = f.signature
  start : n.start = f.start
  net : n.net = -UInt64.ofNat (Snapshot.childTime f.children)
  ioCall : n.ioCall = false
  isOpen : n.closed = false
  children : ∃ kids, n.children = kids ++ inner.toList ∧ t.Finished kids f.children

/-- The open nodes from a node up to the root hold the frames of a list. -/
inductive Spells (t : CallTree) : Option NodeRef → NodeRef → List Frame → Prop where
  | root {inner : Option NodeRef} {x : NodeRef} {n : CallNode} {f : Frame} :
      t.Holds x n inner f → n.parent = none → t.Spells inner x [f]
  | up {inner : Option NodeRef} {x p : NodeRef} {n : CallNode} {f : Frame} {fs : List Frame} :
      t.Holds x n inner f → n.parent = some p → t.Spells (some x) p fs → t.Spells inner x (f :: fs)

/-- The innermost node holds the first frame. -/
theorem Spells.holds (sp : t.Spells inner x (f :: fs)) : ∃ n, t.Holds x n inner f := by
  cases sp with
  | root holds _ => exact ⟨_, holds⟩
  | up holds _ _ => exact ⟨_, holds⟩

/-- The innermost node is there. -/
theorem Spells.live (sp : t.Spells inner x fs) : t.Live x := by
  cases sp with
  | root holds _ => exact ⟨_, holds.live⟩
  | up holds _ _ => exact ⟨_, holds.live⟩

/-- What is below a finished child of an open node is not below the open node in it. -/
theorem Holds.apart (ok : t.Linked) (holds : t.Holds x n (some i) f)
    (children : n.children = kids ++ [i]) (hk : k ∈ kids) (below : t.Below k y) :
    ¬ t.Below i y := by
  intro inside
  have first : k ∈ n.children := by
    rw [children]
    exact List.mem_append_left _ hk
  have last : i ∈ n.children := by
    rw [children]
    exact List.mem_append_right _ (List.mem_singleton_self i)
  have same := ok.below_children_unique holds.live first last below inside
  have nodup := ok.children_nodup holds.live
  rw [children] at nodup
  exact (List.nodup_append.mp nodup).2.2 k hk i (List.mem_singleton_self i) same

/-- What is below a child is not at the node. -/
theorem Holds.not_self (ok : t.Linked) (holds : t.Holds x n inner f)
    (children : n.children = kids ++ inner.toList) (hk : k ∈ kids) (below : t.Below k y) :
    y ≠ x := by
  intro same
  have mem : k ∈ n.children := by
    rw [children]
    exact List.mem_append_left _ hk
  exact ok.not_below_child holds.live mem (same ▸ below)

/-- The frames above an open node stay when nothing changes but at and below that node. -/
theorem Spells.transport (ok : t.WellFormed) (ok' : t'.WellFormed) (sp : t.Spells (some i) x fs)
    (same : ∀ y m, t.get? y = some m → ¬ t.Below i y → t'.get? y = some m) :
    t'.Spells (some i) x fs := by
  have kept : ∀ {x n i f}, t.Holds x n (some i) f →
      (∀ y m, t.get? y = some m → ¬ t.Below i y → t'.get? y = some m) →
      t'.Holds x n (some i) f := by
    intro x n i f holds same
    rcases holds.children with ⟨kids, children, done⟩
    have mem : i ∈ n.children := by
      rw [children]
      exact List.mem_append_right _ (List.mem_singleton_self i)
    have above : ¬ t.Below i x := ok.toLinked.not_below_child holds.live mem
    refine ⟨same x n holds.live above, holds.signature, holds.start, holds.net, holds.ioCall,
      holds.isOpen, kids, children, done.congr ok ok' ?_⟩
    intro k hk y below
    rcases below.live_right with ⟨m, hm⟩
    rw [hm]
    exact same y m hm (holds.apart ok.toLinked children hk below)
  -- outwards along the frames: what lies below an inner node lies below the outer ones too
  generalize hi : some i = open? at sp
  induction sp generalizing i with
  | root holds parent =>
    subst hi
    exact .root (kept holds same) parent
  | @up _ x p n f fs holds parent _ ih =>
    subst hi
    refine .up (kept holds same) parent (ih (fun y m hm outside => same y m hm ?_) rfl)
    intro inside
    rcases holds.children with ⟨kids, children, _⟩
    have mem : i ∈ n.children := by
      rw [children]
      exact List.mem_append_right _ (List.mem_singleton_self i)
    rcases ok.child_live holds.live mem with ⟨m, hm, _⟩
    have step : t.Below x i := (Below.self holds.live).child holds.live mem hm
    exact outside (step.trans inside)

/-- The innermost frame changes with its node, and the frames above it stay. -/
theorem Spells.replace {inner' : Option NodeRef} {n' : CallNode} {f' : Frame} (ok : t.WellFormed)
    (ok' : t'.WellFormed) (sp : t.Spells inner x (f :: fs)) (live : t.get? x = some n)
    (same : ∀ y m, t.get? y = some m → ¬ t.Below x y → t'.get? y = some m)
    (holds : t'.Holds x n' inner' f') (parent : n'.parent = n.parent) :
    t'.Spells inner' x (f' :: fs) := by
  cases sp with
  | root old none =>
    have node := Option.mem_unique old.live live
    exact .root holds (by rw [parent, ← node, none])
  | up old above rest =>
    have node := Option.mem_unique old.live live
    exact .up holds (by rw [parent, ← node, above]) (rest.transport ok ok' same)

/-- The outermost frame is held by a node without a parent. -/
theorem Spells.outermost (sp : t.Spells inner x [f]) : ∃ n, t.Holds x n inner f ∧ n.parent = none := by
  cases sp with
  | root holds parent => exact ⟨_, holds, parent⟩
  | up _ _ rest => cases rest

/-- Any other frame is held by a node whose parent holds the next one. -/
theorem Spells.nested (sp : t.Spells inner x (f :: g :: fs)) :
    ∃ n p, t.Holds x n inner f ∧ n.parent = some p ∧ t.Spells (some x) p (g :: fs) := by
  cases sp with
  | up holds parent rest => exact ⟨_, _, holds, parent, rest⟩

/-! ## A call begins -/

/-- A call that has just begun holds a frame without calls. -/
theorem holds_begun {signature : String} {now : Reading} {parent : Option NodeRef}
    (live : t.get? x = some (CallNode.blank.begun signature now parent)) :
    t.Holds x (CallNode.blank.begun signature now parent) none ⟨signature, now, []⟩ where
  live := live
  signature := by simp [CallNode.begun, CallNode.blank]
  start := rfl
  net := by
    show (0 : UInt64) = -UInt64.ofNat 0
    decide
  ioCall := rfl
  isOpen := rfl
  children := ⟨[], rfl, .nil⟩

/-- A new tree spells one frame. -/
theorem spells_begin {pool : NodePool} (blank : pool.AllBlank) (now : Reading)
    (signature : String) : (CallTree.begin pool now signature).1.Spells none
      (CallTree.begin pool now signature).1.root [⟨signature, now, []⟩] := by
  rw [(begin_spec blank now signature).1]
  exact .root (holds_begun (by rw [get?_singleton, if_pos rfl])) rfl

theorem Grafted.old {n' cn m : CallNode} (g : Grafted t x c n' cn t') (hy : t.get? y = some m)
    (other : y ≠ x) : t'.get? y = some m := by
  have notNew : y ≠ c := by
    intro same
    rw [same, g.fresh] at hy
    exact absurd hy (by simp)
  rw [g.get?, if_neg notNew, if_neg other, hy]

theorem Grafted.child {n' cn : CallNode} (g : Grafted t x c n' cn t') : t'.get? c = some cn := by
  rw [g.get?, if_pos rfl]

theorem Grafted.parent {n' cn : CallNode} (g : Grafted t x c n' cn t') (live : t.get? x = some n) :
    t'.get? x = some n' := by
  have isOld : x ≠ c := by
    intro same
    have fresh := g.fresh
    rw [← same, live] at fresh
    exact absurd fresh (by simp)
  rw [g.get?, if_neg isOld, if_pos rfl]

/-- The finished children of a node stay as they are when a leaf comes after them. -/
theorem Finished.grafted {n' cn : CallNode} (ok : t.WellFormed) (ok' : t'.WellFormed)
    (holds : t.Holds x n inner f) (children : n.children = kids ++ inner.toList)
    (done : t.Finished kids calls) (g : Grafted t x c n' cn t') : t'.Finished kids calls := by
  apply done.congr ok ok'
  intro k hk y below
  rcases below.live_right with ⟨m, hm⟩
  rw [hm]
  exact g.old hm (holds.not_self ok.toLinked children hk below)

/-- A new call spells one more frame. -/
theorem Spells.openChild {signature : String} {now : Reading} (ok : t.WellFormed)
    (ok' : t'.WellFormed) (sp : t.Spells none x (f :: fs)) (live : t.get? x = some n)
    (graft : Grafted t x c { n with children := n.children ++ [c] }
      (CallNode.blank.begun signature now (some x)) t') :
    t'.Spells none c (⟨signature, now, []⟩ :: f :: fs) := by
  obtain ⟨m, holds⟩ := sp.holds
  have node := Option.mem_unique holds.live live
  subst node
  rcases holds.children with ⟨kids, children, done⟩
  have top : t'.Holds x { m with children := m.children ++ [c] } (some c) f := by
    refine ⟨graft.parent live, holds.signature, holds.start, holds.net, holds.ioCall, holds.isOpen,
      kids, ?_, done.grafted ok ok' holds children graft⟩
    rw [children]
    simp
  have above := sp.replace ok ok' live
    (fun y k hk outside => graft.old hk (ne_of_not_below live outside)) top rfl
  exact .up (holds_begun graft.child) rfl above

/-- A measured leaf is a call that the innermost frame keeps. -/
theorem Spells.addLeaf {description : String} {duration : UInt64} {now : Reading}
    (ok : t.WellFormed) (ok' : t'.WellFormed) (sp : t.Spells none x (f :: fs))
    (live : t.get? x = some n)
    (graft : Grafted t x c ({ n with children := n.children ++ [c] }.charge duration)
      (CallNode.blank.measured description duration now x) t') :
    t'.Spells none x (f.keep (.node description duration duration true []) :: fs) := by
  obtain ⟨m, holds⟩ := sp.holds
  have node := Option.mem_unique holds.live live
  subst node
  rcases holds.children with ⟨kids, children, done⟩
  -- the leaf is finished as soon as it is there
  have copy : t'.snapshotFrom c = some (.node description duration duration true []) := by
    rw [snapshotFrom_eq ok' graft.child]
    simp [CallNode.measured, CallNode.blank]
  have ended : ∀ y m, t'.Below c y → t'.get? y = some m → m.closed = true := by
    intro y m below hm
    rcases below.eq_or_below_child graft.child with same | ⟨d, hd, _⟩
    · rw [same, graft.child] at hm
      rw [← Option.some.inj hm]
      rfl
    · exact absurd hd (by simp [CallNode.measured, CallNode.blank])
  have net : ({ m with children := m.children ++ [c] }.charge duration).net =
      -UInt64.ofNat (Snapshot.childTime
        (f.children ++ [.node description duration duration true []])) := by
    have time : Snapshot.childTime (f.children ++ [.node description duration duration true []]) =
        Snapshot.childTime f.children + duration.toNat := by
      simp [Snapshot.childTime, Snapshot.gross]
    show (if m.closed then _ else m.net - duration) = _
    rw [holds.isOpen, holds.net, time, UInt64.ofNat_add, UInt64.ofNat_toNat, UInt64.neg_add]
    rfl
  have top : t'.Holds x ({ m with children := m.children ++ [c] }.charge duration) none
      (f.keep (.node description duration duration true [])) := by
    refine ⟨graft.parent live, holds.signature, holds.start, net, holds.ioCall, holds.isOpen,
      kids ++ [c], ?_, (done.grafted ok ok' holds children graft).concat copy ended⟩
    show m.children ++ [c] = _
    rw [children]
    simp
  exact sp.replace ok ok' live
    (fun y k hk outside => graft.old hk (ne_of_not_below live outside)) top rfl

/-- A new name of the innermost call is a new name of the first frame. -/
theorem Spells.rename (ok : t.WellFormed) (sp : t.Spells none x (f :: fs)) (signature : String) :
    (t.update x ({ · with signature := signature })).Spells none x
      ({ f with signature := signature } :: fs) := by
  obtain ⟨n, holds⟩ := sp.holds
  rcases holds.children with ⟨kids, children, done⟩
  have ok' : (t.update x ({ · with signature := signature })).WellFormed :=
    ok.update fun m _ => ⟨rfl, rfl⟩
  have here : (t.update x ({ · with signature := signature })).get? x =
      some { n with signature := signature } := by
    rw [get?_update, if_pos rfl, holds.live]
    rfl
  have kept : (t.update x ({ · with signature := signature })).Finished kids f.children := by
    apply done.congr ok ok'
    intro k hk y below
    rw [get?_update, if_neg (holds.not_self ok.toLinked children hk below)]
  have top : (t.update x ({ · with signature := signature })).Holds x
      { n with signature := signature } none { f with signature := signature } :=
    ⟨here, rfl, holds.start, holds.net, holds.ioCall, holds.isOpen, kids, children, kept⟩
  refine sp.replace ok ok' holds.live ?_ top rfl
  intro y m hm outside
  rw [get?_update, if_neg (ne_of_not_below holds.live outside), hm]

/-! ## A call ends -/

/-- The copy of a call that has ended is the finished frame. -/
theorem Holds.copy_closed (ok' : t'.WellFormed) (holds : t.Holds x n none f) {now : Reading}
    {signature : Option String} (live : t'.get? x = some (n.closedAt now signature))
    (done : t'.Finished n.children f.children) (fits : Snapshot.childTime f.children < 2 ^ 64) :
    t'.snapshotFrom x = some (f.finish now signature) := by
  have net : CallNode.closedNet (saturatingSub now f.start) n.net =
      Snapshot.netTime (saturatingSub now f.start) f.children := by
    rw [holds.net]
    exact closedNet_eq _ fits
  rw [snapshotFrom_eq ok' live]
  simp only [CallNode.closedAt, done.filterMap, holds.signature, holds.start, holds.ioCall, net]
  rfl

/-- All that is below a call that has ended has ended. -/
theorem Holds.ended_closed {now : Reading} {signature : Option String} {m : CallNode}
    (live : t'.get? x = some (n.closedAt now signature)) (done : t'.Finished n.children calls)
    (below : t'.Below x y) (hm : t'.get? y = some m) : m.closed = true := by
  rcases below.eq_or_below_child live with same | ⟨k, hk, inside⟩
  · rw [same, live] at hm
    rw [← Option.some.inj hm]
    rfl
  · exact done.ended k hk y m inside hm

/-- An innermost node has no open node in it. -/
theorem Holds.finished (holds : t.Holds x n none f) : t.Finished n.children f.children := by
  rcases holds.children with ⟨kids, children, done⟩
  have all : n.children = kids := by
    rw [children]
    exact List.append_nil kids
  rw [all]
  exact done

/-- The end of the root finishes the tree: its copy is the finished frame, and all of it has ended. -/
theorem Holds.closeRoot (ok : t.WellFormed) (holds : t.Holds x n none f) (noParent : n.parent = none)
    (now : Reading) (signature : Option String) (fits : Snapshot.childTime f.children < 2 ^ 64) :
    (t.update x fun _ => n.closedAt now signature).snapshot = some (f.finish now signature) ∧
    ∀ y m, (t.update x fun _ => n.closedAt now signature).get? y = some m → m.closed = true := by
  have thin := thinned_update t x fun _ => n.closedAt now signature
  have ok' := ok.thinned thin (linked_closed ok.toLinked holds.live now signature)
  have here : (t.update x fun _ => n.closedAt now signature).get? x =
      some (n.closedAt now signature) := by
    rw [get?_update, if_pos rfl, holds.live]
    rfl
  have done : (t.update x fun _ => n.closedAt now signature).Finished n.children f.children := by
    apply holds.finished.congr ok ok'
    intro k hk y below
    have other : y ≠ x := holds.not_self ok.toLinked (List.append_nil _).symm hk below
    rw [get?_update, if_neg other]
  have isRoot : x = t.root := (ok.toLinked.parent_none_iff holds.live).mp noParent
  constructor
  · unfold snapshot
    rw [thin.root, ← isRoot]
    exact holds.copy_closed ok' here done fits
  · intro y m hm
    have below := ok'.toLinked.root_below ⟨m, hm⟩
    rw [thin.root, ← isRoot] at below
    exact Holds.ended_closed here done below hm

/-- The call around a call: it lists the inner call last, and lies above it. -/
theorem Spells.caller (ok : t.Linked) (live : t.get? x = some n)
    (above : t.Spells (some x) p (g :: fs)) : ∃ pn kids, t.Holds p pn (some x) g ∧
      pn.children = kids ++ [x] ∧ t.Finished kids g.children ∧ ¬ t.Below x p ∧ t.Below p x := by
  obtain ⟨pn, outer⟩ := above.holds
  rcases outer.children with ⟨kids, children, done⟩
  have listed : x ∈ pn.children := by
    rw [children]
    exact List.mem_append_right _ (List.mem_singleton_self x)
  exact ⟨pn, kids, outer, children, done, ok.not_below_child outer.live listed,
    (Below.self outer.live).child outer.live listed live⟩

/-- The end of a call that is not removed makes it a finished child of the call around it. -/
theorem Spells.closeKept (ok : t.WellFormed) (holds : t.Holds x n none f)
    (above : t.Spells (some x) p (g :: fs)) (now : Reading) (signature : Option String)
    (fits : Snapshot.childTime f.children < 2 ^ 64)
    (ok' : ((t.update x fun _ => n.closedAt now signature).update p
      (·.charge (saturatingSub now n.start))).WellFormed) :
    ((t.update x fun _ => n.closedAt now signature).update p
      (·.charge (saturatingSub now n.start))).Spells none p
        (g.keep (f.finish now signature) :: fs) := by
  rcases above.caller ok.toLinked holds.live with ⟨pn, kids, outer, children, done, notBelow, step⟩
  have other : p ≠ x := ne_of_not_below holds.live notBelow
  have get : ∀ y, y ≠ p → y ≠ x → ((t.update x fun _ => n.closedAt now signature).update p
      (·.charge (saturatingSub now n.start))).get? y = t.get? y := by
    intro y notP notX
    rw [get?_update, if_neg notP, get?_update, if_neg notX]
  have closed : ((t.update x fun _ => n.closedAt now signature).update p
      (·.charge (saturatingSub now n.start))).get? x = some (n.closedAt now signature) := by
    rw [get?_update, if_neg other.symm, get?_update, if_pos rfl, holds.live]
    rfl
  have charged : ((t.update x fun _ => n.closedAt now signature).update p
      (·.charge (saturatingSub now n.start))).get? p =
        some (pn.charge (saturatingSub now n.start)) := by
    rw [get?_update, if_pos rfl, get?_update, if_neg other, outer.live]
    rfl
  -- the finished children of both calls are out of reach of the two changes
  have doneX := holds.finished.congr ok ok' (by
    intro k hk y below
    apply get
    · intro same
      rcases ok.child_live holds.live hk with ⟨kn, hkn, _⟩
      have inner : t.Below x k := (Below.self holds.live).child holds.live hk hkn
      exact notBelow (inner.trans (same ▸ below))
    · exact holds.not_self ok.toLinked (List.append_nil _).symm hk below)
  have doneP := done.congr ok ok' (by
    intro k hk y below
    apply get
    · exact outer.not_self ok.toLinked children hk below
    · exact ne_of_not_below holds.live (outer.apart ok.toLinked children hk below))
  have copy := holds.copy_closed ok' closed doneX fits
  have net : (pn.charge (saturatingSub now n.start)).net =
      -UInt64.ofNat (Snapshot.childTime (g.children ++ [f.finish now signature])) := by
    have time : Snapshot.childTime (g.children ++ [f.finish now signature]) =
        Snapshot.childTime g.children + (saturatingSub now n.start).toNat := by
      simp [Snapshot.childTime, Frame.finish, Snapshot.gross, holds.start]
    show (if pn.closed then _ else pn.net - saturatingSub now n.start) = _
    rw [outer.isOpen, outer.net, time, UInt64.ofNat_add, UInt64.ofNat_toNat, UInt64.neg_add]
    rfl
  refine above.replace ok ok' outer.live ?_ ⟨charged, outer.signature, outer.start, net,
    outer.ioCall, outer.isOpen, kids ++ [x], ?_, doneP.concat copy ?_⟩ rfl
  · intro y m hm outside
    have notP := ne_of_not_below outer.live outside
    have notX : y ≠ x := fun same => outside (same ▸ step)
    rw [get y notP notX, hm]
  · show pn.children = _
    rw [children]
    simp
  · intro y m below hm
    exact Holds.ended_closed closed doneX below hm

/-- The end of a call that is removed leaves the call around it as it was before. -/
theorem Spells.closePruned (ok : t.WellFormed) (holds : t.Holds x n none f)
    (above : t.Spells (some x) p (g :: fs)) (pool : NodePool) (now : Reading)
    (signature : Option String)
    (ok' : (((t.update x fun _ => n.closedAt now signature).detach p x).remove pool
      [x]).1.WellFormed) :
    (((t.update x fun _ => n.closedAt now signature).detach p x).remove pool [x]).1.Spells none p
      (g :: fs) := by
  rcases above.caller ok.toLinked holds.live with ⟨pn, kids, outer, children, done, notBelow, step⟩
  have linked := linked_closed ok.toLinked holds.live now signature
  have removed := get?_remove_detach linked pool p x
  have other : p ≠ x := ne_of_not_below holds.live notBelow
  have below_iff : ∀ y, (t.update x fun _ => n.closedAt now signature).Below x y ↔ t.Below x y := by
    intro y
    apply below_update
    intro m hm
    rw [holds.live] at hm
    rw [← Option.some.inj hm]
    rfl
  -- what is not below the removed call and is not its parent stays
  have get : ∀ y m, t.get? y = some m → ¬ t.Below x y → y ≠ p →
      (((t.update x fun _ => n.closedAt now signature).detach p x).remove pool [x]).1.get? y =
        some m := by
    intro y m hm outside notP
    refine (removed y m).mpr ⟨fun below => outside ((below_iff y).mp below), m, ?_, ?_⟩
    · rw [get?_update, if_neg (ne_of_not_below holds.live outside), hm]
    · rw [if_neg notP]
  have parent : (((t.update x fun _ => n.closedAt now signature).detach p x).remove pool
      [x]).1.get? p = some { pn with children := pn.children.filter (· ≠ x) } := by
    refine (removed p _).mpr ⟨fun below => notBelow ((below_iff p).mp below), pn, ?_, ?_⟩
    · rw [get?_update, if_neg other, outer.live]
    · rw [if_pos rfl]
  have doneP := done.congr ok ok' (by
    intro k hk y below
    rcases below.live_right with ⟨m, hm⟩
    rw [hm]
    exact get y m hm (outer.apart ok.toLinked children hk below)
      (outer.not_self ok.toLinked children hk below))
  -- the removed call was the last child, and no other child has its handle
  have kept : pn.children.filter (· ≠ x) = kids := by
    have nodup := ok.children_nodup outer.live
    have last : pn.children.getLast? = some x := by rw [children]; simp
    rw [← dropLast_eq_filter nodup last, children]
    simp
  refine above.replace ok ok' outer.live ?_ ⟨parent, outer.signature, outer.start, outer.net,
    outer.ioCall, outer.isOpen, kids, ?_, doneP⟩ rfl
  · intro y m hm outside
    refine get y m hm ?_ (ne_of_not_below outer.live outside)
    exact fun below => outside (step.trans below)
  · rw [kept]
    simp

end CallProfiler.CallTree
