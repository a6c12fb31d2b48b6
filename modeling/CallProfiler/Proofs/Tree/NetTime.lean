import CallProfiler.Proofs.Tree.Copies
import CallProfiler.Proofs.Tree.Overflow
import Mathlib.Algebra.BigOperators.Group.List.Basic

/-!
# Proofs.Tree.NetTime: the net time of a node and the time of its children

The field for the net time is written in four ways: a child is charged to an open node modulo `2 ^ 64`
and to a closed one down to zero, the end of a call adds the gross time to what is there, and a trim
either gives time back or computes the field anew. `CallNode.Nets` says what the field is worth, given
the time that the children take, and each of the four keeps it.

* `Every` — what the moves of a tree do to any relation between nodes and the time of their children
* `NetTimes` — the invariant: every node nets the time of the children that it has
* `NetTimes.edit` — every change of a tree keeps it, as long as no call ends twice and the children of a
  call that ends do not take `2 ^ 64` nanoseconds
* `net_times_of_history` — so it holds after every such history
-/

namespace CallProfiler

namespace CallNode

variable {n : CallNode} {time : Nat}

/-- The net time of a node whose children take some time together. An open node has no duration yet. -/
structure Nets (n : CallNode) (time : Nat) : Prop where
  ended : n.closed = true → n.net.toNat = n.gross.toNat - time
  running : n.closed = false → n.gross = 0 ∧ n.net = -UInt64.ofNat time

/-- A call that has just begun owes nothing to children. -/
theorem nets_begun (signature : String) (now : Reading) (parent : Option NodeRef) :
    (CallNode.blank.begun signature now parent).Nets 0 where
  ended := fun closed => absurd closed (by simp [begun, blank])
  running := fun _ => ⟨rfl, rfl⟩

/-- A measured leaf has ended and nets all of its time. -/
theorem nets_measured (description : String) (duration : UInt64) (now : Reading)
    (parent : NodeRef) : (CallNode.blank.measured description duration now parent).Nets 0 where
  ended := fun _ => rfl
  running := fun isOpen => absurd isOpen (by simp [measured])

/-- An open node takes the time of a finished child off modulo `2 ^ 64`. -/
theorem net_charge_open (isOpen : n.closed = false) (net : n.net = -UInt64.ofNat time)
    (nanos : UInt64) : (n.charge nanos).net = -UInt64.ofNat (time + nanos.toNat) := by
  show (if n.closed then _ else n.net - nanos) = _
  rw [isOpen, net, UInt64.ofNat_add, UInt64.ofNat_toNat, UInt64.neg_add]
  rfl

/-- The end of a call makes a difference of the sum modulo `2 ^ 64`, exact but for whole multiples. -/
theorem net_closedAt (net : n.net = -UInt64.ofNat time) (now : Reading)
    (signature : Option String) : (n.closedAt now signature).net.toNat =
      (n.closedAt now signature).gross.toNat - time % 2 ^ 64 := by
  show (closedNet (saturatingSub now n.start) n.net).toNat = (saturatingSub now n.start).toNat - _
  have bound := (saturatingSub now n.start).toNat_lt
  have wrapped : time % 2 ^ 64 < 2 ^ 64 := Nat.mod_lt _ (by omega)
  have same : UInt64.ofNat (time % 2 ^ 64) = UInt64.ofNat time := UInt64.ofNat_mod_size
  rw [net, ← same, CallTree.closedNet_eq _ wrapped, UInt64.toNat_ofNat_of_lt']
  show _ < 2 ^ 64
  omega

/-- A finished child is charged modulo `2 ^ 64` to an open node, and down to zero to a closed one. -/
theorem Nets.charge (nets : n.Nets time) (nanos : UInt64) :
    (n.charge nanos).Nets (time + nanos.toNat) where
  ended := by
    intro closed
    have closed : n.closed = true := closed
    show (if n.closed then saturatingSub n.net nanos else _).toNat = n.gross.toNat - _
    rw [if_pos closed, toNat_saturatingSub, nets.ended closed, Nat.sub_sub]
  running := by
    intro isOpen
    have isOpen : n.closed = false := isOpen
    rcases nets.running isOpen with ⟨gross, net⟩
    exact ⟨gross, net_charge_open isOpen net nanos⟩

/-- The end of a call turns the sum modulo `2 ^ 64` into the exact net time. -/
theorem Nets.closedAt (nets : n.Nets time) (isOpen : n.closed = false) (fits : time < 2 ^ 64)
    (now : Reading) (signature : Option String) : (n.closedAt now signature).Nets time where
  ended := by
    intro _
    rw [net_closedAt (nets.running isOpen).2 now signature, Nat.mod_eq_of_lt fits]
  running := fun isOpen => absurd isOpen (by simp [CallNode.closedAt])

end CallNode

namespace CallTree

variable {t t' : CallTree} {pool : NodePool} {now : Reading} {h p c x : NodeRef} {n pn : CallNode}
  {cs : List NodeRef}

/-! ## The time of several nodes -/

/-- The gross times of some nodes together. -/
def timeOf (t : CallTree) (cs : List NodeRef) : Nat :=
  ((cs.filterMap t.get?).map (·.gross.toNat)).sum

/-- The gross times of the present children of a node together. -/
def childTime (t : CallTree) (h : NodeRef) : Nat := ((t.children h).map (·.2.gross.toNat)).sum

/-- The time of the children of a node, by the list that it holds. -/
theorem childTime_eq (live : t.get? h = some n) : t.childTime h = t.timeOf n.children := by
  unfold childTime children timeOf
  rw [live]
  simp only [List.map_filterMap, Option.map_map]
  rfl

/-- The time of some nodes depends on nothing but their durations. -/
theorem timeOf_congr
    (same : ∀ c ∈ cs, (t'.get? c).map (·.gross) = (t.get? c).map (·.gross)) :
    t'.timeOf cs = t.timeOf cs := by
  have gross : ∀ u : CallTree, u.timeOf cs =
      ((cs.filterMap fun c => (u.get? c).map (·.gross)).map (·.toNat)).sum := by
    intro u
    unfold timeOf
    simp only [List.map_filterMap, Option.map_map]
    rfl
  rw [gross t', gross t, List.filterMap_congr same]

/-- Nodes that keep their durations take as long as before. -/
theorem timeOf_kept (kept : ∀ c ∈ cs, ∃ n n', t.get? c = some n ∧ t'.get? c = some n' ∧
    n'.gross = n.gross) : t'.timeOf cs = t.timeOf cs := by
  apply timeOf_congr
  intro c hc
  rcases kept c hc with ⟨n, n', hn, hn', same⟩
  rw [hn, hn', Option.map_some, Option.map_some, same]

theorem timeOf_append (cs ds : List NodeRef) : t.timeOf (cs ++ ds) = t.timeOf cs + t.timeOf ds := by
  unfold timeOf
  rw [List.filterMap_append, List.map_append, List.sum_append]

theorem timeOf_singleton (live : t.get? h = some n) : t.timeOf [h] = n.gross.toNat := by
  simp [timeOf, live]

/-- The order of the nodes does not matter for their time. -/
theorem timeOf_perm {ds : List NodeRef} (same : cs.Perm ds) : t.timeOf cs = t.timeOf ds := by
  unfold timeOf
  exact ((same.filterMap t.get?).map _).sum_eq

/-- A node that is taken out takes its duration along. -/
theorem timeOf_erase (hc : c ∈ cs) (live : t.get? c = some n) :
    t.timeOf cs = n.gross.toNat + t.timeOf (cs.erase c) := by
  rw [timeOf_perm (List.perm_cons_erase hc), ← timeOf_singleton live, ← timeOf_append]
  rfl

/-- The sum that a trim credits is the time of the nodes modulo `2 ^ 64`. -/
theorem grossSum_eq (t : CallTree) (cs : List NodeRef) : t.grossSum cs = UInt64.ofNat (t.timeOf cs) := by
  unfold grossSum timeOf
  induction cs.filterMap t.get? with
  | nil => rfl
  | cons node nodes ih =>
    simp only [List.map_cons, List.sum_cons, ih, UInt64.ofNat_add, UInt64.ofNat_toNat]

/-! ## What nodes and their children's time have to do with each other -/

section Every

variable {P : CallNode → Nat → Prop}

/-- Every node stands in a relation to the time of its present children. -/
def Every (P : CallNode → Nat → Prop) (t : CallTree) : Prop :=
  ∀ h n, t.get? h = some n → P n (t.timeOf n.children)

/-- A property of fresh nodes holds everywhere in a new tree. -/
theorem every_begin (blank : pool.AllBlank) (now : Reading) (signature : String)
    (fresh : P (CallNode.blank.begun signature now none) 0) :
    (CallTree.begin pool now signature).1.Every P := by
  intro x n hx
  rw [(begin_spec blank now signature).1, get?_singleton] at hx
  split at hx
  · cases Option.some.inj hx
    exact fresh
  · exact absurd hx (by simp)

/-- A fresh leaf is charged to its parent with the time that it takes so far. -/
theorem Every.grafted {pn' cn : CallNode} (every : t.Every P) (ok : t.Linked)
    (live : t.get? p = some pn) (g : Grafted t p c pn' cn t') (leaf : cn.children = [])
    (fresh : P cn 0) (gross : pn'.gross = pn.gross) (children : pn'.children = pn.children ++ [c])
    (charged : P pn' (t.timeOf pn.children + cn.gross.toNat)) : t'.Every P := by
  have old : ∀ {x m}, t.get? x = some m → t'.timeOf m.children = t.timeOf m.children := by
    intro x m hx
    apply timeOf_congr
    intro d hd
    rcases ok.child_live hx hd with ⟨dn, hdn, -⟩
    have notNew : d ≠ c := by
      intro same
      rw [same, g.fresh] at hdn
      exact absurd hdn (by simp)
    rw [g.get?, if_neg notNew]
    by_cases here : d = p
    · rw [if_pos here, here, live, Option.map_some, Option.map_some, gross]
    · rw [if_neg here]
  have newChild : t'.get? c = some cn := by rw [g.get?, if_pos rfl]
  intro x m hx
  rw [g.get?] at hx
  by_cases isNew : x = c
  · rw [if_pos isNew] at hx
    rw [← Option.some.inj hx, leaf]
    exact fresh
  · rw [if_neg isNew] at hx
    by_cases here : x = p
    · rw [if_pos here] at hx
      rw [← Option.some.inj hx, children, timeOf_append, old live, timeOf_singleton newChild]
      exact charged
    · rw [if_neg here] at hx
      rw [old hx]
      exact every x _ hx

/-- A node that is rewritten keeps its duration and its children. -/
theorem Every.update {f : CallNode → CallNode} (every : t.Every P)
    (keeps : ∀ n, (f n).gross = n.gross ∧ (f n).children = n.children)
    (still : ∀ n time, P n time → P (f n) time) : (t.update h f).Every P := by
  have times : ∀ cs, (t.update h f).timeOf cs = t.timeOf cs := by
    intro cs
    apply timeOf_congr
    intro c _
    rw [get?_update]
    by_cases here : c = h
    · rw [if_pos here, here]
      cases t.get? h with
      | none => rfl
      | some m => exact congrArg some (keeps m).1
    · rw [if_neg here]
  intro x m hx
  rw [times]
  rw [get?_update] at hx
  split at hx
  · rename_i here
    rcases Option.map_eq_some_iff.mp hx with ⟨k, hk, same⟩
    rw [← same, (keeps k).2]
    exact still k _ (every h k hk)
  · exact every x _ hx

/-! ## The end of a call -/

/-- A node is among the children of its parent only. -/
theorem Linked.eq_parent_of_child {m : CallNode} (ok : t.Linked) (live : t.get? h = some n)
    (hx : t.get? x = some m) (hc : h ∈ m.children) : n.parent = some x := by
  rcases ok.child_live hx hc with ⟨k, hk, parent⟩
  cases Option.mem_unique live hk
  exact parent

/-- The time of nodes among which one has ended, where no other duration has changed. -/
theorem timeOf_ended {m : CallNode} (zero : n.gross = 0) (live : t.get? h = some n)
    (ended : t'.get? h = some m)
    (same : ∀ c ∈ cs, c ≠ h → (t'.get? c).map (·.gross) = (t.get? c).map (·.gross))
    (nodup : cs.Nodup) (hc : h ∈ cs) : t'.timeOf cs = t.timeOf cs + m.gross.toNat := by
  have rest : t'.timeOf (cs.erase h) = t.timeOf (cs.erase h) := by
    apply timeOf_congr
    intro c hc
    rcases (List.Nodup.mem_erase_iff nodup).mp hc with ⟨other, mem⟩
    exact same c mem other
  have before := timeOf_erase hc live
  have after := timeOf_erase hc ended
  rw [zero] at before
  simp only [UInt64.toNat_zero] at before
  omega

/-- A root that ends is a child of no node. -/
theorem Every.closedRoot (every : t.Every P) (ok : t.Linked) (live : t.get? h = some n)
    (noParent : n.parent = none) (ended : P (n.closedAt now signature) (t.timeOf n.children)) :
    (t.update h fun _ => n.closedAt now signature).Every P := by
  have times : ∀ {x m}, t.get? x = some m →
      (t.update h fun _ => n.closedAt now signature).timeOf m.children = t.timeOf m.children := by
    intro x m hx
    apply timeOf_congr
    intro c hc
    have other : c ≠ h := by
      intro same
      rw [same] at hc
      rw [ok.eq_parent_of_child live hx hc] at noParent
      exact absurd noParent (by simp)
    rw [get?_update, if_neg other]
  intro x m hx
  rw [get?_update] at hx
  split at hx
  · rw [live, Option.map_some] at hx
    rw [← Option.some.inj hx]
    show P _ (CallTree.timeOf _ n.children)
    rw [times live]
    exact ended
  · rw [times hx]
    exact every x _ hx

/-- A call that ends and is kept is charged to its parent. -/
theorem Every.closedKept (every : t.Every P) (ok : t.Linked) (live : t.get? h = some n)
    (parent : n.parent = some p) (hp : t.get? p = some pn) (zero : n.gross = 0)
    (ended : P (n.closedAt now signature) (t.timeOf n.children))
    (charged : P (pn.charge (saturatingSub now n.start))
      (t.timeOf pn.children + (saturatingSub now n.start).toNat)) :
    ((t.update h fun _ => n.closedAt now signature).update p
      (·.charge (saturatingSub now n.start))).Every P := by
  have listed : h ∈ pn.children := by
    rcases ok.parent_lists live parent with ⟨qn, hq, mem⟩
    cases Option.mem_unique hp hq
    exact mem
  have apart : p ≠ h := by
    intro same
    rw [same] at hp
    exact ok.not_below_child hp listed (.self hp)
  generalize final : (t.update h fun _ => n.closedAt now signature).update p
    (·.charge (saturatingSub now n.start)) = t'
  have get : ∀ x, t'.get? x = if x = p then some (pn.charge (saturatingSub now n.start))
      else if x = h then some (n.closedAt now signature) else t.get? x := by
    intro x
    rw [← final, get?_update, get?_update, get?_update, if_neg apart, hp, live]
    rfl
  -- no duration has changed but that of the call that has ended
  have same : ∀ c, c ≠ h → (t'.get? c).map (·.gross) = (t.get? c).map (·.gross) := by
    intro c other
    rw [get]
    by_cases here : c = p
    · rw [if_pos here, here, hp]
      rfl
    · rw [if_neg here, if_neg other]
  have here : t'.get? h = some (n.closedAt now signature) := by
    rw [get, if_neg apart.symm, if_pos rfl]
  intro x m hx
  rw [get] at hx
  by_cases isParent : x = p
  · rw [if_pos isParent] at hx
    rw [← Option.some.inj hx]
    show P _ (t'.timeOf pn.children)
    rw [timeOf_ended zero live here (fun c _ other => same c other) (ok.children_nodup hp) listed]
    exact charged
  · rw [if_neg isParent] at hx
    have unlisted : ∀ {m}, t.get? x = some m → t'.timeOf m.children = t.timeOf m.children := by
      intro m hx
      apply timeOf_congr
      intro c hc
      apply same
      intro again
      rw [again] at hc
      rw [ok.eq_parent_of_child live hx hc] at parent
      exact isParent (Option.some.inj parent)
    by_cases itself : x = h
    · rw [if_pos itself] at hx
      rw [← Option.some.inj hx]
      show P _ (t'.timeOf n.children)
      rw [unlisted (itself ▸ live)]
      exact ended
    · rw [if_neg itself] at hx
      rw [unlisted hx]
      exact every x _ hx

/-- A call that ends and is removed had no duration yet, so nothing is missing from its parent. -/
theorem Every.closedPruned (every : t.Every P) (ok : t.Linked) (live : t.get? h = some n)
    (parent : n.parent = some p) (zero : n.gross = 0) (signature : Option String)
    (childless : ∀ m cs time, P m time → P { m with children := cs } time) :
    (((t.update h fun _ => n.closedAt now signature).detach p h).remove pool [h]).1.Every P := by
  have linked := linked_closed ok live now signature
  have removed := get?_remove_detach linked pool p h
  have below_iff : ∀ y, (t.update h fun _ => n.closedAt now signature).Below h y ↔ t.Below h y := by
    intro y
    apply below_update
    intro m hm
    cases Option.mem_unique live hm
    rfl
  generalize ((t.update h fun _ => n.closedAt now signature).detach p h).remove pool [h] = r at *
  -- what stays is not the call itself, and is as it was but for the list of its children
  have back : ∀ {x m'}, r.1.get? x = some m' → ¬ t.Below h x ∧ ∃ m, t.get? x = some m ∧
      m' = if x = p then { m with children := m.children.filter (· ≠ h) } else m := by
    intro x m' hx
    rcases (removed x m').mp hx with ⟨outside, m, hm, eq⟩
    rw [below_iff] at outside
    have other : x ≠ h := by
      intro same
      rw [same] at outside
      exact outside (.self live)
    rw [get?_update, if_neg other] at hm
    exact ⟨outside, m, hm, eq⟩
  have stays : ∀ {x m}, t.get? x = some m → ¬ t.Below h x →
      (r.1.get? x).map (·.gross) = (t.get? x).map (·.gross) := by
    intro x m hx outside
    have other : x ≠ h := by
      intro same
      rw [same] at outside
      exact outside (.self live)
    have hx' := (removed x _).mpr ⟨(below_iff x).not.mpr outside, m, by
      rw [get?_update, if_neg other, hx], rfl⟩
    rw [hx', hx]
    split <;> rfl
  -- of the children of a node that stays, only the call itself is gone
  have times : ∀ {x m}, t.get? x = some m → ¬ t.Below h x → ∀ cs, cs ⊆ m.children → h ∉ cs →
      r.1.timeOf cs = t.timeOf cs := by
    intro x m hx outside cs sub unlisted
    apply timeOf_congr
    intro c hc
    rcases ok.child_live hx (sub hc) with ⟨cn, hcn, -⟩
    apply stays hcn
    intro below
    exact unlisted (ok.eq_of_below_child hx (sub hc) below outside ▸ hc)
  intro x m' hx
  rcases back hx with ⟨outside, m, hm, eq⟩
  rw [eq]
  by_cases here : x = p
  · rw [if_pos here]
    show P _ (r.1.timeOf (m.children.filter (· ≠ h)))
    have nodup := ok.children_nodup hm
    have erased : m.children.filter (· ≠ h) = m.children.erase h := by
      rw [nodup.erase_eq_filter]
      exact List.filter_congr fun c _ => by by_cases same : c = h <;> simp [same]
    have listed : t.timeOf (m.children.erase h) = t.timeOf m.children := by
      by_cases mem : h ∈ m.children
      · have split := timeOf_erase mem live
        rw [zero] at split
        simp only [UInt64.toNat_zero] at split
        omega
      · rw [List.erase_of_not_mem mem]
    rw [erased, times hm outside _ (List.erase_subset) (by
      intro mem
      exact absurd rfl (List.Nodup.mem_erase_iff nodup |>.mp mem).1), listed]
    exact childless m _ _ (every x m hm)
  · rw [if_neg here]
    rw [times hm outside _ (List.Subset.refl _) (by
      intro mem
      rw [ok.eq_parent_of_child live hm mem] at parent
      exact here (Option.some.inj parent))]
    exact every x m hm

/-- The end of an open call, whether the call is kept or removed. -/
theorem Every.close (every : t.Every P) (ok : t.Linked) (live : t.get? h = some n)
    (zero : n.gross = 0) (ended : P (n.closedAt now signature) (t.timeOf n.children))
    (charged : ∀ p pn, n.parent = some p → t.get? p = some pn → ∀ nanos,
      P (pn.charge nanos) (t.timeOf pn.children + nanos.toNat))
    (childless : ∀ m cs time, P m time → P { m with children := cs } time) (pool : NodePool)
    (minimum : UInt64) : (t.close pool now h signature minimum).2.1.Every P := by
  cases parent : n.parent with
  | none =>
    rw [close_root live parent]
    exact every.closedRoot ok live parent ended
  | some p =>
    by_cases fast : saturatingSub now n.start < minimum
    · rw [close_pruned live parent fast]
      exact every.closedPruned ok live parent zero signature childless
    · rw [close_kept ok live parent fast]
      rcases (ok.below_of_parent live parent).live_left with ⟨pn, hp⟩
      exact every.closedKept ok live parent hp zero ended (charged p pn parent hp _)

end Every

/-! ## The invariant -/

/-- Every node nets the time of its present children. -/
def NetTimes (t : CallTree) : Prop :=
  ∀ h n, t.get? h = some n → n.Nets (t.timeOf n.children)

theorem NetTimes.every (nets : t.NetTimes) : t.Every CallNode.Nets := nets

/-- The root of a new tree owes nothing to children. -/
theorem netTimes_begin (blank : pool.AllBlank) (now : Reading) (signature : String) :
    (CallTree.begin pool now signature).1.NetTimes :=
  every_begin blank now signature (CallNode.nets_begun signature now none)

/-- The end of an open call keeps the invariant, whether the call is kept or removed. -/
theorem NetTimes.close (nets : t.NetTimes) (ok : t.Linked) (live : t.get? h = some n)
    (isOpen : n.closed = false) (fits : t.timeOf n.children < 2 ^ 64) (pool : NodePool)
    (now : Reading) (signature : Option String) (minimum : UInt64) :
    (t.close pool now h signature minimum).2.1.NetTimes := by
  have zero := ((nets h n live).running isOpen).1
  have ended := (nets h n live).closedAt isOpen fits now signature
  refine nets.every.close ok live zero ended ?_ ?_ pool minimum
  · intro p pn _ hp nanos
    exact (nets p pn hp).charge nanos
  · intro m cs time nets
    exact ⟨nets.ended, nets.running⟩

/-! ## A trim -/

/-- The time of some nodes is that of those that are kept and of the others. -/
theorem timeOf_filter (t : CallTree) (keep : NodeRef → Bool) (cs : List NodeRef) :
    t.timeOf cs = t.timeOf (cs.filter fun c => !keep c) + t.timeOf (cs.filter keep) := by
  rw [← timeOf_append]
  apply timeOf_perm
  exact ((List.perm_append_comm).trans (List.filter_append_perm keep cs)).symm

/-- A closed node that is trimmed gets the exact difference, however long its children took. -/
theorem net_trimmed_closed {threshold : UInt64} (closed : n.closed = true) :
    (t.trimmed threshold n).net.toNat =
      n.gross.toNat - t.timeOf (n.children.filter fun c => !t.isFast threshold c) := by
  have bound := n.gross.toNat_lt
  show (if n.closed then saturatingSub n.gross _ else _ : UInt64).toNat = _
  rw [if_pos closed, saturatingSub_grossTotal, UInt64.toNat_ofNat_of_lt']
  · rfl
  · show _ < 2 ^ 64
    omega

/-- An open node that is trimmed gets the time of its fast children back. -/
theorem net_trimmed_open {threshold : UInt64} (isOpen : n.closed = false) :
    (t.trimmed threshold n).net =
      n.net + UInt64.ofNat (t.timeOf (n.children.filter fun c => t.isFast threshold c)) := by
  show (if n.closed then _ else n.net + t.grossSum _) = _
  rw [isOpen, grossSum_eq]
  rfl

/-- A trimmed node nets the time of the children that it keeps. -/
theorem nets_trimmed {threshold : UInt64} (nets : n.Nets (t.timeOf n.children)) :
    (t.trimmed threshold n).Nets
      (t.timeOf (n.children.filter fun c => !t.isFast threshold c)) where
  ended := fun closed => net_trimmed_closed closed
  running := by
    intro isOpen
    have isOpen : n.closed = false := isOpen
    rcases nets.running isOpen with ⟨gross, net⟩
    refine ⟨gross, ?_⟩
    rw [net_trimmed_open isOpen, net, timeOf_filter t (fun c => t.isFast threshold c) n.children,
      UInt64.ofNat_add, UInt64.neg_add]
    simp

/-- The nodes that a trim leaves keep their durations. -/
theorem timeOf_trim (ok : t.WellFormed) (pool : NodePool) (threshold : UInt64)
    (live : ∀ c ∈ cs, (t.removeCallsFasterThan pool threshold).1.Live c) :
    (t.removeCallsFasterThan pool threshold).1.timeOf cs = t.timeOf cs := by
  rcases removeCallsFasterThan_spec ok.toSlotted ok.toLinked pool threshold with ⟨-, -, -, get⟩
  apply timeOf_kept
  intro c hc
  rcases live c hc with ⟨n', hn'⟩
  rcases (get c n').mp hn' with ⟨-, n, hn, eq⟩
  exact ⟨n, n', hn, hn', by rw [eq]; rfl⟩

/-- A trim keeps the equation between net times and children. -/
theorem NetTimes.trim (nets : t.NetTimes) (ok : t.WellFormed) (pool : NodePool)
    (threshold : UInt64) : (t.removeCallsFasterThan pool threshold).1.NetTimes := by
  rcases removeCallsFasterThan_spec ok.toSlotted ok.toLinked pool threshold with ⟨-, -, -, get⟩
  intro x n' hx
  rcases (get x n').mp hx with ⟨safe, n, hn, eq⟩
  rw [eq]
  show CallNode.Nets _ (CallTree.timeOf _ (n.children.filter fun c => !t.isFast threshold c))
  rw [timeOf_trim ok pool threshold]
  · exact nets_trimmed (nets x n hn)
  · intro c hc
    rcases List.mem_filter.mp hc with ⟨hc, slow⟩
    rcases ok.child_live hn hc with ⟨cn, hcn, -⟩
    have kept := ok.toLinked.safe_child hn safe hc (by simpa using slow)
    exact ⟨_, (get c _).mpr ⟨kept, cn, hcn, rfl⟩⟩

/-! ## Every change -/

/-- A change that ends no call for a second time. -/
def EndsOpen (t : CallTree) : TreeEdit → Prop
  | .close h _ _ => ∀ n ∈ t.get? h, n.closed = false
  | _ => True

/-- A change that ends no call whose children take `2 ^ 64` nanoseconds together. -/
def EndsFitting (t : CallTree) : TreeEdit → Prop
  | .close h _ _ => t.childTime h < 2 ^ 64
  | _ => True

instance (t : CallTree) : DecidablePred t.EndsOpen
  | .close h _ _ => inferInstanceAs (Decidable (∀ n ∈ t.get? h, n.closed = false))
  | .openChild _ _ | .addIoCall _ _ _ | .setSignature _ _ | .trim _ => .isTrue trivial

instance (t : CallTree) : DecidablePred t.EndsFitting
  | .close h _ _ => inferInstanceAs (Decidable (t.childTime h < 2 ^ 64))
  | .openChild _ _ | .addIoCall _ _ _ | .setSignature _ _ | .trim _ => .isTrue trivial

/-- So does every change that ends no call twice and none with an overlong total of its children. -/
theorem NetTimes.edit (nets : t.NetTimes) (ok : t.WellFormed) (room : t.slots.size < 2 ^ 32)
    (blank : pool.AllBlank) (now : Reading) (change : TreeEdit) (once : t.EndsOpen change)
    (fits : t.EndsFitting change) : (t.edit pool now change).2.1.NetTimes := by
  cases change with
  | openChild parent signature =>
    simp only [CallTree.edit]
    cases live : t.get? parent with
    | none =>
      rw [openChild_stale live]
      exact nets
    | some pn =>
      rcases openChild_live ok room blank live now signature with ⟨c, t', eq, grafted⟩
      rw [eq]
      exact nets.every.grafted ok.toLinked live grafted rfl (CallNode.nets_begun signature now _) rfl rfl
        ⟨(nets parent pn live).ended, (nets parent pn live).running⟩
  | close h signature minimum =>
    simp only [CallTree.edit]
    cases live : t.get? h with
    | none =>
      rw [close_stale live]
      exact nets
    | some n =>
      have fits : t.childTime h < 2 ^ 64 := fits
      rw [childTime_eq live] at fits
      exact nets.close ok.toLinked live (once n live) fits pool now signature minimum
  | addIoCall parent description duration =>
    simp only [CallTree.edit]
    cases live : t.get? parent with
    | none =>
      rw [addIoCall_stale live]
      exact nets
    | some pn =>
      rcases addIoCall_live ok room blank live now description duration with ⟨c, t', eq, grafted⟩
      rw [eq]
      have charged := (nets parent pn live).charge duration
      exact nets.every.grafted ok.toLinked live grafted rfl
        (CallNode.nets_measured description duration now parent) rfl rfl
        ⟨charged.ended, charged.running⟩
  | setSignature h signature =>
    simp only [CallTree.edit]
    cases live : t.get? h with
    | none =>
      rw [setSignature_stale live]
      exact nets
    | some n =>
      rw [setSignature_live live]
      exact nets.every.update (fun m => ⟨rfl, rfl⟩) fun m time nets => ⟨nets.ended, nets.running⟩
  | trim threshold => exact nets.trim ok pool threshold

end CallTree

/-! ## Every history -/

/-- The event as a change of a tree, if it is one. -/
def TreeEvent.change? : TreeEvent → Option TreeEdit
  | .edit _ change => some change
  | .pool _ => none

namespace SharedTree

/-- The changes of a history, each with the tree that it is made to. -/
def changes (s : SharedTree) (events : List TreeEvent) : List (CallTree × TreeEdit) :=
  ((s.visited events).zip events).filterMap fun (v, e) => e.change?.map (v.tree, ·)

variable {s : SharedTree}

/-- So does every such event in the life of a tree. -/
theorem netTimes_step (good : s.Good) (nets : s.tree.NetTimes) (room : s.tree.slots.size < 2 ^ 32)
    (e : TreeEvent) (once : ∀ change ∈ e.change?, s.tree.EndsOpen change)
    (fits : ∀ change ∈ e.change?, s.tree.EndsFitting change) : (s.step e).tree.NetTimes := by
  cases e with
  | edit now change =>
    exact nets.edit good.tree room good.pool now change (once change rfl) (fits change rfl)
  | pool e => exact nets

/-- So does a history of such events, by induction. -/
theorem netTimes_run (good : s.Good) (nets : s.tree.NetTimes) {events : List TreeEvent}
    (room : (s.run events).tree.slots.size < 2 ^ 32)
    (once : ∀ c ∈ s.changes events, c.1.EndsOpen c.2)
    (fits : ∀ c ∈ s.changes events, c.1.EndsFitting c.2) : (s.run events).tree.NetTimes := by
  induction events generalizing s with
  | nil => exact nets
  | cons e rest ih =>
    have now := Nat.lt_of_le_of_lt (s.size_run_le (e :: rest)) room
    have here : ∀ change ∈ e.change?, (s.tree, change) ∈ s.changes (e :: rest) := by
      intro change made
      refine List.mem_filterMap.mpr ⟨(s, e), List.mem_cons_self .., ?_⟩
      simp only [Option.mem_def.mp made, Option.map_some]
    have later : ∀ c ∈ (s.step e).changes rest, c ∈ s.changes (e :: rest) := by
      intro c hc
      rcases List.mem_filterMap.mp hc with ⟨v, hv, eq⟩
      exact List.mem_filterMap.mpr ⟨v, List.mem_cons_of_mem _ hv, eq⟩
    have next := netTimes_step good nets now e (fun change made => once _ (here change made))
      fun change made => fits _ (here change made)
    exact ih (good.step now e).1 next room (fun c hc => once c (later c hc))
      fun c hc => fits c (later c hc)

end SharedTree

/-- After any changes to a tree, the net time of a call that has ended is its gross time without that of
its present children, or zero if theirs is longer, and an open call holds minus the time of its children
modulo `2 ^ 64`. Assumed: no call is ended twice, the times of its children fit into 64 bits whenever one
is ended, and the slots can be numbered in 32 bits. -/
theorem net_times_of_history (pooling : Bool) (before : List PoolEvent) (now : Reading)
    (signature : String) (events : List TreeEvent)
    (room : ((SharedTree.begin pooling before now signature).run events).tree.slots.size < 2 ^ 32)
    (once : ∀ c ∈ (SharedTree.begin pooling before now signature).changes events, c.1.EndsOpen c.2)
    (fits : ∀ c ∈ (SharedTree.begin pooling before now signature).changes events,
      c.1.EndsFitting c.2) :
    ∀ h n, ((SharedTree.begin pooling before now signature).run events).tree.get? h = some n →
      (n.closed = true → n.net.toNat = n.gross.toNat -
        ((SharedTree.begin pooling before now signature).run events).tree.childTime h) ∧
      (n.closed = false → n.net = -UInt64.ofNat
        (((SharedTree.begin pooling before now signature).run events).tree.childTime h)) := by
  have good := SharedTree.good_begin pooling before now signature
  have start : (SharedTree.begin pooling before now signature).tree.NetTimes :=
    CallTree.netTimes_begin (NodePool.allBlank_used pooling before) now signature
  intro h n live
  have nets := SharedTree.netTimes_run good start room once fits h n live
  rw [CallTree.childTime_eq live]
  exact ⟨nets.ended, fun isOpen => (nets.running isOpen).2⟩

/-- A history in which a call ends before the call below it does, a leaf is added to a call that has
ended and is longer than that, an open call is removed with its parent, and open calls are trimmed. -/
def tangledHistory : List TreeEvent :=
  [.edit 10 (.openChild ⟨0, 0⟩ "load"), .edit 12 (.openChild ⟨1, 0⟩ "parse"),
    .edit 20 (.close ⟨1, 0⟩ none 0), .edit 26 (.close ⟨2, 0⟩ none 4),
    .edit 27 (.addIoCall ⟨1, 0⟩ "read" 50), .edit 30 (.openChild ⟨0, 0⟩ "brief"),
    .edit 31 (.openChild ⟨4, 0⟩ "open"), .pool .taken, .edit 32 (.close ⟨4, 0⟩ none 9),
    .edit 33 (.addIoCall ⟨0, 0⟩ "write" 3), .edit 34 (.trim 10), .edit 40 (.close ⟨0, 0⟩ none 0)]

/-- The history meets the assumptions, so the result applies to each of its nodes. -/
theorem net_times_of_tangledHistory :
    ((SharedTree.begin true [] 0 "job").run tangledHistory).tree.slots.size < 2 ^ 32 ∧
    (∀ c ∈ (SharedTree.begin true [] 0 "job").changes tangledHistory, c.1.EndsOpen c.2) ∧
    (∀ c ∈ (SharedTree.begin true [] 0 "job").changes tangledHistory, c.1.EndsFitting c.2) ∧
    ∀ h n, ((SharedTree.begin true [] 0 "job").run tangledHistory).tree.get? h = some n →
      (n.closed = true → n.net.toNat = n.gross.toNat -
        ((SharedTree.begin true [] 0 "job").run tangledHistory).tree.childTime h) ∧
      (n.closed = false → n.net = -UInt64.ofNat
        (((SharedTree.begin true [] 0 "job").run tangledHistory).tree.childTime h)) := by
  have room : ((SharedTree.begin true [] 0 "job").run tangledHistory).tree.slots.size < 2 ^ 32 := by
    decide +kernel
  have once : ∀ c ∈ (SharedTree.begin true [] 0 "job").changes tangledHistory,
      c.1.EndsOpen c.2 := by
    decide +kernel
  have fits : ∀ c ∈ (SharedTree.begin true [] 0 "job").changes tangledHistory,
      c.1.EndsFitting c.2 := by
    decide +kernel
  exact ⟨room, once, fits, net_times_of_history true [] 0 "job" tangledHistory room once fits⟩

/-! ### More slots than handles -/

namespace SharedTree

variable {s : SharedTree}

theorem changes_cons (s : SharedTree) (e : TreeEvent) (rest : List TreeEvent) :
    s.changes (e :: rest) = (e.change?.map (s.tree, ·)).toList ++ (s.step e).changes rest := by
  unfold changes
  cases h : e.change? <;> simp [visited, h]

theorem changes_nil (s : SharedTree) : s.changes [] = [] := rfl

/-- The changes of two histories one after the other. -/
theorem changes_append (s : SharedTree) (events later : List TreeEvent) :
    s.changes (events ++ later) = s.changes events ++ (s.run events).changes later := by
  induction events generalizing s with
  | nil => rfl
  | cons e rest ih =>
    rw [List.cons_append, changes_cons, changes_cons, ih, List.append_assoc, run_cons]

/-- The changes of a history are the edits in it. -/
theorem edit_of_mem_changes {events : List TreeEvent} {c : CallTree × TreeEdit}
    (hc : c ∈ s.changes events) : ∃ now, .edit now c.2 ∈ events := by
  rcases List.mem_filterMap.mp hc with ⟨⟨v, e⟩, paired, made⟩
  have mem := (List.of_mem_zip paired).2
  cases e with
  | edit now change =>
    cases made
    exact ⟨now, mem⟩
  | pool e => cases made

end SharedTree

/-- All edits but the last start a call. -/
theorem edits_of_loopedHistory {now : Reading} {change : TreeEdit}
    (mem : TreeEvent.edit now change ∈ loopedHistory) :
    ∃ r signature, change = .openChild r signature := by
  rw [loopedHistory, overrun, crowd] at mem
  rcases List.mem_cons.mp mem with first | mem
  · cases first
    exact ⟨_, _, rfl⟩
  rcases List.mem_append.mp mem with crowd | last
  · cases List.eq_of_mem_replicate crowd
    exact ⟨_, _, rfl⟩
  · cases List.mem_singleton.mp last
    exact ⟨_, _, rfl⟩

/-- Changes that end no call but one, which is open and whose children are fast. -/
theorem ends_of_only_close {changes : List (CallTree × TreeEdit)} {t : CallTree} {h : NodeRef}
    {n : CallNode} (live : t.get? h = some n) (isOpen : n.closed = false)
    (fits : t.childTime h < 2 ^ 64)
    (only : ∀ c ∈ changes, (∃ r signature, c.2 = .openChild r signature) ∨
      c = (t, .close h none 0)) :
    (∀ c ∈ changes, c.1.EndsOpen c.2) ∧ ∀ c ∈ changes, c.1.EndsFitting c.2 := by
  constructor
  · rintro c hc
    rcases only c hc with ⟨p, signature, start⟩ | last
    · rw [start]
      exact True.intro
    · rw [last]
      intro m hm
      rw [Option.mem_unique hm live, isOpen]
  · intro c hc
    rcases only c hc with ⟨p, signature, start⟩ | last
    · rw [start]
      exact True.intro
    · rw [last]
      exact fits

/-- Without a number for the last slot, no call is ended twice, and yet a call that has ended does not
net what its children leave: the root is a child of its own, takes as long as itself, and nets all of
it. -/
theorem root_below_itself_nets_its_time :
    let s := SharedTree.begin true [] 0 "job"
    let t := (s.run endedLoopHistory).tree
    (∀ c ∈ s.changes endedLoopHistory, c.1.EndsOpen c.2) ∧
    (∀ c ∈ s.changes endedLoopHistory, c.1.EndsFitting c.2) ∧
    ∃ n, t.get? ⟨0, 0⟩ = some n ∧ n.closed = true ∧ n.net.toNat = 5 ∧
      n.gross.toNat - t.childTime ⟨0, 0⟩ = 0 := by
  dsimp only
  -- the only call that is ended is the root, by the last edit
  have only : ∀ c ∈ (SharedTree.begin true [] 0 "job").changes endedLoopHistory,
      (∃ p signature, c.2 = .openChild p signature) ∨
      c = (((SharedTree.begin true [] 0 "job").run loopedHistory).tree, .close ⟨0, 0⟩ none 0) := by
    intro c hc
    rw [endedLoopHistory, SharedTree.changes_append, SharedTree.changes_cons,
      SharedTree.changes_nil, List.append_nil] at hc
    rcases List.mem_append.mp hc with start | last
    · rcases SharedTree.edit_of_mem_changes start with ⟨now, mem⟩
      exact .inl (edits_of_loopedHistory mem)
    · rw [TreeEvent.change?, Option.map_some, Option.toList_some] at last
      exact .inr (List.mem_singleton.mp last)
  have before := run_loopedHistory
  have after := run_endedLoopHistory
  dsimp only at before after
  generalize ((SharedTree.begin true [] 0 "job").run loopedHistory).tree = t at only before
  generalize ((SharedTree.begin true [] 0 "job").run endedLoopHistory).tree = t' at after ⊢
  rcases before with ⟨-, -, job, more, load⟩
  rcases after with ⟨-, -, job', more', load'⟩
  have fits : t.childTime ⟨0, 0⟩ < 2 ^ 64 := by
    rw [CallTree.childTime_eq job]
    simp [CallTree.timeOf, job, load]
  have ends := ends_of_only_close job rfl fits only
  refine ⟨ends.1, ends.2, _, job', rfl, by decide, ?_⟩
  rw [CallTree.childTime_eq job']
  simp [CallTree.timeOf, job', load']

end CallProfiler
