import CallProfiler.Tree.Snapshot
import CallProfiler.Proofs.Saturation
import CallProfiler.Proofs.Tree.Paths

/-!
# Proofs.Tree.Copies: snapshots of well-formed trees

A snapshot is taken with as many levels as there are slots, which is always enough: the copy of a node
is the node with the copies of its children (`snapshotFrom_eq`). What a copy shows depends only on what
lies below the node (`snapshotFrom_congr`), and the copy of the root shows every node once
(`size_eq_count`).

`snapshot_trim` is the trim as a reader of snapshots sees it: fast calls are left out, and the net time
of every call is its gross time without that of the calls it keeps (`Snapshot.trim`).
-/

namespace CallProfiler

namespace Snapshot

/-- The durations of some calls together. -/
def childTime (calls : List Snapshot) : Nat := (calls.map (·.gross.toNat)).sum

/-- The net time of a call: its duration without that of its children, and zero if theirs is longer. -/
def netTime (gross : UInt64) (calls : List Snapshot) : UInt64 :=
  UInt64.ofNat (gross.toNat - childTime calls)

mutual

/-- The number of calls in a snapshot. -/
def count : Snapshot → Nat
  | node _ _ _ _ children => countAll children + 1

/-- The number of calls in several snapshots. -/
def countAll : List Snapshot → Nat
  | [] => 0
  | first :: rest => first.count + countAll rest

end

mutual

/-- The calls of a snapshot, each before the calls below it. -/
def calls : Snapshot → List Snapshot
  | node signature gross net ioCall children =>
    node signature gross net ioCall children :: callsAll children

/-- The calls of several snapshots. -/
def callsAll : List Snapshot → List Snapshot
  | [] => []
  | first :: rest => first.calls ++ callsAll rest

end

mutual

/-- A snapshot without the calls below it that are faster than a threshold. -/
def trim (threshold : UInt64) : Snapshot → Snapshot
  | node signature gross _ ioCall children =>
    let kept := trimAll threshold children
    node signature gross (netTime gross kept) ioCall kept

/-- Several snapshots without their fast calls. -/
def trimAll (threshold : UInt64) : List Snapshot → List Snapshot
  | [] => []
  | first :: rest =>
    if first.gross < threshold then trimAll threshold rest
    else first.trim threshold :: trimAll threshold rest

end

theorem countAll_append (l l' : List Snapshot) : countAll (l ++ l') = countAll l + countAll l' := by
  induction l with
  | nil => simp [countAll]
  | cons s l ih =>
    simp only [List.cons_append, countAll, ih]
    omega

theorem callsAll_append (l l' : List Snapshot) : callsAll (l ++ l') = callsAll l ++ callsAll l' := by
  induction l with
  | nil => rfl
  | cons s l ih => simp only [List.cons_append, callsAll, ih, List.append_assoc]

mutual

/-- The calls of a copy are as many as its count, by recursion on the copy and its list of children. -/
theorem length_calls : ∀ s : Snapshot, s.calls.length = s.count
  | .node _ _ _ _ children => congrArg (· + 1) (length_callsAll children)

theorem length_callsAll : ∀ l : List Snapshot, (callsAll l).length = countAll l
  | [] => rfl
  | first :: rest => by
    rw [callsAll, countAll, List.length_append, length_calls first, length_callsAll rest]

end

/-- A trim of a copy leaves the durations alone. -/
theorem gross_trim (threshold : UInt64) (s : Snapshot) : (s.trim threshold).gross = s.gross := by
  cases s with
  | node signature gross net ioCall children => rfl

theorem trimAll_append (threshold : UInt64) (l l' : List Snapshot) :
    trimAll threshold (l ++ l') = trimAll threshold l ++ trimAll threshold l' := by
  induction l with
  | nil => rfl
  | cons s l ih =>
    simp only [List.cons_append, trimAll, ih]
    split <;> rfl

mutual

/-- A trim of a copy adds no calls. -/
theorem count_trim_le (threshold : UInt64) : ∀ s : Snapshot, (s.trim threshold).count ≤ s.count
  | .node _ _ _ _ children => Nat.succ_le_succ (countAll_trimAll_le threshold children)

theorem countAll_trimAll_le (threshold : UInt64) :
    ∀ l : List Snapshot, countAll (trimAll threshold l) ≤ countAll l
  | [] => Nat.le_refl _
  | first :: rest => by
    have here := count_trim_le threshold first
    have later := countAll_trimAll_le threshold rest
    simp only [trimAll, countAll]
    split
    · omega
    · simp only [countAll]
      omega

end

/-- The calls that are kept take no longer than all of them. -/
theorem childTime_trimAll_le (threshold : UInt64) (l : List Snapshot) :
    childTime (trimAll threshold l) ≤ childTime l := by
  induction l with
  | nil => exact Nat.le_refl _
  | cons s l ih =>
    have whole : childTime (s :: l) = s.gross.toNat + childTime l := rfl
    unfold trimAll
    split
    · omega
    · have kept : childTime (s.trim threshold :: trimAll threshold l) =
          s.gross.toNat + childTime (trimAll threshold l) := by
        rw [← gross_trim threshold s]
        rfl
      omega

end Snapshot

namespace CallTree

variable {t t' : CallTree} {h x : NodeRef} {n : CallNode} {threshold : UInt64}

/-! ## Copies without counting -/

/-- Two counts of levels give the same copy if both reach below the deepest node. -/
theorem copy_fuel (ok : t.WellFormed) (live : t.Live h) :
    ∀ f g, t.slots.size ≤ f + t.depth h → t.slots.size ≤ g + t.depth h → t.copy f h = t.copy g h := by
  apply ok.downward ?_ live
  intro x n hn below f g enough enough'
  have bound := (ok.path_ancestors ⟨n, hn⟩).length_lt ok
  unfold depth at enough enough'
  cases f with
  | zero => omega
  | succ f =>
    cases g with
    | zero => omega
    | succ g =>
      have children : n.children.filterMap (t.copy f) = n.children.filterMap (t.copy g) := by
        apply List.filterMap_congr
        intro c hc
        rcases ok.child_live hn hc with ⟨cn, hcn, parent⟩
        have deeper : t.depth c = (t.ancestors x).length + 1 := by
          unfold depth
          rw [ancestors_cons ok hcn parent, List.length_cons]
        apply below c hc
        · omega
        · omega
      simp only [copy, hn, Option.map_some, children]

/-- The copy of a node is the node with the copies of its children. -/
theorem snapshotFrom_eq (ok : t.WellFormed) (live : t.get? h = some n) :
    t.snapshotFrom h = some (.node n.signature n.gross n.net n.ioCall
      (n.children.filterMap t.snapshotFrom)) := by
  have bound := (ok.path_ancestors ⟨n, live⟩).length_lt ok
  have levels : t.slots.size = t.slots.size - 1 + 1 := by omega
  have children : n.children.filterMap (t.copy (t.slots.size - 1)) =
      n.children.filterMap t.snapshotFrom := by
    apply List.filterMap_congr
    intro c hc
    rcases ok.child_live live hc with ⟨cn, hcn, parent⟩
    have deeper : t.depth c = (t.ancestors h).length + 1 := by
      unfold depth
      rw [ancestors_cons ok hcn parent, List.length_cons]
    unfold snapshotFrom
    apply copy_fuel ok ⟨cn, hcn⟩
    · omega
    · omega
  rw [← children]
  unfold snapshotFrom
  rw [levels]
  simp only [copy, live, Option.map_some, Nat.add_sub_cancel]

/-- Only a node that is there has a copy. -/
theorem live_of_snapshot {s : Snapshot} (copied : t.snapshotFrom h = some s) : t.Live h := by
  cases live : t.get? h with
  | some n => exact ⟨n, live⟩
  | none =>
    unfold snapshotFrom at copied
    cases levels : t.slots.size with
    | zero => simp [levels, copy, live] at copied
    | succ fuel => simp [levels, copy, live] at copied

/-- Every node of a well-formed tree has a copy. -/
theorem exists_snapshot (ok : t.WellFormed) (live : t.Live h) : ∃ s, t.snapshotFrom h = some s := by
  rcases live with ⟨n, hn⟩
  exact ⟨_, snapshotFrom_eq ok hn⟩

/-- Where every element has an image, taking the images loses nothing. -/
theorem map_eq_map_some {α β : Type} {f : α → Option β} {l : List α}
    (each : ∀ a ∈ l, ∃ b, f a = some b) : l.map f = (l.filterMap f).map some := by
  induction l with
  | nil => rfl
  | cons a l ih =>
    rcases each a (List.mem_cons_self ..) with ⟨b, hb⟩
    have rest := ih fun c hc => each c (List.mem_cons_of_mem _ hc)
    rw [List.map_cons, List.filterMap_cons, hb, rest]
    rfl

theorem filterMap_of_map_some {α β : Type} {f : α → Option β} {l : List α} {l' : List β}
    (images : l.map f = l'.map some) : l.filterMap f = l' := by
  have same := congrArg (List.filterMap id) images
  simpa [List.filterMap_map] using same

/-- No child is missing in the copy of its parent. -/
theorem children_snapshots (ok : t.WellFormed) (live : t.get? h = some n) :
    n.children.map t.snapshotFrom = (n.children.filterMap t.snapshotFrom).map some := by
  apply map_eq_map_some
  intro c hc
  rcases ok.child_live live hc with ⟨cn, hcn, _⟩
  exact exists_snapshot ok ⟨cn, hcn⟩

/-- A copy depends only on what lies below the node. -/
theorem snapshotFrom_congr (ok : t.WellFormed) (ok' : t'.WellFormed) (live : t.Live h) :
    (∀ y, t.Below h y → t'.get? y = t.get? y) → t'.snapshotFrom h = t.snapshotFrom h := by
  apply ok.downward ?_ live
  intro x n hn below same
  have live' : t'.get? x = some n := (same x (.self hn)).trans hn
  rw [snapshotFrom_eq ok hn, snapshotFrom_eq ok' live']
  have children : n.children.filterMap t'.snapshotFrom = n.children.filterMap t.snapshotFrom := by
    apply List.filterMap_congr
    intro c hc
    rcases ok.child_live hn hc with ⟨cn, hcn, _⟩
    have step : t.Below x c := (Below.self hn).child hn hc hcn
    apply below c hc
    intro y belowc
    exact same y (step.trans belowc)
  rw [children]

/-! ## The calls of a copy -/

/-- A tour passes the calls of the copies in their order. -/
theorem Tour.calls_eq (ok : t.WellFormed) {ps l : List NodeRef} (tour : t.Tour ps l) :
    ∀ copies : List Snapshot, ps.map t.snapshotFrom = copies.map some →
      l.map t.snapshotFrom = (Snapshot.callsAll copies).map some := by
  -- the copy of a visited node makes room for those of its children
  induction tour with
  | nil =>
    intro copies same
    have none : copies = [] := by simpa using same.symm
    rw [none]
    rfl
  | @visit h n ps l hn _ ih =>
    intro copies same
    cases copies with
    | nil => exact absurd same (by simp)
    | cons s rest =>
      rw [List.map_cons, List.map_cons] at same
      rcases List.cons_eq_cons.mp same with ⟨first, same⟩
      have copy := first
      rw [snapshotFrom_eq ok hn] at copy
      have all := ih (n.children.filterMap t.snapshotFrom ++ rest) (by
        rw [List.map_append, List.map_append, children_snapshots ok hn, same])
      rw [Snapshot.callsAll_append] at all
      rw [List.map_cons, all, Snapshot.callsAll, first, ← Option.some.inj copy, Snapshot.calls]
      rfl

/-- The preorder of a node lists the calls of its copy. -/
theorem calls_preorder (ok : t.WellFormed) {s : Snapshot} (copy : t.snapshotFrom h = some s) :
    (t.preorder h).map t.snapshotFrom = s.calls.map some := by
  have tour := (ok.tour_preorder (live_of_snapshot copy) (Nat.le_refl _)).2.1
  have all := tour.calls_eq ok [s] (by
    rw [List.map_cons, List.map_cons, copy]
    rfl)
  simpa [Snapshot.callsAll] using all

/-- The size of a tree is the number of calls in its copy. -/
theorem size_eq_count (ok : t.WellFormed) {s : Snapshot} (copy : t.snapshot = some s) :
    t.size = s.count := by
  have length := congrArg List.length (calls_preorder ok copy)
  rw [List.length_map, List.length_map, Snapshot.length_calls] at length
  rw [size_eq_length_preorder ok, length]

/-! ## Copies of trimmed trees -/

/-- The sum that was kept modulo `2 ^ 64` turns into the exact difference when the call ends. -/
theorem closedNet_eq (gross : UInt64) {time : Nat} (fits : time < 2 ^ 64) :
    CallNode.closedNet gross (-UInt64.ofNat time) = UInt64.ofNat (gross.toNat - time) := by
  have bound := gross.toNat_lt
  have exact : (UInt64.ofNat time).toNat = time := UInt64.toNat_ofNat_of_lt' fits
  have sum : (gross + -UInt64.ofNat time).toNat = (gross.toNat + (2 ^ 64 - time)) % 2 ^ 64 := by
    rw [UInt64.toNat_add, UInt64.toNat_neg, exact]
    show (_ + (2 ^ 64 - time) % 2 ^ 64) % 2 ^ 64 = _
    omega
  apply UInt64.toNat_inj.mp
  rw [UInt64.toNat_ofNat']
  unfold CallNode.closedNet
  -- the sum wraps around exactly if the children took longer than the call
  by_cases wrapped : gross < gross + -UInt64.ofNat time
  · have less := UInt64.lt_iff_toNat_lt.mp wrapped
    rw [sum] at less
    simp only [wrapped, if_true]
    show 0 = _
    omega
  · have notLess : ¬ gross.toNat < (gross + -UInt64.ofNat time).toNat :=
      fun less => wrapped (UInt64.lt_iff_toNat_lt.mpr less)
    simp only [wrapped, if_false]
    rw [sum] at notLess ⊢
    omega

/-- The total is capped where it exceeds every duration, so the net time does not notice. -/
theorem saturatingSub_grossTotal (gross : UInt64) (hs : List NodeRef) :
    saturatingSub gross (t.grossTotal hs) =
      UInt64.ofNat (gross.toNat - ((hs.filterMap t.get?).map (·.gross.toNat)).sum) := by
  have total : (t.grossTotal hs).toNat =
      min (((hs.filterMap t.get?).map (·.gross.toNat)).sum) (2 ^ 64 - 1) := by
    unfold grossTotal
    rw [← List.foldl_map, toNat_foldl_saturatingAdd, List.map_map, UInt64.toNat_zero, Nat.zero_add]
    rfl
  -- a capped total is at least the greatest duration, and then both differences are zero
  have bound := gross.toNat_lt
  apply UInt64.toNat_inj.mp
  rw [toNat_saturatingSub, UInt64.toNat_ofNat', total]
  omega

/-- The copies of the children that a trim keeps, if `copy` gives the trimmed copy of each, and the
time that these children take. -/
theorem trimAll_children (ok : t.WellFormed) {copy : NodeRef → Option Snapshot} {cs : List NodeRef}
    (closed : ∀ c ∈ cs, ∃ cn, t.get? c = some cn ∧ cn.closed = true)
    (copies : ∀ c ∈ cs, t.isFast threshold c = false →
      copy c = (t.snapshotFrom c).map (Snapshot.trim threshold)) :
    (cs.filter fun c => !t.isFast threshold c).filterMap copy =
      Snapshot.trimAll threshold (cs.filterMap t.snapshotFrom) ∧
    (((cs.filter fun c => !t.isFast threshold c).filterMap t.get?).map (·.gross.toNat)).sum =
      Snapshot.childTime (Snapshot.trimAll threshold (cs.filterMap t.snapshotFrom)) := by
  induction cs with
  | nil => exact ⟨rfl, rfl⟩
  | cons c cs ih =>
    rcases ih (fun d hd => closed d (List.mem_cons_of_mem _ hd))
      (fun d hd => copies d (List.mem_cons_of_mem _ hd)) with ⟨kept, time⟩
    rcases closed c (List.mem_cons_self ..) with ⟨cn, hcn, ended⟩
    have first := snapshotFrom_eq ok hcn
    have fast : t.isFast threshold c = decide (cn.gross < threshold) := by
      simp only [isFast, hcn, Option.any_some, ended, Bool.true_and]
    rw [List.filterMap_cons_some first]
    unfold Snapshot.trimAll
    by_cases short : cn.gross < threshold
    · have dropped : (!t.isFast threshold c) = false := by rw [fast, decide_eq_true short]; rfl
      rw [List.filter_cons_of_neg (by rw [dropped]; exact Bool.false_ne_true)]
      rw [if_pos (by exact short)]
      exact ⟨kept, time⟩
    · have stays : t.isFast threshold c = false := by rw [fast, decide_eq_false short]
      have here := copies c (List.mem_cons_self ..) stays
      rw [first, Option.map_some] at here
      rw [List.filter_cons_of_pos (by rw [stays]; rfl)]
      rw [if_neg (by exact short)]
      rw [List.filterMap_cons_some here, List.filterMap_cons_some hcn, kept]
      refine ⟨rfl, ?_⟩
      rw [List.map_cons, List.sum_cons, time]
      rfl

/-- In a tree where every call has ended, a trim shows as the trim of the copy. -/
theorem snapshot_trim (ok : t.WellFormed) (pool : NodePool) (threshold : UInt64)
    (closed : ∀ h n, t.get? h = some n → n.closed = true) :
    (t.removeCallsFasterThan pool threshold).1.snapshot =
      t.snapshot.map (Snapshot.trim threshold) := by
  rcases removeCallsFasterThan_spec ok.toSlotted ok.toLinked pool threshold with
    ⟨thin, -, -, get⟩
  have ok' := ok.removeCallsFasterThan pool threshold
  have copies : ∀ h, t.Live h → ¬ t.Doomed threshold h →
      (t.removeCallsFasterThan pool threshold).1.snapshotFrom h =
        (t.snapshotFrom h).map (Snapshot.trim threshold) := by
    intro h live
    apply ok.downward ?_ live
    intro x n hn below safe
    have hn' := (get x _).mpr ⟨safe, n, hn, rfl⟩
    have ended : ∀ c ∈ n.children, ∃ cn, t.get? c = some cn ∧ cn.closed = true := by
      intro c hc
      rcases ok.child_live hn hc with ⟨cn, hcn, _⟩
      exact ⟨cn, hcn, closed c cn hcn⟩
    have keeps : ∀ c ∈ n.children, t.isFast threshold c = false →
        (t.removeCallsFasterThan pool threshold).1.snapshotFrom c =
          (t.snapshotFrom c).map (Snapshot.trim threshold) := by
      intro c hc slow
      exact below c hc (ok.toLinked.safe_child hn safe hc slow)
    rcases trimAll_children ok ended keeps with ⟨kept, time⟩
    rw [snapshotFrom_eq ok hn, snapshotFrom_eq ok' hn', Option.map_some]
    simp only [trimmed, closed x n hn, if_true, kept, saturatingSub_grossTotal, time]
    rfl
  have safe : ¬ t.Doomed threshold t.root := by
    intro doomed
    rcases doomed with ⟨a, notRoot, _, above⟩
    exact notRoot (ok.toLinked.eq_root_of_below_root above)
  have whole := copies t.root ok.toLinked.live_root safe
  unfold snapshot
  rw [thin.root]
  exact whole

end CallTree

end CallProfiler
