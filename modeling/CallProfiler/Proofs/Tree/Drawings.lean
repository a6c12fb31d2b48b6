import CallProfiler.Tree.Render
import CallProfiler.Proofs.Tree.Copies
import CallProfiler.Proofs.Tree.Overflow

/-!
# Proofs.Tree.Drawings: a drawing shows a snapshot

A tree is drawn from its slots: the rows follow a walk over pending handles, and what stands before a
signature is put together from the links to the parents, as far as the topmost node. A snapshot has
neither handles nor parents, and `Snapshot.table` draws it by one recursion that hands down what stands
before the signatures. Both give the same text, so a drawing shows nothing but the snapshot.

* `preorder_eq` — the walk visits a node and then, child by child, what is below it
* `leading_child` — what stands before a child is what its parent hands down, and the branch to it
* `drawings_show_snapshots` — the text of any node is the table of its snapshot, after every history with
  numbers for its slots
* `drawing_of_strayHistory_shows_more` — without a number a call can be drawn as it stands elsewhere
-/

namespace CallProfiler

/-! ## The table of a snapshot -/

namespace Snapshot

/-- The lines above the rows. -/
def tableHead : String :=
  "----------------------------------------------------------------------\n" ++
  "Selftime (ms)              Total (ms)                 Method signature\n" ++
  "----------------------------------------------------------------------\n"

mutual

/-- The rows of a call and of all below it. Each row has two time columns, which `column` writes for a
time and the whole time of the table; `lead` stands before the signature of the call, and `below` is
where the leads of the rows below it begin. -/
def rows (column : UInt64 → UInt64 → List Char) (total : UInt64) (lead below : List Char) :
    Snapshot → List Char
  | node signature gross net _ children =>
    column net total ++ column gross total ++ lead ++ signature.toList ++ ['\n'] ++
      rowsAll column total below children

/-- The rows of the children of a call, the last of which ends the line that goes down to them. -/
def rowsAll (column : UInt64 → UInt64 → List Char) (total : UInt64) (below : List Char) :
    List Snapshot → List Char
  | [] => []
  | child :: rest =>
    (if rest.isEmpty then
      child.rows column total (below ++ "\x60-- ".toList) (below ++ "    ".toList)
    else child.rows column total (below ++ "|-- ".toList) (below ++ "|   ".toList)) ++
      rowsAll column total below rest

end

/-- The text of a snapshot, with times relative to its topmost call. -/
def table (column : UInt64 → UInt64 → List Char) (s : Snapshot) : String :=
  String.ofList (tableHead.toList ++ s.rows column s.gross [] [])

end Snapshot

namespace CallTree

variable {t : CallTree} {h x c top : NodeRef} {n : CallNode} {ps cs l l' : List NodeRef}

/-! ## The walk, child by child -/

/-- Pending handles leave no choice for a tour. -/
theorem Tour.unique (tour : t.Tour ps l) (tour' : t.Tour ps l') : l = l' := by
  have first := tour.visit_eq (Nat.le_max_left l.length l'.length)
  have second := tour'.visit_eq (Nat.le_max_right l.length l'.length)
  exact first.symm.trans second

/-- The preorders of some nodes, one after the other, are the walk over these nodes. -/
theorem WellFormed.tour_preorders (ok : t.WellFormed) (live : ∀ c ∈ cs, t.Live c) :
    t.Tour cs (cs.flatMap t.preorder) := by
  induction cs with
  | nil => exact .nil
  | cons c cs ih =>
    have first := (ok.tour_preorder (live c (List.mem_cons_self ..)) (Nat.le_refl _)).2.1
    exact first.append (ih fun d hd => live d (List.mem_cons_of_mem _ hd))

/-- The preorder of a node is the node and the preorders of its children. -/
theorem preorder_eq (ok : t.WellFormed) (live : t.get? h = some n) :
    t.preorder h = h :: n.children.flatMap t.preorder := by
  have below : t.Tour n.children (n.children.flatMap t.preorder) := by
    refine ok.tour_preorders fun c hc => ?_
    rcases ok.child_live live hc with ⟨cn, hcn, _⟩
    exact ⟨cn, hcn⟩
  have tour := (ok.tour_preorder ⟨n, live⟩ (Nat.le_refl _)).2.1
  exact tour.unique (.visit live (by rwa [List.append_nil]))

/-! ## Last children -/

/-- A child is the last one if no other comes after it. -/
theorem isLastChild_eq (ok : t.WellFormed) (hx : t.get? x = some n) {before after : List NodeRef}
    (split : n.children = before ++ c :: after) : t.isLastChild c = after.isEmpty := by
  have listed : c ∈ n.children := by simp [split]
  rcases ok.child_live hx listed with ⟨cn, hcn, parent⟩
  have last : t.isLastChild c = (n.children.getLast? == some c) := by
    simp [isLastChild, parent?, hcn, parent, hx]
  rw [last, split]
  cases after with
  | nil => simp
  | cons d after =>
    -- the last child is one of those that come later, and none of them is the same
    have nodup := ok.children_nodup hx
    rw [split] at nodup
    have apart : c ∉ d :: after := (List.nodup_cons.mp (List.nodup_append.mp nodup).2.1).1
    rw [List.getLast?_append, List.getLast?_cons_cons]
    have final := List.getLast?_eq_some_getLast (List.cons_ne_nil d after)
    have other : (d :: after).getLast (List.cons_ne_nil d after) ≠ c :=
      fun same => apart (same ▸ List.getLast_mem _)
    simp [final, other]

end CallTree

namespace TreeStyle

variable {t : CallTree} {x c top : NodeRef} {n : CallNode}

/-! ## What stands before a signature -/

/-- Where the leads of the rows below a node begin. -/
def passage (t : CallTree) (top x : NodeRef) : List Char :=
  (((x :: t.ancestors x).takeWhile (· ≠ top)).reverse).flatMap fun a => passing (t.isLastChild a)

theorem passage_top (t : CallTree) (top : NodeRef) : passage t top top = [] := by
  simp [passage]

/-- A child has the lead that its parent hands down, and the branch to it; it hands down a line to its
next sibling. -/
theorem leading_child (ok : t.WellFormed) (below : t.Below top x) (hx : t.get? x = some n)
    (hc : c ∈ n.children) : leading t top c = passage t top x ++ joining (t.isLastChild c) ∧
      passage t top c = passage t top x ++ passing (t.isLastChild c) := by
  rcases ok.child_live hx hc with ⟨cn, hcn, parent⟩
  have above := CallTree.ancestors_cons ok hcn parent
  -- the topmost node lies above the parent, so it is not the child
  have inner : c ≠ top := by
    intro same
    rw [← same] at below
    exact ok.toLinked.not_below_child hx hc below
  constructor
  · rw [leading, if_neg inner, above]
    rfl
  · unfold passage
    rw [List.takeWhile_cons_of_pos (by simpa using inner), above, List.reverse_cons,
      List.flatMap_append, List.flatMap_singleton]

/-! ## Rows -/

/-- The row of a node in a drawing. -/
def rowOf (style : TreeStyle) (t : CallTree) (total : UInt64) (top h : NodeRef) : List Char :=
  match t.get? h with
  | some n => style.row total n.net n.gross (leading t top h) n.signature
  | none => []

/-- The rows of some children and of all below them, if those of each child are the rows of its copy. -/
theorem rows_children (ok : t.WellFormed) (style : TreeStyle) (total : UInt64)
    (below : t.Below top x) (hx : t.get? x = some n) {before cs : List NodeRef}
    (split : n.children = before ++ cs)
    (each : ∀ c ∈ cs, ∀ s, t.snapshotFrom c = some s →
      (t.preorder c).flatMap (style.rowOf t total top) =
        s.rows style.timeColumn total (leading t top c) (passage t top c)) :
    (cs.flatMap t.preorder).flatMap (style.rowOf t total top) =
      Snapshot.rowsAll style.timeColumn total (passage t top x) (cs.filterMap t.snapshotFrom) := by
  induction cs generalizing before with
  | nil => rfl
  | cons c cs ih =>
    have listed : ∀ d ∈ c :: cs, d ∈ n.children := fun d hd => by simp [split, List.mem_append, hd]
    have copied : ∀ d ∈ c :: cs, ∃ s, t.snapshotFrom d = some s := by
      intro d hd
      rcases ok.child_live hx (listed d hd) with ⟨dn, hdn, _⟩
      exact CallTree.exists_snapshot ok ⟨dn, hdn⟩
    rcases copied c (List.mem_cons_self ..) with ⟨s, copy⟩
    have here := each c (List.mem_cons_self ..) s copy
    have split' : n.children = (before ++ [c]) ++ cs := by simpa using split
    have later := ih split' fun d hd => each d (List.mem_cons_of_mem _ hd)
    rcases leading_child ok below hx (listed c (List.mem_cons_self ..)) with ⟨lead, handed⟩
    -- the copies have an end where the children have one
    have last : (cs.filterMap t.snapshotFrom).isEmpty = cs.isEmpty := by
      cases cs with
      | nil => rfl
      | cons d cs =>
        rcases copied d (by simp) with ⟨s', copy'⟩
        rw [List.filterMap_cons_some copy']
        rfl
    rw [List.flatMap_cons, List.flatMap_append, here, later, List.filterMap_cons_some copy,
      Snapshot.rowsAll, lead, handed, CallTree.isLastChild_eq ok hx split, last]
    cases cs.isEmpty <;> rfl

/-- The rows of a node and of all below it are the rows of its copy. -/
theorem rows_preorder (ok : t.WellFormed) (style : TreeStyle) (total : UInt64) (live : t.Live x) :
    t.Below top x → ∀ s, t.snapshotFrom x = some s →
      (t.preorder x).flatMap (style.rowOf t total top) =
        s.rows style.timeColumn total (leading t top x) (passage t top x) := by
  apply ok.downward ?_ live
  intro x n hx each below s copy
  have rest := rows_children ok style total below hx (List.nil_append _).symm fun c hc => by
    rcases ok.child_live hx hc with ⟨cn, hcn, _⟩
    exact each c hc (below.child hx hc hcn)
  rw [CallTree.snapshotFrom_eq ok hx] at copy
  obtain rfl := Option.some.inj copy
  rw [CallTree.preorder_eq ok hx, List.flatMap_cons, rest, Snapshot.rows]
  simp only [rowOf, hx, row]

/-- The lines above the rows are those of the table, character by character. -/
theorem header_eq : header = Snapshot.tableHead.toList := by
  unfold Snapshot.tableHead
  rw [String.toList_append, String.toList_append]
  decide +kernel

/-- The text of a node is the table of its copy. -/
theorem renderFrom_eq (ok : t.WellFormed) (style : TreeStyle) {s : Snapshot}
    (copy : t.snapshotFrom top = some s) : style.renderFrom t top = s.table style.timeColumn := by
  rcases CallTree.live_of_snapshot copy with ⟨n, live⟩
  have rows := rows_preorder ok style n.gross ⟨n, live⟩ (.self live) s copy
  have total : s.gross = n.gross := by
    rw [CallTree.snapshotFrom_eq ok live] at copy
    rw [← Option.some.inj copy]
    rfl
  have lead : leading t top top = [] := if_pos rfl
  rw [lead, passage_top] at rows
  unfold renderFrom draw Snapshot.table
  rw [live, header_eq, total, ← rows]
  rfl

end TreeStyle

/-- The text of any node of a tree, in either style, is the table of the snapshot of that node, so nodes
with the same snapshot have the same text. This holds after any changes to a tree whose slots can be
numbered in 32 bits. -/
theorem drawings_show_snapshots (pooling : Bool) (before : List PoolEvent) (now : Reading)
    (signature : String) (events : List TreeEvent)
    (room : ((SharedTree.begin pooling before now signature).run events).tree.slots.size < 2 ^ 32) :
    let t := ((SharedTree.begin pooling before now signature).run events).tree
    ∀ (style : TreeStyle) (h : NodeRef), t.Live h →
      ∃ s, t.snapshotFrom h = some s ∧ style.renderFrom t h = s.table style.timeColumn := by
  intro t style h live
  have good := (SharedTree.good_begin pooling before now signature).run room
  rcases CallTree.exists_snapshot good.tree live with ⟨s, copy⟩
  exact ⟨s, copy, TreeStyle.renderFrom_eq good.tree style copy⟩

/-- After a call was pruned with the leaf below it, other calls come into their slots. -/
def regrownHistory : List TreeEvent :=
  prunedHistory.take 6 ++
    [.edit 21 (.openChild ⟨2, 1⟩ "parse"), .edit 24 (.addIoCall ⟨1, 1⟩ "fetch" 2),
      .edit 25 (.close ⟨1, 1⟩ none 0), .edit 26 (.addIoCall ⟨2, 1⟩ "write" 1),
      .edit 28 (.close ⟨2, 1⟩ none 0), .edit 29 (.openChild ⟨0, 0⟩ "next")]

/-- The text of a node inside of the tree, with a leaf below the first of its two children. -/
theorem drawing_after_regrowth :
    let t := ((SharedTree.begin true [] 0 "job").run regrownHistory).tree
    let s := Snapshot.node "again" 8 3 false
      [.node "parse" 4 2 false [.node "fetch" 2 2 true []], .node "write" 1 1 true []]
    t.slots.size < 2 ^ 32 ∧ t.Live ⟨2, 1⟩ ∧ t.snapshotFrom ⟨2, 1⟩ = some s ∧
    (TreeStyle.mk false).renderFrom t ⟨2, 1⟩ = s.table (TreeStyle.mk false).timeColumn := by
  intro t s
  have room : t.slots.size < 2 ^ 32 := by decide +kernel
  have live : t.Live ⟨2, 1⟩ := Option.isSome_iff_exists.mp (by decide +kernel)
  have levels : t.slots.size = 6 := by decide +kernel
  have nodes : [⟨2, 1⟩, ⟨1, 1⟩, ⟨3, 0⟩, ⟨4, 0⟩].map t.get? =
      [some ⟨"again", 20, 8, 3, [⟨1, 1⟩, ⟨4, 0⟩], some ⟨0, 0⟩, false, true⟩,
        some ⟨"parse", 21, 4, 2, [⟨3, 0⟩], some ⟨2, 1⟩, false, true⟩,
        some ⟨"fetch", 22, 2, 2, [], some ⟨1, 1⟩, true, true⟩,
        some ⟨"write", 25, 1, 1, [], some ⟨2, 1⟩, true, true⟩] := by decide +kernel
  simp only [List.map_cons, List.cons.injEq] at nodes
  have copy : t.snapshotFrom ⟨2, 1⟩ = some s := by
    simp [CallTree.snapshotFrom, levels, CallTree.copy, nodes, s]
  rcases drawings_show_snapshots true [] 0 "job" regrownHistory room ⟨false⟩ ⟨2, 1⟩ live with
    ⟨s', copy', text⟩
  obtain rfl : s' = s := Option.some.inj (copy'.symm.trans copy)
  exact ⟨room, live, copy, text⟩

/-! ### A call in the drawing of another one -/

namespace TreeStyle

variable {t : CallTree} {r c d : NodeRef} {rn cn dn : CallNode}

/-- One node lists another as its only child, and that one was started below the root, which has other
children after it. The drawing has the row of the child where the root would have it. -/
theorem draw_stray (style : TreeStyle) {levels : Nat} (size : t.slots.size = levels + 3)
    (root : t.get? r = some rn) (noParent : rn.parent = none) (last : rn.children.getLast? ≠ some d)
    (top : t.get? c = some cn) (only : cn.children = [d]) (apart : r ≠ c)
    (child : t.get? d = some dn) (below : dn.parent = some r) (leaf : dn.children = [])
    (other : d ≠ c) :
    style.draw t c = header ++ (style.row cn.gross cn.net cn.gross [] cn.signature ++
      style.row cn.gross dn.net dn.gross "    |-- ".toList dn.signature) := by
  have walk : t.preorder c = [c, d] := by
    rw [CallTree.preorder, size]
    simp [CallTree.visit, top, only, child, leaf]
  have above : t.ancestors d = [r] := by
    rw [CallTree.ancestors, size]
    simp [CallTree.parentChain, CallTree.parent?, child, below, root, noParent]
  have rootLast : t.isLastChild r = true := by
    simp [CallTree.isLastChild, CallTree.parent?, root, noParent]
  have notLast : t.isLastChild d = false := by
    simp [CallTree.isLastChild, CallTree.parent?, child, below, root, last]
  have lead : leading t c d = "    |-- ".toList := by
    simp [leading, other, above, apart, rootLast, notLast, passing, joining]
  have first : leading t c c = [] := if_pos rfl
  unfold draw
  dsimp only
  rw [walk, top, List.flatMap_cons, List.flatMap_singleton, top, child, first, lead]
  rfl

end TreeStyle

/-- The crowd below the third call leaves no number for a call below the second one, which gets the
handle of the first one. -/
def strayHistory : List TreeEvent :=
  [.edit 0 (.openChild ⟨0, 0⟩ "parse"), .edit 0 (.openChild ⟨0, 0⟩ "load"),
    .edit 0 (.openChild ⟨0, 0⟩ "fill")] ++ (crowd (2 ^ 32 - 3) ⟨3, 0⟩ ++
    [.edit 0 (.openChild ⟨2, 0⟩ "read")])

/-- The first call is a child of the root, and the only child of the second call as well. -/
theorem run_strayHistory :
    let t := ((SharedTree.begin true [] 0 "job").run strayHistory).tree
    t.slots.size = 2 ^ 32 + 2 ∧
    t.get? ⟨0, 0⟩ = some { signature := "job", children := [⟨1, 0⟩, ⟨2, 0⟩, ⟨3, 0⟩] } ∧
    t.get? ⟨1, 0⟩ = some { signature := "parse", parent := some ⟨0, 0⟩ } ∧
    t.get? ⟨2, 0⟩ =
      some { signature := "load", parent := some ⟨0, 0⟩, children := [⟨1, 0⟩] } := by
  dsimp only
  rw [strayHistory, SharedTree.run_append, SharedTree.run_append]
  have begun := SharedTree.begun_three "parse" "load" "fill"
  generalize (SharedTree.begin true [] 0 "job").run _ = s at begun ⊢
  have before := begun.size
  rcases SharedTree.padded_crowd begun.full begun.blank begun.third (2 ^ 32 - 3) with
    ⟨padded, blank, -⟩
  generalize s.run (crowd (2 ^ 32 - 3) ⟨3, 0⟩) = s' at padded blank ⊢
  have size : s'.tree.slots.size = 2 ^ 32 + 1 := by
    have grown := padded.size
    omega
  have next : s'.tree.nextHandle = ⟨1, 0⟩ := by
    rw [CallTree.nextHandle, size]
    rfl
  have load := padded.others (by decide) begun.second
  rcases CallTree.openChild_full padded.full blank load 0 "read" with ⟨t', read, appended⟩
  have get := appended.get?_over (by omega)
  rw [next] at read get
  rw [SharedTree.run_cons, SharedTree.step_openChild read, SharedTree.run_nil]
  refine ⟨appended.size.trans (by omega), ?_, ?_, ?_⟩
  · rw [get, if_neg (by decide), padded.others (by decide) begun.root]
  · rw [get, if_neg (by decide), padded.others (by decide) begun.first]
  · rw [get, if_pos rfl]
    rfl

/-- Without a number for the last slot, a drawing can show a call as it stands below another caller, of
which nothing is in the snapshot. -/
theorem drawing_of_strayHistory_shows_more :
    let t := ((SharedTree.begin true [] 0 "job").run strayHistory).tree
    let s := Snapshot.node "load" 0 0 false [.node "parse" 0 0 false []]
    t.Live ⟨2, 0⟩ ∧ t.snapshotFrom ⟨2, 0⟩ = some s ∧
    (TreeStyle.mk true).renderFrom t ⟨2, 0⟩ ≠ s.table (TreeStyle.mk true).timeColumn := by
  have shape := run_strayHistory
  dsimp only at shape ⊢
  generalize ((SharedTree.begin true [] 0 "job").run strayHistory).tree = t at shape ⊢
  rcases shape with ⟨size, root, parse, load⟩
  obtain ⟨levels, size⟩ : ∃ levels, t.slots.size = levels + 3 := ⟨2 ^ 32 - 1, size⟩
  refine ⟨⟨_, load⟩, ?_, ?_⟩
  · rw [CallTree.snapshotFrom, size]
    simp [CallTree.copy, load, parse]
  · have drawn := (TreeStyle.mk true).draw_stray size root rfl (by decide) load rfl (by decide)
      parse rfl rfl (by decide)
    intro same
    rw [TreeStyle.renderFrom, drawn, Snapshot.table] at same
    -- the two texts differ in length, because the row of the child is indented once more
    have lengths := congrArg List.length (String.ofList_injective same)
    rw [TreeStyle.header_eq] at lengths
    simp [TreeStyle.row, Snapshot.rows, Snapshot.rowsAll, Snapshot.gross] at lengths

end CallProfiler
