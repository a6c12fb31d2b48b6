import CallProfiler.Proofs.Tree.Handles

/-!
# Proofs.Tree.Refusals: an edit is refused as a whole

An edit looks its handle up before it does anything, and refuses a handle that finds no node. Three
kinds of edits look up a second handle, that of the parent, when the tree has been changed already
(`CallTree.laterLookup?`). If that one failed the edit would be refused half done
(`half_done_of_lost_parent`). It never does, because the parent of a node is there, and neither a new
node nor the end of a call takes the place of another node (`laterLookup_finds`).

* `edit_accepted` — an edit through the handle of a node is not refused
* `failed_edits_change_nothing` — a refused edit leaves the tree and its pool exactly as they were
-/

namespace CallProfiler

namespace CallTree

variable {t mid : CallTree} {pool : NodePool} {now : Reading} {x p : NodeRef} {change : TreeEdit}

/-- The second lookup of an edit: the tree as it is by then, and the parent that is looked up in it. -/
def laterLookup? (t : CallTree) (pool : NodePool) (now : Reading) :
    TreeEdit → Option (CallTree × NodeRef)
  | .openChild parent signature =>
    (t.get? parent).map fun _ =>
      ((t.insert (pool.acquire.1.begun signature now (some parent))).2, parent)
  | .close node signature _ =>
    (t.get? node).bind fun n => n.parent.map fun parent =>
      (t.update node fun _ => n.closedAt now signature, parent)
  | .addIoCall parent description duration =>
    (t.get? parent).map fun _ =>
      ((t.insert (pool.acquire.1.measured description duration now parent)).2, parent)
  | .setSignature _ _ | .trim _ => none

/-- Whether an edit prunes the call that it ends. -/
def prunes (t : CallTree) (now : Reading) : TreeEdit → Bool
  | .close node _ minimum => (t.get? node).any fun n => decide (saturatingSub now n.start < minimum)
  | _ => false

/-- The parent is looked up when a new node is below it already, or when its child has ended. -/
theorem laterLookup_cases (look : t.laterLookup? pool now change = some (mid, p)) :
    (∃ signature, change = .openChild p signature ∧ t.Live p ∧
      mid = (t.insert (pool.acquire.1.begun signature now (some p))).2) ∨
    (∃ node signature minimum n, change = .close node signature minimum ∧ t.get? node = some n ∧
      n.parent = some p ∧ mid = t.update node fun _ => n.closedAt now signature) ∨
    (∃ description duration, change = .addIoCall p description duration ∧ t.Live p ∧
      mid = (t.insert (pool.acquire.1.measured description duration now p)).2) := by
  cases change with
  | openChild parent signature =>
    rcases Option.map_eq_some_iff.mp look with ⟨pn, live, same⟩
    obtain ⟨rfl, rfl⟩ := Prod.mk.inj same
    exact .inl ⟨signature, rfl, ⟨pn, live⟩, rfl⟩
  | close node signature minimum =>
    rcases Option.bind_eq_some_iff.mp look with ⟨n, live, above⟩
    rcases Option.map_eq_some_iff.mp above with ⟨parent, caller, same⟩
    obtain ⟨rfl, rfl⟩ := Prod.mk.inj same
    exact .inr (.inl ⟨node, signature, minimum, n, rfl, live, caller, rfl⟩)
  | addIoCall parent description duration =>
    rcases Option.map_eq_some_iff.mp look with ⟨pn, live, same⟩
    obtain ⟨rfl, rfl⟩ := Prod.mk.inj same
    exact .inr (.inr ⟨description, duration, rfl, ⟨pn, live⟩, rfl⟩)
  | setSignature _ _ | trim _ => cases look

/-- Were the parent not found, the edit would be refused and the tree left half changed. A call that is
pruned is only taken out of the list of its parent, so nothing is refused there. -/
theorem half_done_of_lost_parent (look : t.laterLookup? pool now change = some (mid, p))
    (stays : t.prunes now change = false) (lost : mid.get? p = none) :
    (t.edit pool now change).1 = .refused (.staleNode p) ∧ (t.edit pool now change).2.1 = mid := by
  rcases laterLookup_cases look with ⟨signature, rfl, ⟨pn, live⟩, rfl⟩ |
    ⟨node, signature, minimum, n, rfl, live, caller, rfl⟩ |
    ⟨description, duration, rfl, ⟨pn, live⟩, rfl⟩
  · simp [edit, openChild, live, lost, EditAnswer.ofExcept]
  · have slow : ¬ saturatingSub now n.start < minimum := by
      simpa [prunes, live] using stays
    have gross : ¬ (n.closedAt now signature).gross < minimum := slow
    have caller' : (n.closedAt now signature).parent = some p := caller
    simp [edit, close, live, caller', gross, lost, EditAnswer.ofExcept]
  · simp [edit, addIoCall, live, lost, EditAnswer.ofExcept]

/-- The second lookup finds the parent. -/
theorem laterLookup_finds (ok : t.WellFormed) (room : t.slots.size < 2 ^ 32)
    (look : t.laterLookup? pool now change = some (mid, p)) : mid.Live p := by
  rcases laterLookup_cases look with ⟨_, rfl, ⟨pn, live⟩, rfl⟩ |
    ⟨_, _, _, n, rfl, live, caller, rfl⟩ | ⟨_, _, rfl, ⟨pn, live⟩, rfl⟩
  · exact ⟨pn, (grafted_insert ok room live _ id).1⟩
  · exact live_update.mpr (ok.toLinked.below_of_parent live caller).live_left
  · exact ⟨pn, (grafted_insert ok room live _ id).1⟩

/-- An edit through the handle of a node that is there is not refused. -/
theorem edit_accepted (ok : t.WellFormed) (room : t.slots.size < 2 ^ 32) (blank : pool.AllBlank)
    (target : change.target? = some x) (live : t.Live x) (e : RecordError) :
    (t.edit pool now change).1 ≠ .refused e := by
  rcases live with ⟨n, live⟩
  cases change with
  | openChild parent signature =>
    obtain rfl : parent = x := Option.some.inj target
    rcases openChild_live ok room blank live now signature with ⟨c, t', eq, _⟩
    simp [edit, eq, EditAnswer.ofExcept]
  | close node signature minimum =>
    obtain rfl : node = x := Option.some.inj target
    rcases close_accepted ok.toLinked live pool now signature minimum with ⟨outcome, eq⟩
    simp [edit, eq, EditAnswer.ofExcept]
  | addIoCall parent description duration =>
    obtain rfl : parent = x := Option.some.inj target
    rcases addIoCall_live ok room blank live now description duration with ⟨c, t', eq, _⟩
    simp [edit, eq, EditAnswer.ofExcept]
  | setSignature node signature =>
    obtain rfl : node = x := Option.some.inj target
    simp [edit, setSignature_live live, EditAnswer.ofExcept]
  | trim threshold => exact absurd target (by simp [TreeEdit.target?])

end CallTree

/-- After any changes to a tree whose slots can be numbered in 32 bits, and any use of its pool, an edit
through any handle is refused just if no node of the tree has that handle. The error then names the
handle, and the tree and the pool are what they were. No edit is refused half done, because it finds the
parent whenever it looks it up. -/
theorem failed_edits_change_nothing (pooling : Bool) (before : List PoolEvent) (now : Reading)
    (signature : String) (events : List TreeEvent)
    (room : ((SharedTree.begin pooling before now signature).run events).tree.slots.size < 2 ^ 32) :
    let s := (SharedTree.begin pooling before now signature).run events
    ∀ (r : Reading) (change : TreeEdit) (x : NodeRef), change.target? = some x →
      ((∃ e, (s.tree.edit s.pool r change).1 = .refused e) ↔ s.tree.get? x = none) ∧
      (∀ e, (s.tree.edit s.pool r change).1 = .refused e →
        e = .staleNode x ∧ s.step (.edit r change) = s) ∧
      (∀ mid p, s.tree.laterLookup? s.pool r change = some (mid, p) → mid.Live p) := by
  intro s r change x target
  have good : s.Good := (SharedTree.good_begin pooling before now signature).run room
  have gone : ∀ e, (s.tree.edit s.pool r change).1 = .refused e → s.tree.get? x = none := by
    intro e refused
    cases live : s.tree.get? x with
    | none => rfl
    | some n =>
      exact absurd refused (CallTree.edit_accepted good.tree room good.pool target ⟨n, live⟩ e)
  refine ⟨⟨fun ⟨e, refused⟩ => gone e refused, ?_⟩, ?_, ?_⟩
  · intro stale
    exact ⟨.staleNode x, by rw [CallTree.edit_stale stale target]⟩
  · intro e refused
    have same := CallTree.edit_stale (gone e refused) target s.pool r
    rw [same] at refused
    refine ⟨(EditAnswer.refused.inj refused).symm, ?_⟩
    simp only [SharedTree.step, same]
  · intro mid p look
    exact CallTree.laterLookup_finds good.tree room look

/-- All kinds of edits that go through a handle. -/
def editsThrough (x : NodeRef) : List TreeEdit :=
  [.openChild x "late", .close x (some "late") 7, .addIoCall x "late" 3, .setSignature x "late"]

/-- A call was pruned with the leaf below it, and another one has come into the slot of the leaf. The
handles of the two that are gone are refused, and the new one is not. -/
theorem failed_edits_after_pruning :
    let s := (SharedTree.begin true [] 0 "job").run (prunedHistory.take 6)
    s.tree.slots.size < 2 ^ 32 ∧
    (∀ x ∈ [⟨1, 0⟩, ⟨2, 0⟩], ∀ change ∈ editsThrough x,
      (∃ e, (s.tree.edit s.pool 40 change).1 = .refused e) ∧ s.step (.edit 40 change) = s) ∧
    ∀ change ∈ editsThrough ⟨2, 1⟩, ¬ ∃ e, (s.tree.edit s.pool 40 change).1 = .refused e := by
  intro s
  have room : s.tree.slots.size < 2 ^ 32 := by decide +kernel
  have gone : ∀ x ∈ [⟨1, 0⟩, ⟨2, 0⟩], s.tree.get? x = none := by decide +kernel
  have live : (s.tree.get? ⟨2, 1⟩).isSome := by decide +kernel
  have through : ∀ x, ∀ change ∈ editsThrough x, change.target? = some x := by
    intro x change mem
    simp only [editsThrough, List.mem_cons, List.not_mem_nil, or_false] at mem
    rcases mem with rfl | rfl | rfl | rfl <;> rfl
  have claim := failed_edits_change_nothing true [] 0 "job" (prunedHistory.take 6) room 40
  refine ⟨room, ?_, ?_⟩
  · intro x stale change mem
    rcases claim change x (through x change mem) with ⟨iff, whole, -⟩
    rcases iff.mpr (gone x stale) with ⟨e, refused⟩
    exact ⟨⟨e, refused⟩, (whole e refused).2⟩
  · intro change mem refused
    have missing := (claim change ⟨2, 1⟩ (through _ change mem)).1.mp refused
    rw [missing] at live
    exact absurd live (by simp)

end CallProfiler
