import CallProfiler.Tree.Trim
import Mathlib.Algebra.Order.Ring.Nat
import Mathlib.Data.List.Nodup
import Mathlib.Data.UInt

/-!
# Proofs.Tree.Slots: what the primitive moves do to slots

A tree is changed by three primitive moves: `update` changes a node in place, `insert` fills a slot,
and `vacate` empties one. Each is described here twice, by what it does to look-ups (`get?_update`,
`Filled.get?`, `get?_vacate`) and by what it does to the slots (`Thinned`, `Filled`). Everything that
follows uses these descriptions and not the slots themselves.

`Slotted` is the invariant of the slots alone: the vacant list holds each empty slot exactly once.
-/

namespace CallProfiler

namespace NodePool

/-- Every node that waits for use carries no data. -/
def AllBlank (pool : NodePool) : Prop := ∀ n ∈ pool.free, n = .blank

variable {pool : NodePool}

/-- A blank pool hands out blank nodes, whether they are reused or new. -/
theorem AllBlank.acquire_fst (blank : pool.AllBlank) : pool.acquire.1 = .blank := by
  rcases pool with ⟨enabled, free, allocated, reused⟩
  cases enabled <;> cases free with
  | nil => rfl
  | cons n free => first | rfl | exact blank n (List.mem_cons_self ..)

theorem AllBlank.acquire_snd (blank : pool.AllBlank) : pool.acquire.2.AllBlank := by
  rcases pool with ⟨enabled, free, allocated, reused⟩
  cases enabled <;> cases free with
  | nil => exact blank
  | cons n free => first | exact blank | exact fun m hm => blank m (List.mem_cons_of_mem _ hm)

/-- A node is reset as it comes back, so the pool stays blank whatever the node holds. -/
theorem AllBlank.release (blank : pool.AllBlank) (n : CallNode) : (pool.release n).AllBlank := by
  unfold NodePool.release
  split
  · intro m hm
    rcases List.mem_cons.mp hm with rfl | hm
    · exact CallNode.reset_eq_blank n
    · exact blank m hm
  · exact blank

end NodePool

/-- Handles are compared by the number of their slot, which is what look-ups go by. -/
theorem NodeRef.eq_of_index_eq {h x : NodeRef} (hi : x.index.toNat = h.index.toNat)
    (hg : x.generation = h.generation) : x = h := by
  cases h
  cases x
  simp_all [UInt32.toNat_inj]

namespace CallTree

/-- A handle whose node is in the tree. -/
def Live (t : CallTree) (h : NodeRef) : Prop := ∃ n, t.get? h = some n

/-- The invariant of the slots: every slot can be named by a handle, and the vacant list holds each
empty slot exactly once. -/
structure Slotted (t : CallTree) : Prop where
  capacity : t.slots.size ≤ 2 ^ 32
  vacant_nodup : t.vacant.Nodup
  mem_vacant : ∀ i : UInt32, i ∈ t.vacant ↔ ∃ g, t.slots[i.toNat]? = some ⟨g, none⟩

/-- The number of a slot is the index of its handles. -/
theorem Slotted.toNat_index {t : CallTree} (ok : t.Slotted) {i : Nat} (bound : i < t.slots.size) :
    (UInt32.ofNat i).toNat = i :=
  UInt32.toNat_ofNat_of_lt' (Nat.lt_of_lt_of_le bound ok.capacity)

/-! ## The nodes of a tree, slot by slot -/

/-- The handle of the node in a slot. -/
def occupant? (t : CallTree) (i : Nat) : Option NodeRef :=
  match t.slots[i]? with
  | some ⟨generation, some _⟩ => some ⟨UInt32.ofNat i, generation⟩
  | _ => none

/-- The handles of all nodes, slot by slot. -/
def liveHandles (t : CallTree) : List NodeRef := (List.range t.slots.size).filterMap t.occupant?

theorem occupant?_eq_some_iff {t : CallTree} (ok : t.Slotted) {i : Nat} {h : NodeRef} :
    t.occupant? i = some h ↔ h.index.toNat = i ∧ t.Live h := by
  unfold occupant? Live
  simp only [get?_eq_some_iff]
  constructor
  · intro occupied
    split at occupied
    · rename_i g n hs
      cases Option.some.inj occupied
      have bound := (Array.getElem?_eq_some_iff.mp hs).1
      have index := ok.toNat_index bound
      exact ⟨index, n, by rw [index, hs]⟩
    · exact absurd occupied (by simp)
  · rintro ⟨rfl, n, hn⟩
    rw [hn]
    simp

/-- Every node has its handle in the list, in trees of any shape. -/
theorem mem_liveHandles_of_live {t : CallTree} {h : NodeRef} (live : t.Live h) :
    h ∈ t.liveHandles := by
  rcases live with ⟨n, hn⟩
  have inSlot := get?_eq_some_iff.mp hn
  have bound := (Array.getElem?_eq_some_iff.mp inSlot).1
  refine List.mem_filterMap.mpr ⟨h.index.toNat, List.mem_range.mpr bound, ?_⟩
  simp [occupant?, inSlot]

/-- The live handles are those under which a node is found, if the slots can be numbered. -/
theorem mem_liveHandles {t : CallTree} (ok : t.Slotted) {h : NodeRef} :
    h ∈ t.liveHandles ↔ t.Live h := by
  constructor
  · intro mem
    rcases List.mem_filterMap.mp mem with ⟨i, _, occupied⟩
    exact ((occupant?_eq_some_iff ok).mp occupied).2
  · exact mem_liveHandles_of_live

theorem nodup_liveHandles {t : CallTree} (ok : t.Slotted) : t.liveHandles.Nodup := by
  refine List.Nodup.filterMap ?_ List.nodup_range
  intro i j h hi hj
  have hi := (occupant?_eq_some_iff ok).mp hi
  have hj := (occupant?_eq_some_iff ok).mp hj
  exact hi.1.symm.trans hj.1

/-- A slot holds a node or is vacant. -/
theorem length_liveHandles {t : CallTree} (ok : t.Slotted) :
    t.liveHandles.length + t.vacant.length = t.slots.size := by
  have vacant : (t.vacant.map UInt32.toNat).Perm
      ((List.range t.slots.size).filter fun i => !(t.occupant? i).isSome) := by
    refine (List.perm_ext_iff_of_nodup ?_ (List.nodup_range.filter _)).mpr ?_
    · exact ok.vacant_nodup.map fun i j hij => UInt32.toNat_inj.mp hij
    · intro i
      simp only [List.mem_map, List.mem_filter, List.mem_range]
      constructor
      · rintro ⟨j, hj, rfl⟩
        rcases (ok.mem_vacant j).mp hj with ⟨g, hg⟩
        exact ⟨(Array.getElem?_eq_some_iff.mp hg).1, by simp [occupant?, hg]⟩
      · rintro ⟨bound, empty⟩
        have index := ok.toNat_index bound
        refine ⟨UInt32.ofNat i, (ok.mem_vacant _).mpr ?_, index⟩
        rw [index]
        obtain ⟨⟨g, c⟩, hs⟩ : ∃ s, t.slots[i]? = some s := ⟨_, Array.getElem?_eq_getElem bound⟩
        cases c with
        | none => exact ⟨g, hs⟩
        | some n => simp [occupant?, hs] at empty
  -- the slots with a node and those without one are all slots
  have split := List.length_eq_countP_add_countP (l := List.range t.slots.size)
    (fun i => (t.occupant? i).isSome)
  rw [List.length_range] at split
  have free := vacant.length_eq
  rw [List.length_map, ← List.countP_eq_length_filter] at free
  have full : t.liveHandles.length =
      (List.range t.slots.size).countP fun i => (t.occupant? i).isSome :=
    List.length_filterMap_eq_countP
  simp only [Bool.not_eq_true, Bool.decide_eq_false] at split
  omega

/-! ## Moves that fill no slot -/

/-- One tree comes from another by changes of nodes and by removals: every slot keeps its generation
and stays as full as it was, or was full and has been emptied for its next generation. -/
structure Thinned (t t' : CallTree) : Prop where
  root : t'.root = t.root
  size : t'.slots.size = t.slots.size
  slotted : t.Slotted → t'.Slotted
  slot : ∀ {i : Nat} {s : Slot}, t.slots[i]? = some s → ∃ s', t'.slots[i]? = some s' ∧
    (s'.generation = s.generation ∧ s'.node.isSome = s.node.isSome ∨
      s.node.isSome ∧ s' = ⟨s.generation + 1, none⟩)

theorem Thinned.refl (t : CallTree) : Thinned t t where
  root := rfl
  size := rfl
  slotted := id
  slot := fun hs => ⟨_, hs, Or.inl ⟨rfl, rfl⟩⟩

/-- Thinnings compose, so a run of removals and updates is one thinning. -/
theorem Thinned.trans {t t' t'' : CallTree} (h : Thinned t t') (h' : Thinned t' t'') :
    Thinned t t'' where
  root := h'.root.trans h.root
  size := h'.size.trans h.size
  slotted := fun ok => h'.slotted (h.slotted ok)
  slot := by
    intro i s hs
    rcases h.slot hs with ⟨s', hs', kept | ⟨full, rfl⟩⟩
    · rcases h'.slot hs' with ⟨s'', hs'', kept' | ⟨full', rfl⟩⟩
      · exact ⟨s'', hs'', Or.inl ⟨kept'.1.trans kept.1, kept'.2.trans kept.2⟩⟩
      · exact ⟨_, hs'', Or.inr ⟨kept.2 ▸ full', by rw [kept.1]⟩⟩
    · -- a slot that has been emptied stays as it is
      rcases h'.slot hs' with ⟨s'', hs'', kept' | ⟨full', -⟩⟩
      · refine ⟨s'', hs'', Or.inr ⟨full, ?_⟩⟩
        rcases s'' with ⟨g, c⟩
        cases c with
        | none => simpa using kept'.1
        | some n => simp at kept'
      · simp at full'

/-- What is gone stays gone while nothing comes into the slots. -/
theorem Thinned.gone {t t' : CallTree} {x : NodeRef} (thin : Thinned t t')
    (gone : t.get? x = none) : t'.get? x = none := by
  unfold get? at gone ⊢
  cases slot : t.slots[x.index.toNat]? with
  | none =>
    rw [Array.getElem?_eq_none (by rw [thin.size]; exact Array.getElem?_eq_none_iff.mp slot)]
  | some s =>
    rw [slot] at gone
    rcases thin.slot slot with ⟨s', slot', ⟨generation, filled⟩ | ⟨-, emptied⟩⟩
    · rw [slot']
      dsimp only at gone ⊢
      rw [generation]
      split at gone
      · rename_i same
        rw [gone] at filled
        rw [if_pos same]
        simpa using filled
      · rename_i other
        rw [if_neg other]
    · rw [slot', emptied]
      exact ite_self _

theorem slot_set {slots : Array Slot} {j : Nat} (bound : j < slots.size) (s : Slot) (i : Nat) :
    (slots.setIfInBounds j s)[i]? = if i = j then some s else slots[i]? := by
  rw [Array.getElem?_setIfInBounds]
  by_cases hi : i = j
  · simp [hi, bound]
  · have hi' : j ≠ i := fun h => hi h.symm
    simp [hi, hi']

/-- A look-up after an update finds the changed node under its own handle and all else as it was. -/
theorem get?_update (t : CallTree) (h x : NodeRef) (f : CallNode → CallNode) :
    (t.update h f).get? x = if x = h then (t.get? h).map f else t.get? x := by
  unfold update
  cases live : t.get? h with
  | none =>
    by_cases same : x = h
    · simp [same, live]
    · simp [same]
  | some n =>
    have inSlot := get?_eq_some_iff.mp live
    have bound := (Array.getElem?_eq_some_iff.mp inSlot).1
    simp only [get?, slot_set bound]
    -- another handle of the same slot has another generation, and finds nothing there
    by_cases index : x.index.toNat = h.index.toNat
    · by_cases same : x = h
      · simp [same]
      · have other : h.generation ≠ x.generation :=
          fun hg => same (NodeRef.eq_of_index_eq index hg.symm)
        simp [index, inSlot, other, same]
    · have same : x ≠ h := fun hx => index (by rw [hx])
      simp [index, same]

/-- An update neither adds nor removes nodes. -/
theorem live_update {t : CallTree} {h x : NodeRef} {f : CallNode → CallNode} :
    (t.update x f).Live h ↔ t.Live h := by
  unfold Live
  rw [get?_update]
  by_cases here : h = x
  · rw [if_pos here, ← here]
    simp
  · rw [if_neg here]

/-- A node that is rewritten twice is rewritten once. -/
theorem update_update (t : CallTree) (h : NodeRef) (f g : CallNode → CallNode) :
    (t.update h f).update h g = t.update h fun n => g (f n) := by
  have again := get?_update t h h f
  rw [if_pos rfl] at again
  unfold update at again ⊢
  cases live : t.get? h with
  | none => simp only [live]
  | some n =>
    simp only [live, Option.map_some] at again ⊢
    simp only [again, Array.setIfInBounds_setIfInBounds]

/-- A node that is rewritten as it is leaves the tree as it is. -/
theorem update_eq_self {t : CallTree} {h : NodeRef} {f : CallNode → CallNode}
    (same : ∀ n, t.get? h = some n → f n = n) : t.update h f = t := by
  unfold update
  cases live : t.get? h with
  | none => rfl
  | some n =>
    have inSlot := get?_eq_some_iff.mp live
    have slots : t.slots.setIfInBounds h.index.toNat ⟨h.generation, some (f n)⟩ = t.slots := by
      apply Array.ext_getElem?
      intro i
      rw [slot_set (Array.getElem?_eq_some_iff.mp inSlot).1]
      split
      · rename_i here
        rw [here, inSlot, same n live]
      · rfl
    simp only [slots]

theorem vacant_update (t : CallTree) (h : NodeRef) (f : CallNode → CallNode) :
    (t.update h f).vacant = t.vacant := by
  unfold update
  split <;> rfl

/-- A node that is rewritten stays in its slot. -/
theorem slot_update (t : CallTree) (h : NodeRef) (f : CallNode → CallNode) {i : Nat} {s : Slot}
    (hs : t.slots[i]? = some s) : ∃ s', (t.update h f).slots[i]? = some s' ∧
      s'.generation = s.generation ∧ s'.node.isSome = s.node.isSome := by
  unfold update
  cases live : t.get? h with
  | none => exact ⟨s, hs, rfl, rfl⟩
  | some n =>
    have inSlot := get?_eq_some_iff.mp live
    have bound := (Array.getElem?_eq_some_iff.mp inSlot).1
    by_cases index : i = h.index.toNat
    · rw [index, inSlot] at hs
      cases Option.some.inj hs
      exact ⟨⟨h.generation, some (f n)⟩, by rw [slot_set bound, if_pos index], rfl, rfl⟩
    · exact ⟨s, by rw [slot_set bound, if_neg index, hs], rfl, rfl⟩

/-- An update leaves the slots, their generations and the vacant list alone. -/
theorem thinned_update (t : CallTree) (h : NodeRef) (f : CallNode → CallNode) :
    Thinned t (t.update h f) := by
  have size : (t.update h f).slots.size = t.slots.size := by
    unfold update
    split
    · exact Array.size_setIfInBounds
    · rfl
  refine ⟨?_, size, ?_, ?_⟩
  · unfold update
    split <;> rfl
  · intro ok
    refine ⟨size ▸ ok.capacity, vacant_update t h f ▸ ok.vacant_nodup, ?_⟩
    intro i
    rw [vacant_update, ok.mem_vacant i]
    constructor
    · rintro ⟨g, hg⟩
      rcases slot_update t h f hg with ⟨⟨g', c⟩, hs, -, empty⟩
      cases c with
      | none => exact ⟨g', hs⟩
      | some n => simp at empty
    · rintro ⟨g, hg⟩
      have bound := (Array.getElem?_eq_some_iff.mp hg).1
      rw [size] at bound
      rcases slot_update t h f (Array.getElem?_eq_getElem bound) with ⟨s', hs', -, empty⟩
      cases Option.mem_unique hg hs'
      refine ⟨t.slots[i.toNat].generation, ?_⟩
      rw [Array.getElem?_eq_getElem bound]
      cases hs : t.slots[i.toNat] with
      | mk g' c =>
        cases c with
        | none => rfl
        | some n => simp [hs] at empty
  · intro i s hs
    rcases slot_update t h f hs with ⟨s', hs', generation, occupied⟩
    exact ⟨s', hs', Or.inl ⟨generation, occupied⟩⟩

/-- An emptied slot answers to no handle, and all other nodes are found as before. -/
theorem get?_vacate {t : CallTree} {h : NodeRef} (live : t.Live h) (x : NodeRef) :
    (t.vacate h).get? x = if x = h then none else t.get? x := by
  rcases live with ⟨n, live⟩
  have inSlot := get?_eq_some_iff.mp live
  have bound := (Array.getElem?_eq_some_iff.mp inSlot).1
  simp only [vacate, get?, slot_set bound]
  by_cases index : x.index.toNat = h.index.toNat
  · by_cases same : x = h
    · simp [same]
    · have other : h.generation ≠ x.generation :=
        fun hg => same (NodeRef.eq_of_index_eq index hg.symm)
      simp [index, inSlot, other, same]
  · have same : x ≠ h := fun hx => index (by rw [hx])
    simp [index, same]

theorem thinned_vacate {t : CallTree} {h : NodeRef} (live : t.Live h) : Thinned t (t.vacate h) := by
  rcases live with ⟨n, live⟩
  have inSlot := get?_eq_some_iff.mp live
  have bound := (Array.getElem?_eq_some_iff.mp inSlot).1
  have slotAt : ∀ i : Nat, (t.vacate h).slots[i]? =
      if i = h.index.toNat then some ⟨h.generation + 1, none⟩ else t.slots[i]? :=
    slot_set bound _
  refine ⟨rfl, by simp [vacate], ?_, ?_⟩
  · intro ok
    have fresh : h.index ∉ t.vacant := by
      rw [ok.mem_vacant, inSlot]
      simp
    refine ⟨by simpa [vacate] using ok.capacity, List.nodup_cons.mpr ⟨fresh, ok.vacant_nodup⟩, ?_⟩
    intro i
    show i ∈ h.index :: t.vacant ↔ _
    rw [List.mem_cons, ok.mem_vacant i]
    simp only [slotAt]
    by_cases index : i = h.index
    · simp [index]
    · simp [index, UInt32.toNat_inj]
  · intro i s hs
    by_cases index : i = h.index.toNat
    · rw [index, inSlot] at hs
      cases Option.some.inj hs
      exact ⟨_, by rw [slotAt, if_pos index], Or.inr ⟨rfl, rfl⟩⟩
    · exact ⟨s, by rw [slotAt, if_neg index, hs], Or.inl ⟨rfl, rfl⟩⟩

/-! ## Filling a slot -/

/-- One tree comes from another by putting a node under a fresh handle; no other slot is touched. -/
structure Filled (t t' : CallTree) (h : NodeRef) (n : CallNode) : Prop where
  root : t'.root = t.root
  fresh : t.get? h = none
  get? : ∀ x, t'.get? x = if x = h then some n else t.get? x
  slotted : t'.Slotted
  slot : ∀ {i : Nat} {s : Slot}, t.slots[i]? = some s → i ≠ h.index.toNat → t'.slots[i]? = some s
  /-- A slot that is filled again keeps its generation. -/
  reused : ∀ {s : Slot}, t.slots[h.index.toNat]? = some s → s = ⟨h.generation, none⟩
  /-- Slots are added one at a time, and only when none is vacant. -/
  size : t'.slots.size = t.slots.size ∧ t.vacant.length = t'.vacant.length + 1 ∨
    t.vacant = [] ∧ t'.vacant = [] ∧ t'.slots.size = t.slots.size + 1

/-- The slot that became vacant last is filled under its present generation. -/
theorem filled_vacant {t : CallTree} (ok : t.Slotted) {index : UInt32} {vacant : List UInt32}
    (free : t.vacant = index :: vacant) (n : CallNode) :
    Filled t (t.insert n).2 (t.insert n).1 n := by
  rcases (ok.mem_vacant index).mp (by simp [free]) with ⟨g, inSlot⟩
  have bound := (Array.getElem?_eq_some_iff.mp inSlot).1
  have distinct := List.nodup_cons.mp (free ▸ ok.vacant_nodup)
  have slotAt := slot_set bound ⟨g, some n⟩
  simp only [insert, free, inSlot, Option.map_some, Option.getD_some]
  refine ⟨rfl, by simp [get?, inSlot], ?_, ⟨by simpa using ok.capacity, distinct.2, ?_⟩, ?_, ?_,
    Or.inl ⟨by simp, by simp [free]⟩⟩
  · intro x
    simp only [get?, slotAt]
    by_cases hx : x.index.toNat = index.toNat
    · by_cases hg : g = x.generation
      · have new : x = ⟨index, g⟩ := NodeRef.eq_of_index_eq hx hg.symm
        simp [new]
      · have other : x ≠ ⟨index, g⟩ := fun e => hg (by rw [e])
        simp [hx, hg, other, inSlot]
    · have other : x ≠ ⟨index, g⟩ := fun e => hx (by rw [e])
      simp [hx, other]
  · intro i
    have old := ok.mem_vacant i
    rw [free, List.mem_cons] at old
    simp only [slotAt]
    by_cases hi : i = index
    · rw [hi]
      simp [distinct.1]
    · simpa [hi, UInt32.toNat_inj] using old
  · intro i s hs other
    simp only [slotAt, if_neg other, hs]
  · intro s hs
    exact Option.mem_unique hs inSlot

/-- A new slot comes after the others, and its number has to fit. -/
theorem filled_new {t : CallTree} (ok : t.Slotted) (room : t.slots.size < 2 ^ 32)
    (full : t.vacant = []) (n : CallNode) : Filled t (t.insert n).2 (t.insert n).1 n := by
  have index : (UInt32.ofNat t.slots.size).toNat = t.slots.size :=
    UInt32.toNat_ofNat_of_lt' room
  have slotAt : ∀ i : Nat, (t.slots.push ⟨0, some n⟩)[i]? =
      if i = t.slots.size then some ⟨0, some n⟩ else t.slots[i]? := by
    intro i
    rw [Array.getElem?_push]
  have beyond : t.slots[t.slots.size]? = none := by simp
  simp only [insert, full]
  refine ⟨rfl, by simp [get?, index], ?_, ⟨?_, by simp, ?_⟩, ?_, ?_,
    Or.inr ⟨full, by simp, Array.size_push _⟩⟩
  · intro x
    simp only [get?, slotAt]
    by_cases hx : x.index.toNat = t.slots.size
    · by_cases hg : 0 = x.generation
      · have new : x = ⟨UInt32.ofNat t.slots.size, 0⟩ :=
          NodeRef.eq_of_index_eq (hx.trans index.symm) hg.symm
        simp [new, index]
      · have other : x ≠ ⟨UInt32.ofNat t.slots.size, 0⟩ := fun e => hg (by rw [e])
        simp [hx, hg, other]
    · have other : x ≠ ⟨UInt32.ofNat t.slots.size, 0⟩ := fun e => hx (by rw [e]; exact index)
      simp [hx, other]
  · show (t.slots.push _).size ≤ _
    rw [Array.size_push]
    exact room
  · intro i
    have old := ok.mem_vacant i
    rw [full] at old
    simp only [slotAt]
    by_cases hi : i.toNat = t.slots.size
    · simp [hi]
    · simpa [hi] using old
  · intro i s hs other
    rw [index] at other
    simp only [slotAt, if_neg other, hs]
  · intro s hs
    rw [index, beyond] at hs
    exact absurd hs (by simp)

/-- A new node comes into a slot that was empty, or into a new one; nothing else changes. -/
theorem filled_insert {t : CallTree} (ok : t.Slotted) (room : t.slots.size < 2 ^ 32)
    (n : CallNode) : Filled t (t.insert n).2 (t.insert n).1 n := by
  cases free : t.vacant with
  | cons index vacant => exact filled_vacant ok free n
  | nil => exact filled_new ok room free n

end CallTree

end CallProfiler
