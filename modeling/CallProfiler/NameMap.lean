/-!
# NameMap: values by name, in the order of the names

A map from names to values that lists its entries by ascending name, whatever the order in which
they were put in. Two maps with the same values are therefore equal.
-/

namespace CallProfiler

/-- Entries by ascending name, each name at most once. -/
structure NameMap (α : Type) where
  entries : List (String × α) := []
  deriving DecidableEq, Repr

namespace NameMap

variable {α : Type}

/-- The map without entries. -/
def empty : NameMap α := {}

/-- The value of a name among some entries. -/
def lookup (name : String) : List (String × α) → Option α
  | [] => none
  | (key, value) :: rest => if key = name then some value else lookup name rest

/-- The value of a name. -/
def get? (m : NameMap α) (name : String) : Option α := lookup name m.entries

/-- Changes the value of a name among ordered entries, or puts a new entry in its place. -/
def alterEntries (name : String) (f : Option α → α) : List (String × α) → List (String × α)
  | [] => [(name, f none)]
  | (key, value) :: rest =>
    if key = name then (key, f (some value)) :: rest
    else if name < key then (name, f none) :: (key, value) :: rest
    else (key, value) :: alterEntries name f rest

/-- Gives a name the value that `f` makes of its present value. -/
def alter (m : NameMap α) (name : String) (f : Option α → α) : NameMap α :=
  ⟨alterEntries name f m.entries⟩

/-- The names in their order. -/
def names (m : NameMap α) : List String := m.entries.map (·.1)

/-- A name below all keys has no value. -/
theorem lookup_eq_none_of_lt {name : String} {entries : List (String × α)}
    (below : ∀ key ∈ entries.map (·.1), name < key) : lookup name entries = none := by
  induction entries with
  | nil => rfl
  | cons entry rest ih =>
    simp only [List.map_cons, List.mem_cons, forall_eq_or_imp] at below
    have : entry.1 ≠ name := fun same => String.lt_irrefl name (same ▸ below.1)
    simp only [lookup, this, if_false]
    exact ih below.2

/-- Altering a name changes its own value and no other. -/
theorem lookup_alterEntries (name other : String) (f : Option α → α)
    {entries : List (String × α)} (ordered : (entries.map (·.1)).Pairwise (· < ·)) :
    lookup other (alterEntries name f entries) =
      if other = name then some (f (lookup name entries)) else lookup other entries := by
  induction entries with
  | nil => simp [alterEntries, lookup, eq_comm]
  | cons entry rest ih =>
    simp only [List.map_cons, List.pairwise_cons] at ordered
    have ih := ih ordered.2
    simp only [alterEntries]
    split
    · next same =>
      subst same
      by_cases own : other = entry.1
      · simp [lookup, own]
      · simp [lookup, own, Ne.symm own]
    · next different =>
      split
      · next before =>
        have absent : lookup name rest = none :=
          lookup_eq_none_of_lt fun key mem => String.lt_trans before (ordered.1 key mem)
        simp only [lookup, different, if_false, absent]
        by_cases same : other = name
        · simp [same]
        · simp [same, Ne.symm same]
      · simp only [lookup, different, if_false, ih]
        split
        · next same => subst same; simp [different]
        · rfl

/-- The names stay in order. -/
theorem ordered_alterEntries (name : String) (f : Option α → α) {entries : List (String × α)}
    (ordered : (entries.map (·.1)).Pairwise (· < ·)) :
    ((alterEntries name f entries).map (·.1)).Pairwise (· < ·) := by
  induction entries with
  | nil => simp [alterEntries]
  | cons entry rest ih =>
    simp only [List.map_cons, List.pairwise_cons] at ordered
    simp only [alterEntries]
    split
    · simpa using ordered
    · next different =>
      split
      · next before =>
        simp only [List.map_cons, List.pairwise_cons, List.mem_cons, forall_eq_or_imp]
        exact ⟨⟨before, fun key mem => String.lt_trans before (ordered.1 key mem)⟩, ordered⟩
      · next notBefore =>
        simp only [List.map_cons, List.pairwise_cons]
        refine ⟨fun key mem => ?_, ih ordered.2⟩
        have above : entry.1 < name :=
          Std.lt_of_le_of_ne (String.not_lt.mp notBefore) different
        have : key = name ∨ key ∈ rest.map (·.1) := by
          clear ih ordered
          induction rest with
          | nil => simpa [alterEntries] using mem
          | cons next rest ih =>
            simp only [alterEntries] at mem
            split at mem
            · simpa using Or.inr mem
            · split at mem
              · simpa using mem
              · simp only [List.map_cons, List.mem_cons] at mem ⊢
                rcases mem with h | h
                · exact Or.inr (Or.inl h)
                · rcases ih h with h | h
                  · exact Or.inl h
                  · exact Or.inr (Or.inr h)
        rcases this with h | h
        · exact h ▸ above
        · exact ordered.1 key h

end NameMap

end CallProfiler
