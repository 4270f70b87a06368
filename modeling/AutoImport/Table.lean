/-!
# Tables in order of first insertion

Objects, dependency groups and all caches are finite maps.  A `Table` is such a map as the list of
its entries: a new key goes to the end, a known key keeps its place and gets the new value.  Two
tables with the same entries are equal, so "the cache is left as it was" is an equation.
-/

set_option autoImplicit false

namespace AutoImport

/-- A finite map as the list of its entries, in order of first insertion. -/
structure Table (κ α : Type) where
  entries : List (κ × α) := []
  deriving Repr, DecidableEq, Inhabited

namespace Table

variable {κ α : Type} [DecidableEq κ]

/-- The table without entries. -/
def empty : Table κ α := {}

/-- The value stored under the key in a list of entries. -/
def lookupIn (key : κ) : List (κ × α) → Option α
  | [] => none
  | (k, a) :: rest => if k = key then some a else lookupIn key rest

/-- The entries after storing a value: in the place of its key, or at the end. -/
def insertIn (key : κ) (value : α) : List (κ × α) → List (κ × α)
  | [] => [(key, value)]
  | (k, a) :: rest => if k = key then (k, value) :: rest else (k, a) :: insertIn key value rest

/-- The value stored under a key. -/
def get? (table : Table κ α) (key : κ) : Option α :=
  lookupIn key table.entries

/-- Whether a key has a value. -/
def contains (table : Table κ α) (key : κ) : Bool :=
  (table.get? key).isSome

/-- The table with a value stored under a key. -/
def insert (table : Table κ α) (key : κ) (value : α) : Table κ α :=
  ⟨insertIn key value table.entries⟩

/-- The table without a key. -/
def erase (table : Table κ α) (key : κ) : Table κ α :=
  ⟨table.entries.filter fun entry => entry.1 ≠ key⟩

/-- The table that the pairs leave when they are stored one after the other. -/
def ofList (pairs : List (κ × α)) : Table κ α :=
  pairs.foldl (fun table (key, value) => table.insert key value) empty

/-- The keys in order of first insertion. -/
def keys (table : Table κ α) : List κ :=
  table.entries.map Prod.fst

/-- The values in the order of their keys. -/
def values (table : Table κ α) : List α :=
  table.entries.map Prod.snd

/-- Number of keys. -/
def size (table : Table κ α) : Nat :=
  table.entries.length

/-- Whether the table has no entry. -/
def isEmpty (table : Table κ α) : Bool :=
  table.entries.isEmpty

/-- The table with the value under a key replaced by its image. -/
def modify (table : Table κ α) (key : κ) (f : α → α) : Table κ α :=
  ⟨table.entries.map fun entry => if entry.1 = key then (entry.1, f entry.2) else entry⟩

/-- The table with every value replaced by its image. -/
def mapValues (table : Table κ α) (f : α → α) : Table κ α :=
  ⟨table.entries.map fun entry => (entry.1, f entry.2)⟩

/-- An empty table has nothing under any key. -/
theorem get?_empty (key : κ) : (empty : Table κ α).get? key = none := rfl

/-- After an insertion the key has the new value, and the others have what they had. -/
theorem lookupIn_insertIn (key other : κ) (value : α) (entries : List (κ × α)) :
    lookupIn other (insertIn key value entries) =
      if key = other then some value else lookupIn other entries := by
  induction entries with
  | nil => simp [insertIn, lookupIn]
  | cons entry rest ih =>
    obtain ⟨k, a⟩ := entry
    by_cases hk : k = key
    · subst hk
      by_cases ho : k = other <;> simp [insertIn, lookupIn, ho]
    · by_cases ho : k = other
      · subst ho
        simp [insertIn, lookupIn, hk, Ne.symm hk]
      · simp [insertIn, lookupIn, hk, ho, ih]

/-- Storing a value changes the answer for its key only. -/
theorem get?_insert (table : Table κ α) (key other : κ) (value : α) :
    (table.insert key value).get? other = if key = other then some value else table.get? other :=
  lookupIn_insertIn key other value table.entries

/-- After an erasure the key has no value, and the others have what they had. -/
theorem lookupIn_filter (key other : κ) (entries : List (κ × α)) :
    lookupIn other (entries.filter fun entry => entry.1 ≠ key) =
      if key = other then none else lookupIn other entries := by
  induction entries with
  | nil => simp [lookupIn]
  | cons entry rest ih =>
    obtain ⟨k, a⟩ := entry
    by_cases hk : k = key
    · subst hk
      by_cases ho : k = other <;> simp_all [lookupIn]
    · by_cases ho : k = other
      · subst ho
        simp [lookupIn, hk, Ne.symm hk]
      · simp_all [lookupIn]

/-- Removing a key changes the answer for that key only. -/
theorem get?_erase (table : Table κ α) (key other : κ) :
    (table.erase key).get? other = if key = other then none else table.get? other :=
  lookupIn_filter key other table.entries

/-- Replacing the value under a key changes the answer for that key only. -/
theorem get?_modify (table : Table κ α) (key other : κ) (f : α → α) :
    (table.modify key f).get? other =
      if key = other then (table.get? other).map f else table.get? other := by
  obtain ⟨entries⟩ := table
  show lookupIn other
      (entries.map fun entry => if entry.1 = key then (entry.1, f entry.2) else entry)
    = if key = other then (lookupIn other entries).map f else lookupIn other entries
  induction entries with
  | nil => simp [lookupIn]
  | cons entry rest ih =>
    obtain ⟨k, a⟩ := entry
    by_cases hk : k = key
    · subst hk
      by_cases ho : k = other <;> simp_all [lookupIn]
    · by_cases ho : k = other
      · subst ho
        simp [lookupIn, hk, Ne.symm hk]
      · simp_all [lookupIn]

/-- Replacing all values replaces every answer. -/
theorem get?_mapValues (table : Table κ α) (key : κ) (f : α → α) :
    (table.mapValues f).get? key = (table.get? key).map f := by
  obtain ⟨entries⟩ := table
  show lookupIn key (entries.map fun entry => (entry.1, f entry.2)) =
    (lookupIn key entries).map f
  induction entries with
  | nil => rfl
  | cons entry rest ih =>
    obtain ⟨k, a⟩ := entry
    by_cases hk : k = key
    · simp [lookupIn, hk]
    · simp [lookupIn, hk, ih]

end Table

/-- The list with an element at its end, unless it is there already. -/
def insertNew {α : Type} [DecidableEq α] (xs : List α) (x : α) : List α :=
  if x ∈ xs then xs else xs ++ [x]

/-- After an insertion a list has the new element and what it had. -/
theorem mem_insertNew {α : Type} [DecidableEq α] (xs : List α) (x y : α) :
    y ∈ insertNew xs x ↔ y ∈ xs ∨ y = x := by
  unfold insertNew
  split
  · constructor
    · exact Or.inl
    · rintro (h | rfl) <;> assumption
  · simp

/-- Inserting an element keeps a list free of repetitions. -/
theorem nodup_insertNew {α : Type} [DecidableEq α] {xs : List α} (h : xs.Nodup) (x : α) :
    (insertNew xs x).Nodup := by
  unfold insertNew
  split
  · exact h
  · rename_i hx
    refine List.nodup_append.2 ⟨h, by simp, ?_⟩
    intro a ha b hb e
    have hb : b = x := by simpa using hb
    exact hx (hb ▸ e ▸ ha)

namespace Table

variable {κ α : Type} [DecidableEq κ]

/-- Inserting in a table puts the key behind the others, unless it is there. -/
theorem keys_insert (table : Table κ α) (key : κ) (value : α) :
    (table.insert key value).keys = insertNew table.keys key := by
  obtain ⟨entries⟩ := table
  show (insertIn key value entries).map Prod.fst = insertNew (entries.map Prod.fst) key
  induction entries with
  | nil => simp [insertIn, insertNew]
  | cons entry rest ih =>
    obtain ⟨stored, old⟩ := entry
    by_cases hkey : stored = key
    · simp [insertIn, insertNew, hkey]
    · have hmem : key ∈ stored :: rest.map Prod.fst ↔ key ∈ rest.map Prod.fst := by
        simp [Ne.symm hkey]
      simp only [insertIn, hkey, if_false, List.map_cons, ih, insertNew, hmem]
      split <;> simp

/-- Inserting in a table repeats no key. -/
theorem nodup_keys_insert {table : Table κ α} (h : table.keys.Nodup) (key : κ) (value : α) :
    (table.insert key value).keys.Nodup := by
  rw [keys_insert]
  exact nodup_insertNew h key

/-- Where every key is stored once, the entries are what is found. -/
theorem mem_entries_iff {table : Table κ α} (h : table.keys.Nodup) {key : κ} {value : α} :
    (key, value) ∈ table.entries ↔ table.get? key = some value := by
  obtain ⟨entries⟩ := table
  change (entries.map Prod.fst).Nodup at h
  show (key, value) ∈ entries ↔ lookupIn key entries = some value
  induction entries with
  | nil => simp [lookupIn]
  | cons entry rest ih =>
    obtain ⟨stored, first⟩ := entry
    rw [List.map_cons, List.nodup_cons] at h
    obtain ⟨hstored, hrest⟩ := h
    rw [List.mem_cons, lookupIn]
    by_cases hkey : stored = key
    · subst hkey
      have hnot : (stored, value) ∉ rest := fun hmem =>
        hstored (List.mem_map.2 ⟨_, hmem, rfl⟩)
      simp [hnot, eq_comm]
    · simp [hkey, Ne.symm hkey, ih hrest]

/-- A table contains exactly its keys. -/
theorem contains_iff_mem_keys (table : Table κ α) (key : κ) :
    table.contains key = true ↔ key ∈ table.keys := by
  obtain ⟨entries⟩ := table
  show (lookupIn key entries).isSome = true ↔ key ∈ entries.map Prod.fst
  induction entries with
  | nil => simp [lookupIn]
  | cons entry rest ih =>
    obtain ⟨stored, value⟩ := entry
    by_cases hkey : stored = key
    · simp [lookupIn, hkey]
    · simp [lookupIn, hkey, Ne.symm hkey, ih]

end Table

end AutoImport
