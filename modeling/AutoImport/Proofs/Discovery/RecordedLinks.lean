import AutoImport.Symlinks

/-!
# Links that are recorded twice

A run records the links through which it reaches packages, and takes in the resolutions of the
program before the first of them.  One link may be recorded several times with different real
directories, so a second run does change the table while it goes on.  In the end it has the table
again that it started with (`SymlinkTable.recordAll_recordAll`): the last record of a link wins in
both runs, the links are listed where they were first recorded, and no link becomes known a second
time.
-/

set_option autoImplicit false

namespace AutoImport

/-! ## Tables that are written twice -/

namespace Table

variable {κ α : Type} [DecidableEq κ]

/-- The entries after storing values one after the other. -/
def storeIn (pairs : List (κ × α)) (entries : List (κ × α)) : List (κ × α) :=
  pairs.foldl (fun entries pair => insertIn pair.1 pair.2 entries) entries

/-- The table after storing values one after the other. -/
def store (pairs : List (κ × α)) (table : Table κ α) : Table κ α :=
  pairs.foldl (fun table pair => table.insert pair.1 pair.2) table

/-- The value under a key after storing values, if it was there before. -/
def latest (key : κ) (value : α) (pairs : List (κ × α)) : α :=
  pairs.foldl (fun value pair => if key = pair.1 then pair.2 else value) value

/-- Storing pairs in a table stores them in its entries. -/
theorem entries_store (pairs : List (κ × α)) (table : Table κ α) :
    (table.store pairs).entries = storeIn pairs table.entries := by
  induction pairs generalizing table with
  | nil => rfl
  | cons pair rest ih => exact ih (table.insert pair.1 pair.2)

/-- An entry gets the latest value for its key, and the other values go to the entries behind it. -/
theorem storeIn_cons (key : κ) (value : α) (pairs entries : List (κ × α)) :
    storeIn pairs ((key, value) :: entries) =
      (key, latest key value pairs) ::
        storeIn (pairs.filter fun pair => key ≠ pair.1) entries := by
  induction pairs generalizing value entries with
  | nil => rfl
  | cons pair rest ih =>
    obtain ⟨stored, new⟩ := pair
    show storeIn rest (insertIn stored new ((key, value) :: entries)) = _
    by_cases hkey : key = stored
    · subst hkey
      have hhere : insertIn key new ((key, value) :: entries) = (key, new) :: entries := by
        simp [insertIn]
      rw [hhere, ih]
      simp [latest]
    · have hbehind : insertIn stored new ((key, value) :: entries) =
          (key, value) :: insertIn stored new entries := by
        simp [insertIn, hkey]
      rw [hbehind, ih]
      simp [latest, storeIn, hkey]

/-- Either there is a value for the key, and the old one does not matter, or there is none. -/
theorem latest_latest (key : κ) (value : α) (pairs : List (κ × α)) :
    latest key (latest key value pairs) pairs = latest key value pairs := by
  have hcases : (∀ first second, latest key first pairs = latest key second pairs) ∨
      ∀ first, latest key first pairs = first := by
    induction pairs with
    | nil => exact Or.inr fun _ => rfl
    | cons pair rest ih =>
      by_cases hkey : key = pair.1
      · left
        intro first second
        simp [latest, hkey]
      · simpa [latest, hkey] using ih
  rcases hcases with hsame | hkept
  · exact hsame _ _
  · rw [hkept, hkept]

/-- Storing the same values into entries that have them changes nothing.  From no entries, the first
pair makes the first entry, and fewer pairs are left for the entries behind it. -/
theorem storeIn_storeIn_nil (pairs : List (κ × α)) :
    storeIn pairs (storeIn pairs []) = storeIn pairs [] := by
  match pairs with
  | [] => rfl
  | (key, value) :: rest =>
    have hfirst : storeIn ((key, value) :: rest) ([] : List (κ × α)) =
        (key, latest key value rest) :: storeIn (rest.filter fun pair => key ≠ pair.1) [] :=
      storeIn_cons key value rest []
    have hothers : ((key, value) :: rest).filter (fun pair => key ≠ pair.1) =
        rest.filter fun pair => key ≠ pair.1 := List.filter_cons_of_neg (by simp)
    have hlatest : latest key (latest key value rest) ((key, value) :: rest) =
        latest key value rest := by simp [latest]
    rw [hfirst, storeIn_cons, hothers, hlatest,
      storeIn_storeIn_nil (rest.filter fun pair => key ≠ pair.1)]
termination_by pairs.length
decreasing_by exact Nat.lt_succ_of_le (List.length_filter_le _ _)

/-- Storing the same pairs a second time changes no entry. -/
theorem storeIn_storeIn (pairs entries : List (κ × α)) :
    storeIn pairs (storeIn pairs entries) = storeIn pairs entries := by
  induction entries generalizing pairs with
  | nil => exact storeIn_storeIn_nil pairs
  | cons entry rest ih =>
    obtain ⟨key, value⟩ := entry
    rw [storeIn_cons, storeIn_cons, latest_latest, ih]

/-- Storing the same pairs a second time leaves the table as it is. -/
theorem store_store (pairs : List (κ × α)) (table : Table κ α) :
    (table.store pairs).store pairs = table.store pairs := by
  have hentries : ((table.store pairs).store pairs).entries = (table.store pairs).entries := by
    rw [entries_store, entries_store, storeIn_storeIn]
  cases hfirst : table.store pairs
  cases hsecond : (table.store pairs).store pairs
  simp_all

/-- Storing pairs removes no key. -/
theorem contains_store_of_contains {table : Table κ α} {key : κ} (h : table.contains key = true)
    (pairs : List (κ × α)) : (table.store pairs).contains key = true := by
  induction pairs generalizing table with
  | nil => exact h
  | cons pair rest ih =>
    refine ih ?_
    unfold contains
    rw [get?_insert]
    split
    · rfl
    · exact h

/-- Every stored pair has its key in the table. -/
theorem contains_store_of_mem (table : Table κ α) {pairs : List (κ × α)} {pair : κ × α}
    (h : pair ∈ pairs) : (table.store pairs).contains pair.1 = true := by
  induction pairs generalizing table with
  | nil => exact absurd h (by simp)
  | cons first rest ih =>
    rcases List.mem_cons.1 h with rfl | h
    · refine contains_store_of_contains ?_ rest
      unfold contains
      rw [get?_insert, if_pos rfl]
      rfl
    · exact ih _ h

/-- Storing a value that is there changes nothing. -/
theorem insert_of_get? {table : Table κ α} {key : κ} {value : α}
    (h : table.get? key = some value) : table.insert key value = table := by
  obtain ⟨entries⟩ := table
  have hentries : insertIn key value entries = entries := by
    induction entries with
    | nil => exact absurd h (by simp [get?, lookupIn])
    | cons entry rest ih =>
      obtain ⟨stored, old⟩ := entry
      by_cases hkey : stored = key
      · simp_all [get?, lookupIn, insertIn]
      · simp_all [get?, lookupIn, insertIn]
  exact congrArg Table.mk hentries

end Table

/-! ## Links -/

namespace SymlinkTable

variable {table : SymlinkTable}

/-- A directory that is a link, with the real one. -/
abbrev Link := String × RealDirectory

/-- Records links, the resolutions of the program before the first of them. -/
def recordAll (resolutions : Option (List ResolvedModule)) (links : List Link)
    (table : SymlinkTable) : SymlinkTable :=
  links.foldl (fun table link => (table.seedOnce resolutions).setDirectory link.1 link.2) table

/-- Nothing is left to be taken in before links are recorded. -/
def IsReady (resolutions : Option (List ResolvedModule)) (table : SymlinkTable) : Prop :=
  resolutions.isSome = true → table.isSeeded = true

/-- A ready table is not seeded again. -/
theorem seedOnce_of_isReady {resolutions : Option (List ResolvedModule)}
    (h : table.IsReady resolutions) : table.seedOnce resolutions = table := by
  cases resolutions with
  | none => rfl
  | some found => exact if_pos (h rfl)

/-- Recording a link does not mark the table as seeded. -/
theorem isSeeded_setDirectory (table : SymlinkTable) (link : String) (real : RealDirectory) :
    (table.setDirectory link real).isSeeded = table.isSeeded := by
  unfold setDirectory
  dsimp only
  split <;> rfl

/-- Learning from a resolution does not mark the table as seeded. -/
theorem isSeeded_learn (table : SymlinkTable) (resolution : ResolvedModule) :
    (table.learn resolution).isSeeded = table.isSeeded := by
  unfold learn
  split
  · rfl
  · dsimp only
    split
    · rw [isSeeded_setDirectory]
      rfl
    · rfl

/-- Learning from many resolutions does not mark the table as seeded. -/
theorem isSeeded_foldl_learn (resolutions : List ResolvedModule) (table : SymlinkTable) :
    (resolutions.foldl learn table).isSeeded = table.isSeeded := by
  induction resolutions generalizing table with
  | nil => rfl
  | cons resolution rest ih => rw [List.foldl_cons, ih, isSeeded_learn]

/-- A table is ready once it has been seeded. -/
theorem isReady_seedOnce (resolutions : Option (List ResolvedModule)) (table : SymlinkTable) :
    (table.seedOnce resolutions).IsReady resolutions := by
  cases resolutions with
  | none => exact fun h => absurd h (by simp)
  | some found =>
    intro _
    unfold seedOnce
    dsimp only
    split
    · assumption
    · exact isSeeded_foldl_learn found _

/-- The entries that links make in a table with the given keys. -/
def entriesOf (key : String → String) (links : List Link) : List (String × RealDirectory) :=
  (links.filter fun link => !isIgnored (key link.1)).map fun link => (key link.1, link.2)

/-- Recording a link that is tracked stores its entry; one that is known is not listed again. -/
theorem setDirectory_of_tracked {link : String} (real : RealDirectory)
    (h : isIgnored (table.key link) = false) :
    ∃ byReal, table.setDirectory link real =
        { table with byReal, directories := table.directories.insert (table.key link) real } ∧
      (table.directories.contains (table.key link) = true → byReal = table.byReal) := by
  unfold setDirectory
  dsimp only
  rw [h]
  exact ⟨_, rfl, fun hknown => if_pos hknown⟩

/-- A link at an ignored path is not recorded. -/
theorem setDirectory_of_ignored {link : String} (real : RealDirectory)
    (h : isIgnored (table.key link) = true) : table.setDirectory link real = table :=
  if_pos h

/-- A table that is ready gets the entries of the links, and nothing else if it has all of them. -/
theorem recordAll_of_isReady {resolutions : Option (List ResolvedModule)} (links : List Link)
    (h : table.IsReady resolutions) :
    ∃ byReal, table.recordAll resolutions links =
        { table with
          byReal
          directories := table.directories.store (entriesOf table.key links) } ∧
      ((∀ entry ∈ entriesOf table.key links, table.directories.contains entry.1 = true) →
        byReal = table.byReal) := by
  induction links generalizing table with
  | nil => exact ⟨table.byReal, rfl, fun _ => rfl⟩
  | cons link rest ih =>
    have hrecord : table.recordAll resolutions (link :: rest) =
        (table.setDirectory link.1 link.2).recordAll resolutions rest := by
      show ((table.seedOnce resolutions).setDirectory link.1 link.2).recordAll resolutions rest = _
      rw [seedOnce_of_isReady h]
    rw [hrecord]
    cases hignored : isIgnored (table.key link.1) with
    | true =>
      have hentries : entriesOf table.key (link :: rest) = entriesOf table.key rest := by
        simp [entriesOf, hignored]
      rw [setDirectory_of_ignored link.2 hignored, hentries]
      exact ih h
    | false =>
      have hentries : entriesOf table.key (link :: rest) =
          (table.key link.1, link.2) :: entriesOf table.key rest := by
        simp [entriesOf, hignored]
      obtain ⟨listed, hset, hlisted⟩ := setDirectory_of_tracked link.2 hignored
      have hready : (table.setDirectory link.1 link.2).IsReady resolutions := by
        intro hsome
        rw [isSeeded_setDirectory]
        exact h hsome
      rw [hset] at hready ⊢
      obtain ⟨byReal, hrest, hsame⟩ := ih hready
      rw [hentries]
      refine ⟨byReal, hrest, fun hall => ?_⟩
      have hknown := hall _ List.mem_cons_self
      rw [← hlisted hknown]
      refine hsame fun entry hentry => ?_
      exact Table.contains_store_of_contains (hall entry (List.mem_cons_of_mem _ hentry))
        [(table.key link.1, link.2)]

/-- A ready table that has recorded some links is not changed by recording them again. -/
theorem recordAll_recordAll_of_isReady {resolutions : Option (List ResolvedModule)}
    (links : List Link) (h : table.IsReady resolutions) :
    (table.recordAll resolutions links).recordAll resolutions links =
      table.recordAll resolutions links := by
  obtain ⟨byReal, hfirst, -⟩ := recordAll_of_isReady links h
  rw [hfirst]
  have hstill : IsReady resolutions
      { table with byReal, directories := table.directories.store (entriesOf table.key links) } :=
    h
  obtain ⟨again, hsecond, hsame⟩ := recordAll_of_isReady links hstill
  have hall : ∀ entry ∈ entriesOf table.key links,
      (table.directories.store (entriesOf table.key links)).contains entry.1 = true :=
    fun entry hentry => Table.contains_store_of_mem table.directories hentry
  have hkey : SymlinkTable.key
      { table with byReal, directories := table.directories.store (entriesOf table.key links) } =
        table.key := rfl
  rw [hsecond, hsame hall, hkey, Table.store_store]

/-- Recording the same links again changes nothing in the end. -/
theorem recordAll_recordAll (resolutions : Option (List ResolvedModule)) (links : List Link)
    (table : SymlinkTable) :
    (table.recordAll resolutions links).recordAll resolutions links =
      table.recordAll resolutions links := by
  cases links with
  | nil => rfl
  | cons link rest =>
    -- The first link takes in the resolutions, which makes the table ready.
    have hready := isReady_seedOnce resolutions table
    have hseeded : table.recordAll resolutions (link :: rest) =
        (table.seedOnce resolutions).recordAll resolutions (link :: rest) := by
      show ((table.seedOnce resolutions).setDirectory link.1 link.2).recordAll resolutions rest =
        (((table.seedOnce resolutions).seedOnce resolutions).setDirectory link.1
          link.2).recordAll resolutions rest
      rw [seedOnce_of_isReady hready]
    rw [hseeded]
    exact recordAll_recordAll_of_isReady (link :: rest) hready

/-- Recording two lists of links is recording one after the other. -/
theorem recordAll_append (resolutions : Option (List ResolvedModule)) (first second : List Link)
    (table : SymlinkTable) :
    table.recordAll resolutions (first ++ second) =
      (table.recordAll resolutions first).recordAll resolutions second :=
  List.foldl_append

end SymlinkTable

end AutoImport
