import AutoImport.Proofs.Discovery.RecordedLinks

/-!
# The two indexes of known links

A table of links is an index from links to real directories and another one from real directories
to links.  Both are written when a directory is recorded, but the second one only when the link is
new.  So after any calls the first index has the *last* real directory that was recorded for a link,
and the second one lists the link under the *first*, once and nowhere else (`linksTo_after`).

The two are inverse to each other at a link exactly as long as these are one directory.  A link that
is recorded with another target stays listed under the old one (`linksTo_relinked`).
-/

set_option autoImplicit false

namespace AutoImport.SymlinkTable

/-- What an entry of the table is made of: the key of a link and its real directory. -/
abbrev Entry := String × RealDirectory

/-! ## Calls -/

/-- A call that changes a table of links. -/
inductive Call where
  | setDirectory (link : String) (real : RealDirectory)
  | setFile (link real : String)
  | seed (resolutions : List ResolvedModule)
  | unseed
  | clear

/-- The table after a call. -/
def Call.run (table : SymlinkTable) : Call → SymlinkTable
  | .setDirectory link real => table.setDirectory link real
  | .setFile link real => table.setFile link real
  | .seed resolutions => table.seed resolutions
  | .unseed => table.unseed
  | .clear => table.clear

/-- The table after calls. -/
def after (calls : List Call) (table : SymlinkTable) : SymlinkTable :=
  calls.foldl Call.run table

/-- The link that a resolution tells of. -/
def linkOf? (table : SymlinkTable) (resolution : ResolvedModule) : Option Link :=
  resolution.via.bind fun via =>
    (table.guess resolution.file via).map fun guessed =>
      (guessed.2, ⟨guessed.1, table.key guessed.1⟩)

/-- The entries that are on record after a call: all that were recorded since the table was last
cleared, oldest first. -/
def Call.record (place : SymlinkTable) (records : List Entry) : Call → List Entry
  | .setDirectory link real => records ++ entriesOf place.key [(link, real)]
  | .seed resolutions => records ++ entriesOf place.key (resolutions.filterMap place.linkOf?)
  | .setFile _ _ => records
  | .unseed => records
  | .clear => []

/-- The entries that are on record after calls. -/
def recordsOf (place : SymlinkTable) (calls : List Call) : List Entry :=
  calls.foldl (Call.record place) []

/-- The real directory that was recorded first for a link. -/
def first? (records : List Entry) (link : String) : Option RealDirectory :=
  (records.find? fun entry => entry.1 = link).map Prod.snd

/-- The real directory that was recorded last for a link. -/
def last? (records : List Entry) (link : String) : Option RealDirectory :=
  first? records.reverse link

/-! ## Records -/

variable {place table : SymlinkTable} {records : List Entry}

/-- The first record of a link is found before one that is made later. -/
theorem first?_concat (records : List Entry) (entry : Entry) (link : String) :
    first? (records ++ [entry]) link =
      (first? records link).or (if entry.1 = link then some entry.2 else none) := by
  unfold first?
  rw [List.find?_append]
  cases records.find? fun entry => entry.1 = link with
  | some found => rfl
  | none =>
    by_cases hlink : entry.1 = link
    · simp [hlink]
    · simp [hlink]

/-- The last record of a link is one that is made later. -/
theorem last?_concat (records : List Entry) (entry : Entry) (link : String) :
    last? (records ++ [entry]) link =
      if entry.1 = link then some entry.2 else last? records link := by
  unfold last? first?
  rw [List.reverse_append]
  by_cases hlink : entry.1 = link
  · simp [hlink]
  · simp [hlink]

/-- Both directions find a link that is on record. -/
theorem isSome_last? (records : List Entry) (link : String) :
    (last? records link).isSome = (first? records link).isSome := by
  unfold last? first?
  rw [Option.isSome_map, Option.isSome_map, Bool.eq_iff_iff, List.find?_isSome, List.find?_isSome]
  simp only [List.mem_reverse]

/-- A table that was written by the records: the place it is seen from, the last real directory of
each link, and each link listed once, under its first. -/
structure Reflects (place : SymlinkTable) (records : List Entry) (table : SymlinkTable) :
    Prop where
  base : table.base = place.base
  caseSensitive : table.caseSensitive = place.caseSensitive
  directories : ∀ link, table.directories.get? link = last? records link
  listed : ∀ link real, (table.linksTo real).count link =
    if (first? records link).map RealDirectory.realKey = some real then 1 else 0

/-- A table that has been cleared reflects no records. -/
theorem reflects_clear (hbase : table.base = place.base)
    (hcase : table.caseSensitive = place.caseSensitive) : Reflects place [] table.clear :=
  ⟨hbase, hcase, fun _ => rfl, fun _ _ => rfl⟩

/-- A table and the place it is seen from have the same keys. -/
theorem Reflects.key_eq (h : Reflects place records table) : table.key = place.key := by
  funext path
  unfold key
  rw [h.base, h.caseSensitive]

/-- Stripping depends on nothing of a table but its case. -/
theorem strip_eq_of_caseSensitive (h : table.caseSensitive = place.caseSensitive)
    (real link : List String) : table.strip real link = place.strip real link := by
  have hagree : table.agree = place.agree := by
    unfold agree
    rw [h]
  have hholds : table.holdsPackages = place.holdsPackages := by
    unfold holdsPackages
    rw [h]
  fun_induction strip table real link with
  | case1 r rParent rs s sParent ss hstrip _ rest hrest ih =>
    rw [hagree, hholds] at hstrip
    rw [strip, if_pos hstrip, ← ih, hrest]
  | case2 r rParent rs s sParent ss hstop =>
    rw [hagree, hholds] at hstop
    rw [strip, if_neg hstop]
  | case3 real link hshort =>
    rw [strip]
    exact hshort

/-- A table guesses as the place it is seen from does. -/
theorem Reflects.guess_eq (h : Reflects place records table) : table.guess = place.guess := by
  funext real link
  unfold guess
  dsimp only
  rw [h.base, strip_eq_of_caseSensitive h.caseSensitive]

/-- Setting a file writes no record of a directory. -/
theorem Reflects.setFile (h : Reflects place records table) (link real : String) :
    Reflects place records (table.setFile link real) :=
  ⟨h.base, h.caseSensitive, h.directories, h.listed⟩

/-- A link that is recorded once more keeps its listing; a new one is listed under its directory. -/
theorem Reflects.setDirectory (h : Reflects place records table) (link : String)
    (real : RealDirectory) :
    Reflects place (records ++ entriesOf place.key [(link, real)])
      (table.setDirectory link real) := by
  rw [← h.key_eq]
  cases hignored : isIgnored (table.key link) with
  | true =>
    have hentries : entriesOf table.key [(link, real)] = [] := by simp [entriesOf, hignored]
    rw [hentries, List.append_nil, setDirectory_of_ignored real hignored]
    exact h
  | false =>
    have hentries : entriesOf table.key [(link, real)] = [(table.key link, real)] := by
      simp [entriesOf, hignored]
    have hcontains : table.directories.contains (table.key link) =
        (first? records (table.key link)).isSome := by
      unfold Table.contains
      rw [h.directories, isSome_last?]
    rw [hentries]
    unfold SymlinkTable.setDirectory
    dsimp only
    rw [hignored, hcontains]
    refine ⟨h.base, h.caseSensitive, ?_, ?_⟩
    · intro other
      rw [last?_concat, ← h.directories]
      exact Table.get?_insert _ _ _ _
    · intro other listing
      rw [first?_concat]
      cases hfirst : first? records (table.key link) with
      | some recorded =>
        -- The second index is left as it is, and the first record of the link too.
        have hsame : (first? records other).or
            (if table.key link = other then some real else none) = first? records other := by
          by_cases hother : table.key link = other
          · rw [← hother, hfirst]
            rfl
          · rw [if_neg hother, Option.or_none]
        rw [hsame]
        exact h.listed other listing
      | none =>
        have hold := h.listed other listing
        unfold linksTo at hold ⊢
        simp only [Option.isSome_none, Bool.false_eq_true, if_false, Table.get?_insert]
        by_cases hother : table.key link = other
        · rw [← hother] at hold ⊢
          rw [hfirst, Option.map_none, if_neg (by simp)] at hold
          rw [hfirst, Option.none_or, if_pos rfl, Option.map_some]
          by_cases hlisting : real.realKey = listing
          · rw [if_pos hlisting, if_pos (by rw [hlisting]), Option.getD_some, hlisting,
              List.count_append, hold]
            simp
          · rw [if_neg hlisting, if_neg (by simpa using hlisting)]
            exact hold
        · rw [if_neg hother, Option.or_none, ← hold]
          by_cases hlisting : real.realKey = listing
          · rw [if_pos hlisting, Option.getD_some, hlisting, List.count_append]
            simp [hother]
          · rw [if_neg hlisting]

/-- The entries of two lists of links are those of the first and those of the second. -/
theorem entriesOf_append (key : String → String) (first second : List Link) :
    entriesOf key (first ++ second) = entriesOf key first ++ entriesOf key second := by
  simp [entriesOf]

/-- Learning from a resolution writes the record of its link, if there is one. -/
theorem Reflects.learn (h : Reflects place records table) (resolution : ResolvedModule) :
    Reflects place (records ++ entriesOf place.key (place.linkOf? resolution).toList)
      (table.learn resolution) := by
  unfold SymlinkTable.learn linkOf?
  cases resolution.via with
  | none =>
    rw [Option.bind_none, Option.toList_none]
    simpa [entriesOf] using h
  | some via =>
    have hfile := h.setFile via resolution.file
    dsimp only
    rw [Option.bind_some, hfile.guess_eq]
    cases place.guess resolution.file via with
    | none => simpa [entriesOf] using hfile
    | some guessed =>
      obtain ⟨real, link⟩ := guessed
      dsimp only
      rw [hfile.key_eq]
      exact hfile.setDirectory link ⟨real, place.key real⟩

/-- Learning from resolutions writes the records of their links. -/
theorem Reflects.foldl_learn (h : Reflects place records table)
    (resolutions : List ResolvedModule) :
    Reflects place (records ++ entriesOf place.key (resolutions.filterMap place.linkOf?))
      (resolutions.foldl SymlinkTable.learn table) := by
  induction resolutions generalizing records table with
  | nil => simpa [entriesOf] using h
  | cons resolution rest ih =>
    have hsplit : (resolution :: rest).filterMap place.linkOf? =
        (place.linkOf? resolution).toList ++ rest.filterMap place.linkOf? := by
      rw [List.filterMap_cons]
      cases place.linkOf? resolution <;> rfl
    rw [hsplit, entriesOf_append, ← List.append_assoc]
    exact ih (h.learn resolution)

/-- Every call keeps table and records in step. -/
theorem Reflects.run (h : Reflects place records table) (call : Call) :
    Reflects place (call.record place records) (call.run table) := by
  cases call with
  | setDirectory link real => exact h.setDirectory link real
  | setFile link real => exact h.setFile link real
  | seed resolutions =>
    have hstart : Reflects place records { table with isSeeded := true } :=
      ⟨h.base, h.caseSensitive, h.directories, h.listed⟩
    exact hstart.foldl_learn resolutions
  | unseed => exact ⟨h.base, h.caseSensitive, h.directories, h.listed⟩
  | clear => exact reflects_clear h.base h.caseSensitive

/-- After any calls a table reflects the records that they write. -/
theorem Reflects.after (h : Reflects place records table) (calls : List Call) :
    Reflects place (calls.foldl (Call.record place) records) (table.after calls) := by
  induction calls generalizing records table with
  | nil => exact h
  | cons call rest ih => exact ih (h.run call)

/-! ## The indexes -/

/-- Take a new table and any calls.  A link has the real directory that was recorded last for it
since the table was last cleared.  It is listed under the one that was recorded first, once, and
under no other.  So the two indexes are inverse to each other at the link if and only if the two
have one key. -/
theorem linksTo_after (base : String) (caseSensitive : Bool) (calls : List Call) (link : String) :
    let start : SymlinkTable := { base, caseSensitive }
    let table := start.after calls
    let records := start.recordsOf calls
    table.directories.get? link = last? records link ∧
      (∀ real, (table.linksTo real).count link =
        if (first? records link).map RealDirectory.realKey = some real then 1 else 0) ∧
      ((∀ real, link ∈ table.linksTo real ↔
          (table.directories.get? link).map RealDirectory.realKey = some real) ↔
        (first? records link).map RealDirectory.realKey =
          (last? records link).map RealDirectory.realKey) := by
  intro start table records
  have hclear : Reflects start [] start.clear := reflects_clear rfl rfl
  have hreflects : Reflects start records table := hclear.after calls
  have hmem : ∀ real, link ∈ table.linksTo real ↔
      (first? records link).map RealDirectory.realKey = some real := by
    intro real
    rw [← List.count_pos_iff, hreflects.listed]
    split <;> simp [*]
  refine ⟨hreflects.directories link, hreflects.listed link, ?_⟩
  simp only [hmem, hreflects.directories link]
  constructor
  · exact Option.ext
  · intro hsame real
    rw [hsame]

/-- A link that is recorded with another real directory is still listed under the old one only. -/
theorem linksTo_relinked :
    let table := after [.setDirectory "/s" ⟨"/a", "/a"⟩, .setDirectory "/s" ⟨"/b", "/b"⟩]
      { base := "/", caseSensitive := true }
    (table.directories.get? "/s").map RealDirectory.realKey = some "/b" ∧
      "/s" ∈ table.linksTo "/a" ∧ "/s" ∉ table.linksTo "/b" := by
  decide +kernel

end AutoImport.SymlinkTable
