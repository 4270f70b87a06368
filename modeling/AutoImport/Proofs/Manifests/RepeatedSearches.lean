import AutoImport.Proofs.Manifests.CacheAgreement
import AutoImport.Proofs.Path.PlainDirectories

/-!
# Searches that are repeated

Looking for manifests is lazy: only unknown directories are looked at.  So a search never touches
what is known about another directory (`Retains`), and leaves the directory known that it began at.
Hence what was seen along directories is seen again by a second look, which changes nothing any
more, whatever the first one started from (`visibleAlong_again`).  Nothing is assumed of the file
system, and it may have changed in between.

All this is about plain directories.  A bare drive shares its manifest with the drive's root, but is
known under a key of its own, and looking at the one would change what is known about the
other. -/

set_option autoImplicit false

namespace AutoImport.ManifestCache

variable {view : FileView} {cache before middle after : ManifestCache} {directory : String}

/-- The directory has been looked at. -/
def Knows (cache : ManifestCache) (directory : String) : Prop :=
  cache.presence directory ≠ .unknown

/-- A directory is known when its manifest is, or when it is marked as having none. -/
theorem knows_iff (cache : ManifestCache) (directory : String) :
    cache.Knows directory ↔
      (cache.inDirectory? directory).isSome ∨ cache.key directory ∈ cache.absent := by
  unfold Knows presence inDirectory? Table.contains
  cases cache.manifests.get? (cache.manifestKey directory) with
  | some manifest => simp
  | none =>
    by_cases habsent : cache.key directory ∈ cache.absent
    · simp [habsent]
    · simp [habsent]

/-- Whatever the first cache knows about plain directories, the second one knows. -/
structure Retains (before after : ManifestCache) : Prop where
  caseSensitive : after.caseSensitive = before.caseSensitive
  knows : ∀ directory, Path.IsPlain directory → before.Knows directory → after.Knows directory
  inDirectory? : ∀ directory, Path.IsPlain directory → before.Knows directory →
    after.inDirectory? directory = before.inDirectory? directory

/-- A cache retains all it knows. -/
theorem Retains.refl (cache : ManifestCache) : cache.Retains cache :=
  ⟨rfl, fun _ _ h => h, fun _ _ _ => rfl⟩

/-- Retaining twice is retaining. -/
theorem Retains.trans (first : before.Retains middle) (second : middle.Retains after) :
    before.Retains after where
  caseSensitive := second.caseSensitive.trans first.caseSensitive
  knows directory hplain h := second.knows directory hplain (first.knows directory hplain h)
  inDirectory? directory hplain h :=
    (second.inDirectory? directory hplain (first.knows directory hplain h)).trans
      (first.inDirectory? directory hplain h)

/-! ## Single steps -/

/-- The key of a plain directory's manifest lies in the key of the directory. -/
theorem directory_manifestKey (cache : ManifestCache) (h : Path.IsPlain directory) :
    Path.directory (cache.manifestKey directory) = cache.key directory :=
  Path.directory_canonical_join h "/" cache.caseSensitive

/-- Caches of one case have the same keys. -/
theorem key_of_caseSensitive (h : after.caseSensitive = before.caseSensitive) (path : String) :
    after.key path = before.key path := by
  unfold key
  rw [h]

/-- Marking a directory loses nothing that is known. -/
theorem retains_markAbsent (cache : ManifestCache) (directoryKey : String) :
    cache.Retains (cache.markAbsent directoryKey) := by
  refine ⟨rfl, fun directory _ hknows => ?_, fun _ _ _ => rfl⟩
  rw [knows_iff] at hknows ⊢
  exact hknows.imp id fun habsent => (mem_insertNew _ _ _).2 (Or.inl habsent)

/-- A marked directory is known. -/
theorem knows_markAbsent (cache : ManifestCache) (directory : String) :
    (cache.markAbsent (cache.key directory)).Knows directory :=
  (knows_iff _ _).2 (Or.inr ((mem_insertNew _ _ _).2 (Or.inr rfl)))

/-- Reading a manifest anew keeps other directories absent that were. -/
theorem mem_absent_refresh_of_ne {fileName directoryKey : String}
    (h : directoryKey ∈ cache.absent) (hne : directoryKey ≠ Path.directory (cache.key fileName)) :
    directoryKey ∈ (cache.refresh view fileName).absent := by
  unfold refresh
  dsimp only
  cases Manifest.read? view fileName with
  | some manifest => exact List.mem_filter.2 ⟨h, by simpa using hne⟩
  | none => exact (mem_insertNew _ _ _).2 (Or.inl h)

/-- A look at an unknown directory keeps what is known about others. -/
theorem retains_refresh (view : FileView) (hplain : Path.IsPlain directory)
    (hunknown : ¬cache.Knows directory) :
    cache.Retains (cache.refresh view (Path.join directory manifestName)) := by
  have hcase := caseSensitive_refresh view (Path.join directory manifestName) cache
  have hmissing := hunknown
  rw [knows_iff, not_or, Option.not_isSome_iff_eq_none] at hmissing
  -- A directory that is known has another key, hence its manifest has another key too.
  have hother : ∀ other, Path.IsPlain other → cache.Knows other →
      cache.manifestKey directory ≠ cache.manifestKey other := by
    intro other hotherPlain hknows hsame
    have hkeys : cache.key directory = cache.key other := by
      rw [← directory_manifestKey cache hplain, hsame, directory_manifestKey cache hotherPlain]
    rw [knows_iff, ← hkeys] at hknows
    rcases hknows with hpresent | habsent
    · unfold ManifestCache.inDirectory? at hmissing hpresent
      rw [← hsame, hmissing.1] at hpresent
      exact absurd hpresent (by simp)
    · exact hmissing.2 habsent
  have hin : ∀ other, Path.IsPlain other → cache.Knows other →
      (cache.refresh view (Path.join directory manifestName)).inDirectory? other =
        cache.inDirectory? other := by
    intro other hotherPlain hknows
    rw [inDirectory?_refresh]
    exact if_neg (hother other hotherPlain hknows)
  refine ⟨hcase, fun other hotherPlain hknows => ?_, hin⟩
  rw [knows_iff, hin other hotherPlain hknows, key_of_caseSensitive hcase]
  refine ((knows_iff cache other).1 hknows).imp id fun habsent =>
    mem_absent_refresh_of_ne habsent fun hkey => hmissing.2 ?_
  have hdirectory := directory_manifestKey cache hplain
  unfold manifestKey at hdirectory
  rw [hdirectory] at hkey
  rwa [← hkey]

/-- A directory is known once its manifest is re-read. -/
theorem knows_refresh (view : FileView) (cache : ManifestCache) (hplain : Path.IsPlain directory) :
    (cache.refresh view (Path.join directory manifestName)).Knows directory := by
  have hkey : cache.key (Path.join directory manifestName) = cache.manifestKey directory := rfl
  rw [knows_iff, inDirectory?_refresh, if_pos hkey,
    key_of_caseSensitive (caseSensitive_refresh view _ cache)]
  unfold refresh
  dsimp only
  cases Manifest.read? view (Path.join directory manifestName) with
  | some manifest => exact Or.inl rfl
  | none =>
    refine Or.inr ((mem_insertNew _ _ _).2 (Or.inr ?_))
    rw [hkey, directory_manifestKey cache hplain]

/-! ## Searches -/

/-- A search along a chain loses nothing that is known. -/
theorem retains_searchChain (view : FileView) {directories : List String}
    (hplain : ∀ directory ∈ directories, Path.IsPlain directory) (cache : ManifestCache) :
    cache.Retains (searchChain view directories cache).val := by
  refine searchChain_keeps ?_ ?_ (.refl cache)
  · intro directory hdirectory _ hunknown hretains
    exact hretains.trans
      (retains_refresh view (hplain directory hdirectory) (not_not_intro hunknown))
  · intro directory _ middle _ _ hretains
    exact hretains.trans (retains_markAbsent middle _)

/-- A search leaves the directory known that it began at. -/
theorem knows_searchChain (view : FileView) {rest : List String}
    (hplain : ∀ other ∈ directory :: rest, Path.IsPlain other) (cache : ManifestCache) :
    (searchChain view (directory :: rest) cache).val.Knows directory := by
  have hhere := hplain directory List.mem_cons_self
  have hrest := fun other hother => hplain other (List.mem_cons_of_mem directory hother)
  rw [searchChain]
  split
  · rename_i hknows
    exact hknows
  · rw [Probed.val_bind]
    split
    · exact (retains_searchChain view hrest _).knows directory hhere
        (knows_refresh view cache hhere)
    · exact (retains_searchChain view hrest _).knows directory hhere
        (knows_markAbsent cache directory)

/-- A look at one directory loses nothing that is known. -/
theorem retains_lookedAt (view : FileView) (hplain : Path.IsPlain directory)
    (cache : ManifestCache) : cache.Retains (cache.lookedAt view directory) := by
  unfold lookedAt
  split
  · exact retains_searchChain view
      (fun _ hother => Path.isPlain_of_mem_ancestors hplain hother) cache
  · exact .refl cache

/-- A directory is known once it is looked at. -/
theorem knows_lookedAt (view : FileView) (hplain : Path.IsPlain directory)
    (cache : ManifestCache) : (cache.lookedAt view directory).Knows directory := by
  unfold lookedAt
  split
  · obtain ⟨rest, hrest⟩ := Path.ancestors_eq_cons hplain.isNormal
    unfold search
    rw [hrest]
    refine knows_searchChain view (fun other hother => ?_) cache
    rw [← hrest] at hother
    exact Path.isPlain_of_mem_ancestors hplain hother
  · rename_i hknows
    exact hknows

/-- A look at a known directory changes nothing. -/
theorem lookedAt_of_knows (view : FileView) (h : cache.Knows directory) :
    cache.lookedAt view directory = cache := by
  unfold lookedAt
  rw [if_neg h]
  rfl

/-! ## What is seen along directories -/

/-- The known manifests of directories. -/
def shown (cache : ManifestCache) (directories : List String) : List Manifest :=
  directories.flatMap fun directory => (cache.inDirectory? directory).toList

/-- Without a root directory the look goes on to the end of the list. -/
theorem visibleAlong_none_cons (view : FileView) (directory : String) (rest : List String)
    (cache : ManifestCache) :
    (visibleAlong view none (directory :: rest) cache).val =
      let seen := cache.lookedAt view directory
      let others := (visibleAlong view none rest seen).val
      ((seen.inDirectory? directory).toList ++ others.1, others.2) := by
  rw [visibleAlong_cons]
  dsimp only
  rw [Option.any_none, if_neg (by simp)]
  split
  · rfl
  · rename_i habsent
    rw [presence_eq_present_iff, Option.not_isSome_iff_eq_none] at habsent
    rw [habsent]
    rfl

/-- Afterwards all directories are known, and what was seen is what is known about them. -/
theorem visibleAlong_known (view : FileView) {directories : List String}
    (hplain : ∀ directory ∈ directories, Path.IsPlain directory) (cache : ManifestCache) :
    cache.Retains (visibleAlong view none directories cache).val.2 ∧
      (∀ directory ∈ directories,
        (visibleAlong view none directories cache).val.2.Knows directory) ∧
      (visibleAlong view none directories cache).val.1 =
        (visibleAlong view none directories cache).val.2.shown directories := by
  induction directories generalizing cache with
  | nil => exact ⟨.refl cache, fun _ h => absurd h (by simp), rfl⟩
  | cons directory rest ih =>
    have hhere := hplain directory List.mem_cons_self
    have hknown := knows_lookedAt view hhere cache
    obtain ⟨hretains, hknows, hshown⟩ :=
      ih (fun other hother => hplain other (List.mem_cons_of_mem directory hother))
        (cache.lookedAt view directory)
    rw [visibleAlong_none_cons]
    refine ⟨(retains_lookedAt view hhere cache).trans hretains, ?_, ?_⟩
    · intro other hother
      rcases List.mem_cons.1 hother with rfl | hother
      · exact hretains.knows other hhere hknown
      · exact hknows other hother
    · dsimp only
      rw [hshown, shown, shown, List.flatMap_cons, hretains.inDirectory? directory hhere hknown]

/-- Directories that are all known are only read. -/
theorem visibleAlong_of_knows (view : FileView) {directories : List String}
    (h : ∀ directory ∈ directories, cache.Knows directory) :
    (visibleAlong view none directories cache).val = (cache.shown directories, cache) := by
  induction directories with
  | nil => rfl
  | cons directory rest ih =>
    rw [visibleAlong_none_cons, lookedAt_of_knows view (h directory List.mem_cons_self)]
    dsimp only
    rw [ih fun other hother => h other (List.mem_cons_of_mem directory hother)]
    rfl

/-- A second look along the same directories sees the same and changes nothing, even on another file
system. -/
theorem visibleAlong_again (view later : FileView) {directories : List String}
    (hplain : ∀ directory ∈ directories, Path.IsPlain directory) (cache : ManifestCache) :
    (visibleAlong later none directories (visibleAlong view none directories cache).val.2).val =
      (visibleAlong view none directories cache).val := by
  obtain ⟨-, hknows, hshown⟩ := visibleAlong_known view hplain cache
  rw [visibleAlong_of_knows later hknows, ← hshown]

end AutoImport.ManifestCache
