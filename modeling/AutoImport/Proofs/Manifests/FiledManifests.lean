import AutoImport.Proofs.Manifests.CacheAgreement

/-!
# Where known manifests are filed

A cache files every manifest under the key of its own file name, and that name is normal, if only
the paths that it is asked about are (`ManifestCache.FiledIn`).  So the manifest that is known of a
directory may have been reached from elsewhere and in other letters, but the key of its file name is
that of the manifest in the directory.  This holds of all manifests that are seen along directories
(`FiledIn.visibleAlong`).  Nothing is assumed of the file system.
-/

set_option autoImplicit false

namespace AutoImport.ManifestCache

/-- Every manifest is filed under the key of its file name, which is normal. -/
structure FiledIn (caseSensitive : Bool) (cache : ManifestCache) : Prop where
  letters : cache.caseSensitive = caseSensitive
  manifests : ∀ file manifest, cache.manifests.get? file = some manifest →
    Path.IsNormal manifest.fileName ∧ Path.canonical manifest.fileName "/" caseSensitive = file

/-- The manifest has the key of the manifest in the directory. -/
structure IsFrom (caseSensitive : Bool) (directory : String) (manifest : Manifest) : Prop where
  isNormal : Path.IsNormal manifest.fileName
  key : Path.canonical manifest.fileName "/" caseSensitive =
    Path.canonical (Path.join directory manifestName) "/" caseSensitive

variable {caseSensitive : Bool} {cache : ManifestCache} {directory : String}

/-- An empty cache files every manifest in its place. -/
theorem filedIn_empty (caseSensitive : Bool) :
    ({ caseSensitive } : ManifestCache).FiledIn caseSensitive := by
  refine ⟨rfl, ?_⟩
  intro file manifest h
  exact absurd h (by simp [Table.get?, Table.lookupIn])

/-- A manifest found in a directory is one of that directory. -/
theorem FiledIn.isFrom (h : cache.FiledIn caseSensitive) {manifest : Manifest}
    (hin : cache.inDirectory? directory = some manifest) :
    IsFrom caseSensitive directory manifest := by
  obtain ⟨hnormal, hkey⟩ := h.manifests _ manifest hin
  refine ⟨hnormal, hkey.trans ?_⟩
  unfold manifestKey key
  rw [h.letters]

/-! ## What a cache is asked -/

/-- Erasing a file leaves the other manifests in their places. -/
theorem FiledIn.erase (h : cache.FiledIn caseSensitive) (file : String) :
    ({ cache with manifests := cache.manifests.erase file } : ManifestCache).FiledIn
      caseSensitive := by
  refine ⟨h.letters, ?_⟩
  intro other manifest hother
  rw [Table.get?_erase] at hother
  split at hother
  · exact absurd hother (by simp)
  · exact h.manifests other manifest hother

/-- Marking a directory moves no manifest. -/
theorem FiledIn.markAbsent (h : cache.FiledIn caseSensitive) (directoryKey : String) :
    (cache.markAbsent directoryKey).FiledIn caseSensitive :=
  ⟨h.letters, h.manifests⟩

/-- Deleting a manifest leaves the others in their places. -/
theorem FiledIn.delete (h : cache.FiledIn caseSensitive) (fileName : String) :
    (cache.delete fileName).FiledIn caseSensitive :=
  (h.erase _).markAbsent _

/-- A re-read files what it reads in its place. -/
theorem FiledIn.refresh (h : cache.FiledIn caseSensitive) (view : FileView) {fileName : String}
    (hnormal : Path.IsNormal fileName) : (cache.refresh view fileName).FiledIn caseSensitive := by
  unfold ManifestCache.refresh
  dsimp only
  cases hread : Manifest.read? view fileName with
  | none => exact (h.erase _).markAbsent _
  | some manifest =>
    refine ⟨h.letters, ?_⟩
    intro file found hfound
    rw [Table.get?_insert] at hfound
    split at hfound
    · rename_i hfile
      rw [← Option.some.inj hfound, (Manifest.place_of_read? hread).1, ← hfile]
      unfold key
      rw [h.letters]
      exact ⟨hnormal, rfl⟩
    · exact h.manifests file found hfound

/-- A search along a chain files what it reads in its place. -/
theorem FiledIn.searchChain (h : cache.FiledIn caseSensitive) (view : FileView)
    {directories : List String} (hnormal : ∀ directory ∈ directories, Path.IsNormal directory) :
    (searchChain view directories cache).val.FiledIn caseSensitive := by
  refine searchChain_keeps ?_ ?_ h
  · intro directory hdirectory _ _ hfiled
    exact hfiled.refresh view
      (Path.isNormal_join (hnormal directory hdirectory) Path.isName_manifestName)
  · intro directory _ _ _ _ hfiled
    exact hfiled.markAbsent _

/-- A look at one directory files what it reads in its place. -/
theorem FiledIn.lookedAt (h : cache.FiledIn caseSensitive) (view : FileView)
    (hnormal : Path.IsNormal directory) :
    (cache.lookedAt view directory).FiledIn caseSensitive := by
  unfold ManifestCache.lookedAt
  split
  · exact h.searchChain view fun _ hother => Path.isNormal_of_mem_ancestors (Or.inr hnormal) hother
  · exact h

/-- Every manifest that is seen along directories has the key of the manifest in one of them. -/
theorem FiledIn.visibleAlong (h : cache.FiledIn caseSensitive) (view : FileView)
    (rootDirectory : Option String) {directories : List String}
    (hnormal : ∀ directory ∈ directories, Path.IsNormal directory) :
    let seen := (visibleAlong view rootDirectory directories cache).val
    (∀ manifest ∈ seen.1, ∃ directory ∈ directories, IsFrom caseSensitive directory manifest) ∧
      seen.2.FiledIn caseSensitive := by
  induction directories generalizing cache with
  | nil =>
    exact ⟨fun manifest hmanifest => absurd hmanifest (by simp [ManifestCache.visibleAlong]), h⟩
  | cons directory rest ih =>
    have hlooked := h.lookedAt view (hnormal directory List.mem_cons_self)
    obtain ⟨hothers, hleft⟩ :=
      ih hlooked fun other hother => hnormal other (List.mem_cons_of_mem directory hother)
    have hhere : ∀ manifest ∈ (if (cache.lookedAt view directory).presence directory = .present then
        ((cache.lookedAt view directory).inDirectory? directory).toList else []),
        ∃ other ∈ directory :: rest, IsFrom caseSensitive other manifest := by
      intro manifest hmanifest
      split at hmanifest
      · exact ⟨directory, List.mem_cons_self, hlooked.isFrom (Option.mem_toList.1 hmanifest)⟩
      · exact absurd hmanifest (by simp)
    rw [visibleAlong_cons]
    dsimp only
    split
    · exact ⟨hhere, hlooked⟩
    · refine ⟨?_, hleft⟩
      intro manifest hmanifest
      rcases List.mem_append.1 hmanifest with hmanifest | hmanifest
      · exact hhere manifest hmanifest
      · obtain ⟨other, hother, hfrom⟩ := hothers manifest hmanifest
        exact ⟨other, List.mem_cons_of_mem directory hother, hfrom⟩

end AutoImport.ManifestCache
