import AutoImport.ManifestCache
import AutoImport.Proofs.Files.ReadingByKey
import AutoImport.Proofs.Path.PathKeys

/-!
# Agreement of the known manifests with a tree

A cache agrees with a tree at a directory when a manifest known there has the contents of the
manifest on the tree, and the directory is absent only if no manifest can be read there.  Nothing is
said about unknown directories.

Looking at the tree changes a cache in two ways: a manifest is read anew, or a directory without
a manifest is recorded as absent.  `Learns` is the closure of these steps.  Learning keeps
agreement at every normal directory, and keeps known what can be read.  Searches learn, so from an
agreeing cache the manifests seen along a list of directories are those of the tree
(`contents_visibleAlong`).
-/

set_option autoImplicit false

namespace AutoImport.ManifestCache

/-- What the cache says about a directory is so on the tree. -/
structure AgreesAt (tree : MemoryTree) (cache : ManifestCache) (directory : String) : Prop where
  present : ∀ manifest, cache.inDirectory? directory = some manifest →
    (Manifest.read? tree.view (Path.join directory manifestName)).map Manifest.contents =
      some manifest.contents
  absent : cache.presence directory = .absent →
    Manifest.read? tree.view (Path.join directory manifestName) = none

/-- The second cache comes from the first by looking at the tree. -/
inductive Learns (tree : MemoryTree) (start : ManifestCache) : ManifestCache → Prop where
  | refl : Learns tree start start
  | refresh {cache : ManifestCache} (fileName : String) (h : Learns tree start cache)
      (hname : Path.baseName (tree.key fileName) = manifestName) :
      Learns tree start (cache.refresh tree.view fileName)
  | markAbsent {cache : ManifestCache} (directory : String) (h : Learns tree start cache)
      (hnormal : Path.IsNormal directory)
      (hmissing : tree.fileExists (Path.join directory manifestName) = false) :
      Learns tree start (cache.markAbsent (cache.key directory))

variable {tree : MemoryTree} {start cache : ManifestCache} {directory : String}

/-- What one cache learns after another it learns from the start. -/
theorem Learns.trans {middle final : ManifestCache} (first : Learns tree start middle)
    (second : Learns tree middle final) : Learns tree start final := by
  induction second with
  | refl => exact first
  | refresh fileName _ hname ih => exact ih.refresh fileName hname
  | markAbsent directory _ hnormal hmissing ih => exact ih.markAbsent directory hnormal hmissing

/-- A re-read leaves the case of the file names alone. -/
theorem caseSensitive_refresh (view : FileView) (fileName : String) (cache : ManifestCache) :
    (cache.refresh view fileName).caseSensitive = cache.caseSensitive := by
  unfold refresh
  dsimp only
  split <;> rfl

/-- A cache that learns has the same case of file names as at the start. -/
theorem Learns.caseSensitive (h : Learns tree start cache) :
    cache.caseSensitive = start.caseSensitive := by
  induction h with
  | refl => rfl
  | refresh fileName _ _ ih => rw [caseSensitive_refresh, ih]
  | markAbsent directory _ _ _ ih => exact ih

/-- A cache and a tree of one case have the same keys. -/
theorem key_eq (hcase : cache.caseSensitive = tree.caseSensitive) (path : String) :
    cache.key path = tree.key path := by
  unfold key MemoryTree.key
  rw [hcase]

/-! ## Single steps -/

/-- A directory is known to have no manifest when it is marked so and nothing is filed there. -/
theorem presence_eq_absent_iff (cache : ManifestCache) (directory : String) :
    cache.presence directory = .absent ↔
      cache.inDirectory? directory = none ∧ cache.key directory ∈ cache.absent := by
  unfold presence inDirectory? Table.contains
  cases cache.manifests.get? (cache.manifestKey directory) with
  | some manifest => simp
  | none => simp

/-- A directory is known to have a manifest when one is filed there. -/
theorem presence_eq_present_iff (cache : ManifestCache) (directory : String) :
    cache.presence directory = .present ↔ (cache.inDirectory? directory).isSome := by
  unfold presence inDirectory? Table.contains
  cases cache.manifests.get? (cache.manifestKey directory) with
  | some manifest => simp
  | none =>
    simp only [Option.isSome_none, Bool.false_eq_true, if_false, iff_false]
    split <;> simp

/-- A manifest that was read anew is the one known in its directory; others stay as they were. -/
theorem inDirectory?_refresh (view : FileView) (fileName : String) (cache : ManifestCache)
    (directory : String) :
    (cache.refresh view fileName).inDirectory? directory =
      if cache.key fileName = cache.manifestKey directory then Manifest.read? view fileName
      else cache.inDirectory? directory := by
  unfold refresh
  dsimp only
  cases Manifest.read? view fileName with
  | some manifest => exact Table.get?_insert cache.manifests _ _ manifest
  | none => exact Table.get?_erase cache.manifests _ _

/-- A directory is recorded as absent by a refresh only if it was before, or if it holds the file
that could not be read. -/
theorem mem_absent_refresh {view : FileView} {fileName : String} {cache : ManifestCache}
    {directoryKey : String} (h : directoryKey ∈ (cache.refresh view fileName).absent) :
    directoryKey ∈ cache.absent ∨
      (directoryKey = Path.directory (cache.key fileName) ∧
        Manifest.read? view fileName = none) := by
  unfold refresh at h
  dsimp only at h
  cases hread : Manifest.read? view fileName with
  | some manifest =>
    rw [hread] at h
    exact Or.inl (List.mem_filter.1 h).1
  | none =>
    rw [hread] at h
    rcases (mem_insertNew _ _ _).1 h with h | h
    · exact Or.inl h
    · exact Or.inr ⟨h, rfl⟩

/-- The directory of a manifest's key, read back as a key, gives the manifest's key. -/
theorem key_eq_manifestKey (hcase : cache.caseSensitive = tree.caseSensitive) {fileName : String}
    (hname : Path.baseName (tree.key fileName) = manifestName) (hnormal : Path.IsNormal directory)
    (h : cache.key directory = Path.directory (cache.key fileName)) :
    cache.key fileName = cache.manifestKey directory := by
  rw [← key_eq hcase] at hname
  calc cache.key fileName
      = Path.join (Path.directory (cache.key fileName)) manifestName :=
        (Path.join_directory_of_baseName Path.isNormal_root hname).symm
    _ = Path.join (cache.key directory) manifestName := by rw [h]
    _ = cache.manifestKey directory :=
        (Path.canonical_join_manifestName hnormal "/" cache.caseSensitive).symm

/-- After a manifest was read anew, what the cache says about its directory is so, whatever it said
before. -/
theorem agreesAt_refresh (cache : ManifestCache) {fileName : String}
    (hkey : cache.key fileName = cache.manifestKey directory)
    (hsame : tree.key fileName = tree.key (Path.join directory manifestName)) :
    (cache.refresh tree.view fileName).AgreesAt tree directory := by
  constructor
  · intro manifest hmanifest
    rw [inDirectory?_refresh, if_pos hkey] at hmanifest
    rw [← Manifest.contents_read?_of_key_eq hsame, hmanifest]
    rfl
  · intro habsent
    obtain ⟨hnone, -⟩ := (presence_eq_absent_iff _ _).1 habsent
    rw [inDirectory?_refresh, if_pos hkey] at hnone
    exact Manifest.read?_eq_none_of_key_eq hsame hnone

/-- To read a manifest anew keeps what is so about every directory. -/
theorem AgreesAt.refresh (h : cache.AgreesAt tree directory)
    (hcase : cache.caseSensitive = tree.caseSensitive) (hnormal : Path.IsNormal directory)
    {fileName : String} (hname : Path.baseName (tree.key fileName) = manifestName) :
    (cache.refresh tree.view fileName).AgreesAt tree directory := by
  by_cases hkey : cache.key fileName = cache.manifestKey directory
  · have hsame : tree.key fileName = tree.key (Path.join directory manifestName) := by
      rw [← key_eq hcase, ← key_eq hcase]
      exact hkey
    exact agreesAt_refresh cache hkey hsame
  · constructor
    · intro manifest hmanifest
      rw [inDirectory?_refresh, if_neg hkey] at hmanifest
      exact h.present manifest hmanifest
    · intro habsent
      obtain ⟨hnone, hmem⟩ := (presence_eq_absent_iff _ _).1 habsent
      rw [inDirectory?_refresh, if_neg hkey] at hnone
      have hkeys : (cache.refresh tree.view fileName).key directory = cache.key directory := by
        unfold key
        rw [caseSensitive_refresh]
      rw [hkeys] at hmem
      rcases mem_absent_refresh hmem with hmem | ⟨hdirectory, -⟩
      · exact h.absent ((presence_eq_absent_iff _ _).2 ⟨hnone, hmem⟩)
      · exact absurd (key_eq_manifestKey hcase hname hnormal hdirectory) hkey

/-- Marking a directory that has no manifest keeps the agreement everywhere. -/
theorem AgreesAt.markAbsent (h : cache.AgreesAt tree directory)
    (hcase : cache.caseSensitive = tree.caseSensitive) (hnormal : Path.IsNormal directory)
    {missing : String} (hmissingNormal : Path.IsNormal missing)
    (hmissing : tree.fileExists (Path.join missing manifestName) = false) :
    (cache.markAbsent (cache.key missing)).AgreesAt tree directory := by
  refine ⟨h.present, fun habsent => ?_⟩
  obtain ⟨hnone, hmem⟩ := (presence_eq_absent_iff _ _).1 habsent
  rcases (mem_insertNew _ _ _).1 hmem with hmem | hkey
  · exact h.absent ((presence_eq_absent_iff _ _).2 ⟨hnone, hmem⟩)
  · have hjoin : tree.key (Path.join missing manifestName) =
        tree.key (Path.join directory manifestName) := by
      have hkeys : tree.key directory = tree.key missing := by
        rw [← key_eq hcase, ← key_eq hcase]
        exact hkey
      unfold MemoryTree.key at hkeys ⊢
      rw [Path.canonical_join_manifestName hnormal, Path.canonical_join_manifestName hmissingNormal,
        hkeys]
    exact Manifest.read?_eq_none_of_key_eq hjoin (Manifest.read?_of_not_fileExists hmissing)

/-- Agreement carries over to a tree on which the manifest of the directory reads the same. -/
theorem AgreesAt.of_readText_eq {other : MemoryTree} (h : cache.AgreesAt tree directory)
    (htext : other.readText (Path.join directory manifestName) =
      tree.readText (Path.join directory manifestName)) : cache.AgreesAt other directory := by
  have hread : Manifest.read? other.view (Path.join directory manifestName) =
      Manifest.read? tree.view (Path.join directory manifestName) := by
    unfold Manifest.read?
    show (other.readText _).bind _ = (tree.readText _).bind _
    rw [htext]
  constructor
  · rw [hread]
    exact h.present
  · rw [hread]
    exact h.absent

/-! ## Learning -/

/-- Learning keeps agreement. -/
theorem Learns.agreesAt (h : Learns tree start cache)
    (hcase : start.caseSensitive = tree.caseSensitive) (hnormal : Path.IsNormal directory)
    (hagrees : start.AgreesAt tree directory) : cache.AgreesAt tree directory := by
  induction h with
  | refl => exact hagrees
  | refresh fileName hlearns hname ih =>
    exact ih.refresh (hlearns.caseSensitive.trans hcase) hnormal hname
  | markAbsent missing hlearns hmissingNormal hmissing ih =>
    exact ih.markAbsent (hlearns.caseSensitive.trans hcase) hnormal hmissingNormal hmissing

/-- A manifest that is known and can be read stays known. -/
theorem Learns.known (h : Learns tree start cache)
    (hcase : start.caseSensitive = tree.caseSensitive)
    (hreadable : (Manifest.read? tree.view (Path.join directory manifestName)).isSome)
    (hknown : (start.inDirectory? directory).isSome) :
    (cache.inDirectory? directory).isSome := by
  induction h with
  | refl => exact hknown
  | @refresh cache fileName hlearns hname ih =>
    rw [inDirectory?_refresh]
    split
    · rename_i hkey
      have hcache := hlearns.caseSensitive.trans hcase
      have hsame : tree.key fileName = tree.key (Path.join directory manifestName) := by
        rw [← key_eq hcache, ← key_eq hcache]
        exact hkey
      cases hread : Manifest.read? tree.view fileName with
      | some manifest => rfl
      | none =>
        rw [Manifest.read?_eq_none_of_key_eq hsame hread] at hreadable
        exact absurd hreadable (by simp)
    · exact ih
  | markAbsent missing _ _ _ ih => exact ih

/-- A manifest that is not on the tree is forgotten by reading it anew. -/
theorem learns_delete {fileName : String}
    (hname : Path.baseName (tree.key fileName) = manifestName)
    (hmissing : tree.fileExists fileName = false) :
    Learns tree cache (cache.delete fileName) := by
  have hread := Manifest.read?_of_not_fileExists hmissing
  have hdelete : cache.delete fileName = cache.refresh tree.view fileName := by
    unfold delete refresh
    rw [hread]
  rw [hdelete]
  exact .refresh fileName .refl hname

/-- A search keeps what is kept by looking at a single unknown directory. -/
theorem searchChain_keeps {P : ManifestCache → Prop} {view : FileView} {directories : List String}
    (hread : ∀ directory ∈ directories, ∀ cache, cache.presence directory = .unknown → P cache →
      P (cache.refresh view (Path.join directory manifestName)))
    (hmissing : ∀ directory ∈ directories, ∀ cache, cache.presence directory = .unknown →
      view.fileExists (Path.join directory manifestName) = false → P cache →
      P (cache.markAbsent (cache.key directory)))
    (h : P cache) : P (searchChain view directories cache).val := by
  induction directories generalizing cache with
  | nil => exact h
  | cons directory rest ih =>
    have hhere : directory ∈ directory :: rest := List.mem_cons_self
    have hrest : ∀ {next : ManifestCache}, P next → P (searchChain view rest next).val :=
      ih (fun other hother => hread other (List.mem_cons_of_mem directory hother))
        (fun other hother => hmissing other (List.mem_cons_of_mem directory hother))
    rw [searchChain]
    split
    · exact h
    · rename_i hknown
      have hunknown : cache.presence directory = .unknown := Decidable.not_not.1 hknown
      rw [Probed.val_bind]
      split
      · exact hrest (hread directory hhere cache hunknown h)
      · rename_i hprobe
        exact hrest (hmissing directory hhere cache hunknown (Bool.eq_false_iff.2 hprobe) h)

/-- A search along a chain learns from the tree. -/
theorem learns_searchChain {directories : List String}
    (hnormal : ∀ directory ∈ directories, Path.IsNormal directory) (cache : ManifestCache) :
    Learns tree cache (searchChain tree.view directories cache).val := by
  refine searchChain_keeps ?_ ?_ .refl
  · intro directory hdirectory _ _ hlearns
    apply hlearns.refresh
    exact Path.baseName_canonical_join (hnormal directory hdirectory) "/" tree.caseSensitive
  · intro directory hdirectory _ _ hmissing hlearns
    exact hlearns.markAbsent directory (hnormal directory hdirectory) hmissing

/-- A search upward learns from the tree. -/
theorem learns_search (hnormal : Path.IsNormal directory) (cache : ManifestCache) :
    Learns tree cache (cache.search tree.view directory).val :=
  learns_searchChain (fun _ hd => Path.isNormal_of_mem_ancestors (Or.inr hnormal) hd) cache

/-- The cache with which a directory is looked at on the way up. -/
def lookedAt (view : FileView) (directory : String) (cache : ManifestCache) : ManifestCache :=
  (if cache.presence directory = .unknown then cache.search view directory else pure cache).val

/-- A look at one directory learns from the tree. -/
theorem learns_lookedAt (hnormal : Path.IsNormal directory) (cache : ManifestCache) :
    Learns tree cache (cache.lookedAt tree.view directory) := by
  unfold lookedAt
  split
  · exact learns_search hnormal cache
  · exact .refl

/-- Looking along directories looks at the first, and goes on unless it is the last one to look
at. -/
theorem visibleAlong_cons (view : FileView) (rootDirectory : Option String) (directory : String)
    (rest : List String) (cache : ManifestCache) :
    (visibleAlong view rootDirectory (directory :: rest) cache).val =
      let seen := cache.lookedAt view directory
      let here :=
        if seen.presence directory = .present then (seen.inDirectory? directory).toList else []
      if rootDirectory.any fun root => seen.key root = seen.key directory then (here, seen)
      else
        let others := (visibleAlong view rootDirectory rest seen).val
        (here ++ others.1, others.2) := by
  unfold lookedAt
  rw [visibleAlong]
  by_cases hunknown : cache.presence directory = .unknown
  · simp only [if_pos hunknown, Probed.val_bind]
    split <;> rfl
  · simp only [if_neg hunknown, Probed.val_bind, Probed.val_pure]
    split <;> rfl

/-- Looking along directories learns from the tree. -/
theorem learns_visibleAlong (rootDirectory : Option String) {directories : List String}
    (hnormal : ∀ directory ∈ directories, Path.IsNormal directory) (cache : ManifestCache) :
    Learns tree cache (visibleAlong tree.view rootDirectory directories cache).val.2 := by
  induction directories generalizing cache with
  | nil => exact .refl
  | cons directory rest ih =>
    have hseen : Learns tree cache (cache.lookedAt tree.view directory) :=
      learns_lookedAt (hnormal directory List.mem_cons_self) cache
    rw [visibleAlong_cons]
    dsimp only
    split
    · exact hseen
    · exact hseen.trans (ih (fun d hd => hnormal d (List.mem_cons_of_mem directory hd)) _)

/-- Looking at the directories above a file learns from the tree. -/
theorem learns_visibleFrom {fileName : String} (rootDirectory : Option String)
    (hnormal : Path.IsNormal fileName) (cache : ManifestCache) :
    Learns tree cache (cache.visibleFrom tree.view fileName rootDirectory).val.2 :=
  learns_visibleAlong rootDirectory
    (fun _ hd => Path.isNormal_of_mem_ancestors (Path.isNormal_directory hnormal) hd) cache

/-! ## What is seen -/

/-- The manifests of directories, as they are on a tree. -/
def onTree (tree : MemoryTree) (directories : List String) : List Manifest :=
  directories.filterMap fun directory =>
    Manifest.read? tree.view (Path.join directory manifestName)

/-- A search from an unknown directory finds its manifest, if there is one to be read. -/
theorem known_search (hcase : cache.caseSensitive = tree.caseSensitive)
    (hnormal : Path.IsNormal directory) (hunknown : cache.presence directory = .unknown)
    (hreadable : (Manifest.read? tree.view (Path.join directory manifestName)).isSome) :
    ((cache.search tree.view directory).val.inDirectory? directory).isSome := by
  obtain ⟨rest, hrest⟩ := Path.ancestors_eq_cons hnormal
  have hexists : tree.view.fileExists (Path.join directory manifestName) = true := by
    cases hfile : tree.view.fileExists (Path.join directory manifestName) with
    | true => rfl
    | false =>
      rw [Manifest.read?_of_not_fileExists hfile] at hreadable
      exact absurd hreadable (by simp)
  have hrestNormal : ∀ d ∈ rest, Path.IsNormal d := fun d hd =>
    Path.isNormal_of_mem_ancestors (Or.inr hnormal) (hrest ▸ List.mem_cons_of_mem directory hd)
  -- The search begins here, and what it learns further up does not undo what it found.
  unfold search
  rw [hrest, searchChain, if_neg (not_not_intro hunknown), Probed.val_bind, FileView.probe,
    Probed.val_probe, if_pos hexists]
  refine (learns_searchChain hrestNormal _).known ?_ hreadable ?_
  · rw [caseSensitive_refresh, hcase]
  · have hkey : cache.key (Path.join directory manifestName) = cache.manifestKey directory := rfl
    rw [inDirectory?_refresh, if_pos hkey]
    exact hreadable

/-- Looked at with an agreeing cache, a directory shows its manifest. -/
theorem contents_lookedAt (hcase : cache.caseSensitive = tree.caseSensitive)
    (hnormal : Path.IsNormal directory) (hagrees : cache.AgreesAt tree directory) :
    (((cache.lookedAt tree.view directory).inDirectory? directory).map Manifest.contents) =
      (Manifest.read? tree.view (Path.join directory manifestName)).map Manifest.contents := by
  have hseen := (learns_lookedAt hnormal cache).agreesAt hcase hnormal hagrees
  cases hin : (cache.lookedAt tree.view directory).inDirectory? directory with
  | some manifest => exact (hseen.present manifest hin).symm
  | none =>
    cases hread : Manifest.read? tree.view (Path.join directory manifestName) with
    | none => rfl
    | some manifest =>
      -- What can be read is found unless the cache already knows better, and it agrees.
      exfalso
      have hreadable : (Manifest.read? tree.view (Path.join directory manifestName)).isSome := by
        rw [hread]
        rfl
      have hknown : ((cache.lookedAt tree.view directory).inDirectory? directory).isSome := by
        unfold lookedAt
        cases hpresence : cache.presence directory with
        | unknown => exact known_search hcase hnormal hpresence hreadable
        | present => exact (presence_eq_present_iff cache directory).1 hpresence
        | absent =>
          rw [hagrees.absent hpresence] at hread
          exact absurd hread (by simp)
      rw [hin] at hknown
      exact absurd hknown (by simp)

/-- From an agreeing cache, the manifests seen along directories are those of the tree. -/
theorem contents_visibleAlong {directories : List String}
    (hcase : cache.caseSensitive = tree.caseSensitive)
    (hnormal : ∀ directory ∈ directories, Path.IsNormal directory)
    (hagrees : ∀ directory ∈ directories, cache.AgreesAt tree directory) :
    (visibleAlong tree.view none directories cache).val.1.map Manifest.contents =
      (onTree tree directories).map Manifest.contents := by
  induction directories generalizing cache with
  | nil => rfl
  | cons directory rest ih =>
    have hhere := hnormal directory List.mem_cons_self
    have hrest := fun d hd => hnormal d (List.mem_cons_of_mem directory hd)
    have hlearns : Learns tree cache (cache.lookedAt tree.view directory) :=
      learns_lookedAt hhere cache
    have hshown := contents_lookedAt hcase hhere (hagrees directory List.mem_cons_self)
    have hothers := ih (hlearns.caseSensitive.trans hcase) hrest fun d hd =>
      hlearns.agreesAt hcase (hrest d hd) (hagrees d (List.mem_cons_of_mem directory hd))
    have honTree : onTree tree (directory :: rest) =
        (Manifest.read? tree.view (Path.join directory manifestName)).toList ++
          onTree tree rest := by
      unfold onTree
      rw [List.filterMap_cons]
      cases Manifest.read? tree.view (Path.join directory manifestName) <;> rfl
    have htoList : ∀ found : Option Manifest,
        found.toList.map Manifest.contents = (found.map Manifest.contents).toList := by
      intro found
      cases found <;> rfl
    have hpresent : (if (cache.lookedAt tree.view directory).presence directory = .present then
        ((cache.lookedAt tree.view directory).inDirectory? directory).toList else []) =
        ((cache.lookedAt tree.view directory).inDirectory? directory).toList := by
      split
      · rfl
      · rename_i h
        rw [presence_eq_present_iff, Option.not_isSome_iff_eq_none] at h
        rw [h]
        rfl
    rw [visibleAlong_cons, honTree]
    dsimp only
    rw [Option.any_none, if_neg (by simp), hpresent, List.map_append, List.map_append, hothers,
      htoList, htoList, hshown]

end AutoImport.ManifestCache
