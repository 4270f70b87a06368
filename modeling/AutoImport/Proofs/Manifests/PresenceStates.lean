import AutoImport.Proofs.Manifests.RepeatedSearches
import AutoImport.Proofs.Path.SlashRootedPaths

/-!
# What is known about a directory

Presence is kept in two places under two kinds of keys: manifests under the keys of their files, and
absences under the keys of directories.  The two agree because the directory of a manifest's key is
the key of its directory, in whatever way that is spelled.

Every request other than `forget` changes a cache by settling directories one after the other: a
manifest was found there, or none.  Settling decides the presence of one directory and touches no
other (`presence_settle`), so it keeps manifests and absences apart and leaves known what is known
(`Advances`).  Both loops of a search do no more than settle what they probe, and probe unknown
directories only (`Explores`).  Hence, whatever was requested before and whatever the file system
was at each moment, a directory is never both present and absent, becomes unknown by `forget` only,
and is present after its manifest was read anew exactly if it could be read
(`presence_through`). -/

set_option autoImplicit false

namespace AutoImport

/-- Erasing a key that a table does not have leaves the table. -/
theorem Table.erase_of_get?_eq_none {κ α : Type} [DecidableEq κ] {table : Table κ α} {key : κ}
    (h : table.get? key = none) : table.erase key = table := by
  obtain ⟨entries⟩ := table
  have hentries : entries.filter (fun entry => entry.1 ≠ key) = entries := by
    induction entries with
    | nil => rfl
    | cons entry rest ih =>
      unfold Table.get? at h ih
      rw [Table.lookupIn] at h
      split at h
      · simp at h
      · rename_i hne
        rw [List.filter_cons_of_pos (by simpa using hne), ih h]
  unfold Table.erase
  rw [hentries]

namespace ManifestCache

/-- What may be requested of a cache. -/
inductive Request where
  | refresh (fileName : String)
  | delete (fileName : String)
  | forget (directory : String)
  | search (directory : String)
  | visibleFrom (fileName : String) (rootDirectory : Option String)

namespace Request

/-- The cache after a request, given the file system as it is at that moment. -/
def run (view : FileView) : Request → ManifestCache → ManifestCache
  | .refresh fileName, cache => cache.refresh view fileName
  | .delete fileName, cache => cache.delete fileName
  | .forget directory, cache => cache.forget directory
  | .search directory, cache => (cache.search view directory).val
  | .visibleFrom fileName rootDirectory, cache =>
    (cache.visibleFrom view fileName rootDirectory).val.2

/-- The request is about a path that begins with `/`; a file that is read anew or deleted is, in
some spelling, the manifest of a directory. -/
def IsRooted (caseSensitive : Bool) : Request → Prop
  | .refresh fileName | .delete fileName =>
    ∃ directory, Path.IsSlashRooted directory ∧
      Path.canonical fileName "/" caseSensitive =
        Path.canonical (Path.join directory manifestName) "/" caseSensitive
  | .forget directory | .search directory => Path.IsSlashRooted directory
  | .visibleFrom fileName _ => Path.IsSlashRooted fileName

end Request

/-- The cache after requests each of which is given the file system as it is at that moment. -/
def through (history : List (FileView × Request)) (cache : ManifestCache) : ManifestCache :=
  history.foldl (fun cache call => call.2.run call.1 cache) cache

variable {cache before middle after : ManifestCache} {directory other : String}

/-! ## Keys of manifests and of directories -/

/-- The key of a directory's manifest lies in the key of the directory. -/
theorem directory_manifestKey_of_isSlashRooted (h : Path.IsSlashRooted directory) :
    Path.directory (cache.manifestKey directory) = cache.key directory :=
  Path.directory_canonical_of_isSlashRooted h cache.caseSensitive

/-- Manifests of two directories share a key exactly when the directories do. -/
theorem manifestKey_eq_iff (h : Path.IsSlashRooted directory) (hother : Path.IsSlashRooted other) :
    cache.manifestKey directory = cache.manifestKey other ↔
      cache.key directory = cache.key other := by
  constructor
  · intro hsame
    rw [← directory_manifestKey_of_isSlashRooted h, hsame,
      directory_manifestKey_of_isSlashRooted hother]
  · intro hsame
    unfold manifestKey key at hsame ⊢
    rw [Path.canonical_join_of_isSlashRooted h, Path.canonical_join_of_isSlashRooted hother, hsame]

/-! ## Settling and forgetting -/

/-- The cache after a manifest, given by its key, was found or not. -/
def settle (file : String) (found : Option Manifest) (cache : ManifestCache) : ManifestCache :=
  match found with
  | some manifest =>
    { cache with
      manifests := cache.manifests.insert file manifest
      absent := cache.absent.filter (· ≠ Path.directory file) }
  | none =>
    ({ cache with manifests := cache.manifests.erase file }).markAbsent (Path.directory file)

/-- A re-read settles the manifest with what is read. -/
theorem refresh_eq_settle (view : FileView) (fileName : String) (cache : ManifestCache) :
    cache.refresh view fileName =
      cache.settle (cache.key fileName) (Manifest.read? view fileName) := rfl

/-- A deletion settles the manifest with nothing. -/
theorem delete_eq_settle (fileName : String) (cache : ManifestCache) :
    cache.delete fileName = cache.settle (cache.key fileName) none := rfl

/-- An unknown directory has no manifest that could be erased. -/
theorem markAbsent_eq_settle (h : Path.IsSlashRooted directory)
    (hunknown : ¬cache.Knows directory) :
    cache.markAbsent (cache.key directory) = cache.settle (cache.manifestKey directory) none := by
  rw [knows_iff, not_or, Option.not_isSome_iff_eq_none] at hunknown
  unfold settle
  dsimp only
  rw [directory_manifestKey_of_isSlashRooted h, Table.erase_of_get?_eq_none hunknown.1]

/-- Settling a manifest leaves the case of the file names alone. -/
theorem caseSensitive_settle (file : String) (found : Option Manifest) (cache : ManifestCache) :
    (cache.settle file found).caseSensitive = cache.caseSensitive := by
  cases found <;> rfl

/-- After settling a manifest its directory has what was found, and the other directories have what
they had. -/
theorem inDirectory?_settle (file : String) (found : Option Manifest) (cache : ManifestCache)
    (directory : String) :
    (cache.settle file found).inDirectory? directory =
      if file = cache.manifestKey directory then found else cache.inDirectory? directory := by
  cases found with
  | some manifest => exact Table.get?_insert cache.manifests _ _ manifest
  | none => exact Table.get?_erase cache.manifests _ _

/-- After settling a manifest its directory is marked exactly when nothing was found, and the others
as before. -/
theorem mem_absent_settle (file : String) (found : Option Manifest) (cache : ManifestCache)
    (directoryKey : String) :
    directoryKey ∈ (cache.settle file found).absent ↔
      if directoryKey = Path.directory file then found = none else directoryKey ∈ cache.absent := by
  cases found with
  | some manifest =>
    simp only [settle, List.mem_filter, decide_eq_true_eq]
    split <;> simp_all
  | none =>
    simp only [settle, markAbsent, mem_insertNew]
    split <;> simp_all

/-- A directory's presence is read off its manifest first and the marks second. -/
theorem presence_eq (cache : ManifestCache) (directory : String) :
    cache.presence directory =
      if (cache.inDirectory? directory).isSome then .present
      else if cache.key directory ∈ cache.absent then .absent
      else .unknown := rfl

/-- Settling a directory decides its presence and that of no other. -/
theorem presence_settle (found : Option Manifest) (h : Path.IsSlashRooted directory)
    (hother : Path.IsSlashRooted other) :
    (cache.settle (cache.manifestKey other) found).presence directory =
      if cache.key directory = cache.key other then
        if found.isSome then .present else .absent
      else cache.presence directory := by
  have hkey : (cache.settle (cache.manifestKey other) found).key directory = cache.key directory :=
    key_of_caseSensitive (caseSensitive_settle _ found cache) directory
  simp only [presence_eq, inDirectory?_settle, mem_absent_settle, hkey,
    manifestKey_eq_iff hother h, directory_manifestKey_of_isSlashRooted hother]
  by_cases hsame : cache.key directory = cache.key other
  · cases found <;> simp [hsame]
  · simp [hsame, Ne.symm hsame]

/-- A directory is known once its manifest is settled. -/
theorem knows_settle (found : Option Manifest) (h : Path.IsSlashRooted directory) :
    (cache.settle (cache.manifestKey directory) found).Knows directory := by
  unfold Knows
  rw [presence_settle found h h, if_pos rfl]
  cases found <;> simp

/-- Forgetting a directory makes it unknown and touches no other. -/
theorem presence_forget (h : Path.IsSlashRooted directory) (hother : Path.IsSlashRooted other) :
    (cache.forget other).presence directory =
      if cache.key directory = cache.key other then .unknown else cache.presence directory := by
  have hin : (cache.forget other).inDirectory? directory =
      if cache.manifestKey other = cache.manifestKey directory then none
      else cache.inDirectory? directory :=
    Table.get?_erase cache.manifests _ _
  have habsent : cache.key directory ∈ (cache.forget other).absent ↔
      cache.key directory ∈ cache.absent ∧ cache.key directory ≠ cache.key other := by
    unfold forget
    simp
  have hkey : (cache.forget other).key directory = cache.key directory := rfl
  simp only [presence_eq, hin, hkey, habsent, manifestKey_eq_iff hother h]
  by_cases hsame : cache.key directory = cache.key other
  · simp [hsame]
  · simp [hsame, Ne.symm hsame]

/-! ## Requests that advance -/

/-- No directory is recorded as absent while its manifest is known. -/
def Exclusive (cache : ManifestCache) : Prop :=
  ∀ directory, Path.IsSlashRooted directory →
    ¬((cache.inDirectory? directory).isSome ∧ cache.key directory ∈ cache.absent)

/-- What a cache does that only settles directories. -/
structure Advances (before after : ManifestCache) : Prop where
  caseSensitive : after.caseSensitive = before.caseSensitive
  exclusive : before.Exclusive → after.Exclusive
  knows : ∀ directory, Path.IsSlashRooted directory → before.Knows directory →
    after.Knows directory

/-- A cache advances by nothing to itself. -/
theorem Advances.refl (cache : ManifestCache) : cache.Advances cache :=
  ⟨rfl, id, fun _ _ h => h⟩

/-- Advancing twice is advancing. -/
theorem Advances.trans (first : before.Advances middle) (second : middle.Advances after) :
    before.Advances after where
  caseSensitive := second.caseSensitive.trans first.caseSensitive
  exclusive h := second.exclusive (first.exclusive h)
  knows directory hrooted h := second.knows directory hrooted (first.knows directory hrooted h)

/-- Settling a manifest marks no directory whose manifest is known. -/
theorem Exclusive.settle (h : cache.Exclusive) (found : Option Manifest)
    (hother : Path.IsSlashRooted other) :
    (cache.settle (cache.manifestKey other) found).Exclusive := by
  intro directory hdirectory hboth
  rw [key_of_caseSensitive (caseSensitive_settle _ found cache), inDirectory?_settle,
    mem_absent_settle, directory_manifestKey_of_isSlashRooted hother] at hboth
  simp only [manifestKey_eq_iff hother hdirectory] at hboth
  by_cases hsame : cache.key directory = cache.key other
  · simp only [hsame, if_true] at hboth
    rw [hboth.2] at hboth
    exact absurd hboth.1 (by simp)
  · rw [if_neg (Ne.symm hsame), if_neg hsame] at hboth
    exact h directory hdirectory hboth

/-- Settling a manifest advances the cache. -/
theorem advances_settle (cache : ManifestCache) (found : Option Manifest)
    (hother : Path.IsSlashRooted other) :
    cache.Advances (cache.settle (cache.manifestKey other) found) := by
  refine ⟨caseSensitive_settle _ found cache, fun h => h.settle found hother, ?_⟩
  intro directory hdirectory hknows
  unfold Knows at hknows ⊢
  rw [presence_settle found hdirectory hother]
  split
  · split <;> simp
  · exact hknows

/-! ## Looking at unknown directories -/

/-- The cache after a manifest was looked for: it is settled by what was found. -/
def settleProbed (view : FileView) (cache : ManifestCache) (probed : String) : ManifestCache :=
  cache.settle (cache.key probed)
    (if view.fileExists probed then Manifest.read? view probed else none)

/-- The second cache comes from the first by looking for manifests, one after the other and each in
a directory that is unknown by then. -/
inductive Explores (view : FileView) : ManifestCache → List String → ManifestCache → Prop where
  | rest (cache : ManifestCache) : Explores view cache [] cache
  | look {before after : ManifestCache} {probes : List String} (directory : String)
      (hrooted : Path.IsSlashRooted directory) (hunknown : ¬before.Knows directory)
      (hnext : Explores view (before.settleProbed view (Path.join directory manifestName)) probes
        after) :
      Explores view before (Path.join directory manifestName :: probes) after

/-- Two explorations one after the other are one, with the probes of both. -/
theorem Explores.trans {view : FileView} {first second : List String}
    (h : Explores view before first middle) (hsecond : Explores view middle second after) :
    Explores view before (first ++ second) after := by
  induction h with
  | rest => exact hsecond
  | look directory hrooted hunknown _ ih => exact .look directory hrooted hunknown (ih hsecond)

/-- Exploring advances. -/
theorem Explores.advances {view : FileView} {probes : List String}
    (h : Explores view before probes after) : before.Advances after := by
  induction h with
  | rest cache => exact .refl cache
  | look directory hrooted _ _ ih => exact (advances_settle _ _ hrooted).trans ih

/-- A search along a chain explores the directories it probes. -/
theorem explores_searchChain (view : FileView) {directories : List String}
    (hrooted : ∀ directory ∈ directories, Path.IsSlashRooted directory) (cache : ManifestCache) :
    Explores view cache (searchChain view directories cache).probes
      (searchChain view directories cache).val := by
  induction directories generalizing cache with
  | nil => exact .rest cache
  | cons directory rest ih =>
    have hhere := hrooted directory List.mem_cons_self
    have hrest := fun other hother => hrooted other (List.mem_cons_of_mem directory hother)
    rw [searchChain]
    split
    · exact .rest cache
    · rename_i hunknown
      rw [Probed.probes_bind, Probed.val_bind, FileView.probe, Probed.val_probe,
        Probed.probes_probe, List.singleton_append]
      refine .look directory hhere hunknown ?_
      unfold settleProbed
      split
      · exact ih hrest _
      · rw [markAbsent_eq_settle hhere hunknown]
        exact ih hrest _

/-- A search upward explores the directories it probes. -/
theorem explores_search (view : FileView) (h : Path.IsSlashRooted directory)
    (cache : ManifestCache) :
    Explores view cache (cache.search view directory).probes
      (cache.search view directory).val :=
  explores_searchChain view (fun _ hother => Path.isSlashRooted_of_mem_ancestors h hother) cache

/-- Looking along directories explores those it probes. -/
theorem explores_visibleAlong (view : FileView) (rootDirectory : Option String)
    {directories : List String}
    (hrooted : ∀ directory ∈ directories, Path.IsSlashRooted directory) (cache : ManifestCache) :
    Explores view cache (visibleAlong view rootDirectory directories cache).probes
      (visibleAlong view rootDirectory directories cache).val.2 := by
  induction directories generalizing cache with
  | nil => exact .rest cache
  | cons directory rest ih =>
    have hrest := fun other hother => hrooted other (List.mem_cons_of_mem directory hother)
    rw [visibleAlong]
    split
    all_goals rw [Probed.probes_bind, Probed.val_bind]
    case' isTrue =>
      apply (explores_search view (hrooted directory List.mem_cons_self) cache).trans
      generalize (cache.search view directory).val = seen
    -- With the directory looked at, the rest is the same in both cases.
    all_goals
      dsimp only [Probed.probes_pure, Probed.val_pure, List.nil_append]
      split
      · exact .rest _
      · rw [Probed.probes_bind, Probed.probes_pure, List.append_nil]
        exact ih hrest _

/-- Looking at the directories above a file explores those it probes. -/
theorem explores_visibleFrom (view : FileView) {fileName : String}
    (rootDirectory : Option String) (h : Path.IsSlashRooted fileName) (cache : ManifestCache) :
    Explores view cache (cache.visibleFrom view fileName rootDirectory).probes
      (cache.visibleFrom view fileName rootDirectory).val.2 := by
  apply explores_visibleAlong
  intro directory hdirectory
  exact Path.isSlashRooted_of_mem_ancestors (Path.isSlashRooted_directory h) hdirectory

/-- A request advances, or it forgets a directory. -/
theorem Request.advances_or_forget (view : FileView) {request : Request}
    (h : request.IsRooted cache.caseSensitive) :
    cache.Advances (request.run view cache) ∨
      ∃ forgotten, Path.IsSlashRooted forgotten ∧ request = .forget forgotten := by
  cases request with
  | refresh fileName =>
    obtain ⟨directory, hdirectory, hkey⟩ := h
    have hkey : cache.key fileName = cache.manifestKey directory := hkey
    refine Or.inl ?_
    rw [run, refresh_eq_settle, hkey]
    exact advances_settle cache _ hdirectory
  | delete fileName =>
    obtain ⟨directory, hdirectory, hkey⟩ := h
    have hkey : cache.key fileName = cache.manifestKey directory := hkey
    refine Or.inl ?_
    rw [run, delete_eq_settle, hkey]
    exact advances_settle cache none hdirectory
  | forget directory => exact Or.inr ⟨directory, h, rfl⟩
  | search directory => exact Or.inl (explores_search view h cache).advances
  | visibleFrom fileName rootDirectory =>
    exact Or.inl (explores_visibleFrom view rootDirectory h cache).advances

/-- Forgetting a directory marks none whose manifest is known. -/
theorem Exclusive.forget (h : cache.Exclusive) (hother : Path.IsSlashRooted other) :
    (cache.forget other).Exclusive := by
  intro directory hdirectory hboth
  have hpresent := (presence_eq_present_iff (cache.forget other) directory).2 hboth.1
  rw [presence_forget hdirectory hother] at hpresent
  split at hpresent
  · exact absurd hpresent (by simp)
  · exact h directory hdirectory
      ⟨(presence_eq_present_iff cache directory).1 hpresent, (List.mem_filter.1 hboth.2).1⟩

/-- Every request keeps manifests and absences apart. -/
theorem Exclusive.run (h : cache.Exclusive) (view : FileView) {request : Request}
    (hrooted : request.IsRooted cache.caseSensitive) :
    (request.run view cache).Exclusive ∧
      (request.run view cache).caseSensitive = cache.caseSensitive := by
  rcases request.advances_or_forget view hrooted with hadvances | ⟨forgotten, hforgotten, rfl⟩
  · exact ⟨hadvances.exclusive h, hadvances.caseSensitive⟩
  · exact ⟨h.forget hforgotten, rfl⟩

/-- Through any history no directory is marked while its manifest is known, and the case stays. -/
theorem Exclusive.through (h : cache.Exclusive) {history : List (FileView × Request)}
    (hrooted : ∀ call ∈ history, call.2.IsRooted cache.caseSensitive) :
    (cache.through history).Exclusive ∧
      (cache.through history).caseSensitive = cache.caseSensitive := by
  induction history generalizing cache with
  | nil => exact ⟨h, rfl⟩
  | cons call rest ih =>
    obtain ⟨hexclusive, hcase⟩ := h.run call.1 (hrooted call List.mem_cons_self)
    have hrest : ∀ later ∈ rest, later.2.IsRooted (call.2.run call.1 cache).caseSensitive := by
      intro later hlater
      rw [hcase]
      exact hrooted later (List.mem_cons_of_mem call hlater)
    obtain ⟨hfinal, hfinalCase⟩ := ih hexclusive hrest
    exact ⟨hfinal, hfinalCase.trans hcase⟩

/-- Whatever was requested of a new cache about paths that begin with `/`, with the file system
changing in between: no directory is recorded as absent while its manifest is known; a known
directory becomes unknown only if a directory of its key is forgotten, which changes the presence of
no other; and reading the manifest of a directory anew leaves it present exactly if the manifest can
be read, and absent otherwise. -/
theorem presence_through (caseSensitive : Bool) (history : List (FileView × Request))
    (hrooted : ∀ call ∈ history, call.2.IsRooted caseSensitive) :
    let cache := through history { caseSensitive }
    (∀ directory, Path.IsSlashRooted directory →
      ¬((cache.inDirectory? directory).isSome ∧ cache.key directory ∈ cache.absent)) ∧
    (∀ view (request : Request) directory, request.IsRooted caseSensitive →
      Path.IsSlashRooted directory →
      cache.presence directory ≠ .unknown →
      (request.run view cache).presence directory = .unknown →
      ∃ forgotten, request = .forget forgotten ∧ cache.key forgotten = cache.key directory) ∧
    (∀ forgotten directory, Path.IsSlashRooted forgotten → Path.IsSlashRooted directory →
      cache.key directory ≠ cache.key forgotten →
      (cache.forget forgotten).presence directory = cache.presence directory) ∧
    (∀ view fileName directory, Path.IsSlashRooted directory →
      cache.key fileName = cache.manifestKey directory →
      (cache.refresh view fileName).presence directory =
        if (Manifest.read? view fileName).isSome then .present else .absent) := by
  intro cache
  have hstart : ({ caseSensitive } : ManifestCache).Exclusive := by
    intro directory _ hboth
    exact absurd hboth.2 (by simp)
  obtain ⟨hexclusive, hcase⟩ := hstart.through hrooted
  refine ⟨hexclusive, ?_, ?_, ?_⟩
  · intro view request directory hrequest hdirectory hknown hunknown
    have hcache : cache.caseSensitive = caseSensitive := hcase
    rw [← hcache] at hrequest
    rcases request.advances_or_forget view hrequest with hadvances | ⟨forgotten, hforgotten, rfl⟩
    · exact absurd hunknown (hadvances.knows directory hdirectory hknown)
    · refine ⟨forgotten, rfl, ?_⟩
      rw [Request.run, presence_forget hdirectory hforgotten] at hunknown
      split at hunknown
      · rename_i hsame
        exact hsame.symm
      · exact absurd hunknown hknown
  · intro forgotten directory hforgotten hdirectory hne
    rw [presence_forget hdirectory hforgotten, if_neg hne]
  · intro view fileName directory hdirectory hfile
    rw [refresh_eq_settle, hfile, presence_settle _ hdirectory hdirectory, if_pos rfl]

/-- A directory was found without a manifest; then one is written there, and it is reported in other
letters. -/
theorem presence_through_reported :
    let written := ({ caseSensitive := false } : MemoryTree).writeFile "/app/package.json" "{}"
    let cache := through [(({ caseSensitive := false } : MemoryTree).view, .search "/App/src")]
      { caseSensitive := false }
    cache.presence "/app" = .absent ∧
      (cache.refresh written.view "/APP/Package.json").presence "/app/." = .present := by
  have hlaws := presence_through false
    [(({ caseSensitive := false } : MemoryTree).view, .search "/App/src")] (by
      intro call hcall
      rw [List.mem_singleton.1 hcall]
      show Path.IsSlashRooted "/App/src"
      decide)
  refine ⟨by decide +kernel, ?_⟩
  rw [hlaws.2.2.2 _ _ "/app/." (by decide) (by decide +kernel), if_pos (by decide +kernel)]

end ManifestCache

end AutoImport
