import AutoImport.Proofs.Manifests.PresenceStates
import AutoImport.Proofs.Path.SlashKeys

/-!
# Searches that mirror a tree

Whatever a cache knows about the directories above a file, the manifests visible from the file are
those that are read on the tree, one directory after the other, if only what is known is so on the
tree (`visibleFrom_respells`).  Which of the two loops came upon a directory, and from which file,
leaves no trace in the answer but the spelling of the place (`Manifest.Respells`).

On a tree, exploring is reading manifests anew, and reading one keeps right what is known about
every directory, in whatever way it is spelled (`Explores.mirrorsAt`).  After the walk all
directories on the way are known, so what was seen is what is on the tree.
-/

set_option autoImplicit false

namespace AutoImport

/-- The first manifest is the second one as it is read under another spelling of its file name. -/
structure Manifest.Respells (tree : MemoryTree) (seen onDisk : Manifest) : Prop where
  fileName : tree.key seen.fileName = tree.key onDisk.fileName
  directory : seen.directory = Path.directory seen.fileName
  contents : seen.contents = onDisk.contents

namespace Manifest

variable {tree : MemoryTree} {first second : String} {manifest : Manifest}

/-- What can be read under one spelling of a file name can be read under every other. -/
theorem respells_read? (hkey : tree.key first = tree.key second)
    (h : read? tree.view first = some manifest) :
    ∃ onDisk, read? tree.view second = some onDisk ∧ manifest.Respells tree onDisk := by
  have hcontents := contents_read?_of_key_eq hkey
  rw [h, Option.map_some] at hcontents
  obtain ⟨onDisk, honDisk, hsame⟩ := Option.map_eq_some_iff.1 hcontents.symm
  obtain ⟨hfile, hdirectory⟩ := place_of_read? h
  refine ⟨onDisk, honDisk, ?_, ?_, hsame.symm⟩
  · rw [hfile, (place_of_read? honDisk).1, hkey]
  · rw [hfile, hdirectory]

end Manifest

namespace ManifestCache

/-- What the cache knows about a directory is so on the tree, down to the place of the manifest. -/
structure MirrorsAt (tree : MemoryTree) (cache : ManifestCache) (directory : String) : Prop where
  present : ∀ manifest, cache.inDirectory? directory = some manifest →
    ∃ onDisk, Manifest.read? tree.view (Path.join directory manifestName) = some onDisk ∧
      manifest.Respells tree onDisk
  absent : cache.presence directory = .absent →
    Manifest.read? tree.view (Path.join directory manifestName) = none

/-- The directories in order, as far as `rootDirectory`. -/
def upTo (key : String → String) (rootDirectory : Option String) : List String → List String
  | [] => []
  | directory :: rest =>
    if rootDirectory.any fun root => key root = key directory then [directory]
    else directory :: upTo key rootDirectory rest

variable {tree : MemoryTree} {cache before after : ManifestCache} {directory other : String}

/-- An empty cache mirrors any tree everywhere. -/
theorem mirrorsAt_empty (tree : MemoryTree) (caseSensitive : Bool) (directory : String) :
    ({ caseSensitive } : ManifestCache).MirrorsAt tree directory := by
  refine ⟨fun manifest h => absurd h (by simp [inDirectory?, Table.get?, Table.lookupIn]), ?_⟩
  intro habsent
  exact absurd ((presence_eq_absent_iff _ _).1 habsent).2 (by simp)

/-! ## Reading anew -/

/-- Over a tree, settling a probed manifest is re-reading it. -/
theorem settleProbed_eq_refresh (tree : MemoryTree) (probed : String) (cache : ManifestCache) :
    cache.settleProbed tree.view probed = cache.refresh tree.view probed := by
  unfold settleProbed
  rw [refresh_eq_settle]
  split
  · rfl
  · rename_i hmissing
    rw [Manifest.read?_of_not_fileExists (Bool.eq_false_iff.2 hmissing)]

/-- Reading a manifest anew keeps right what is known about every directory. -/
theorem MirrorsAt.refresh (h : cache.MirrorsAt tree directory)
    (hcase : cache.caseSensitive = tree.caseSensitive) (hother : Path.IsSlashRooted other) :
    (cache.refresh tree.view (Path.join other manifestName)).MirrorsAt tree directory := by
  have hsame : cache.manifestKey other = cache.manifestKey directory →
      tree.key (Path.join other manifestName) = tree.key (Path.join directory manifestName) := by
    intro hkey
    rw [← key_eq hcase, ← key_eq hcase]
    exact hkey
  have hnone : cache.manifestKey other = cache.manifestKey directory →
      Manifest.read? tree.view (Path.join other manifestName) = none →
      Manifest.read? tree.view (Path.join directory manifestName) = none :=
    fun hkey hmissing => Manifest.read?_eq_none_of_key_eq (hsame hkey) hmissing
  have hfile : cache.key (Path.join other manifestName) = cache.manifestKey other := rfl
  rw [refresh_eq_settle, hfile]
  constructor
  · intro manifest hmanifest
    rw [inDirectory?_settle] at hmanifest
    split at hmanifest
    · rename_i hkey
      exact Manifest.respells_read? (hsame hkey) hmanifest
    · exact h.present manifest hmanifest
  · intro habsent
    rw [presence_eq_absent_iff, inDirectory?_settle, mem_absent_settle,
      key_of_caseSensitive (caseSensitive_settle _ _ cache),
      directory_manifestKey_of_isSlashRooted hother] at habsent
    obtain ⟨hin, hmem⟩ := habsent
    by_cases hkey : cache.manifestKey other = cache.manifestKey directory
    · rw [if_pos hkey] at hin
      exact hnone hkey hin
    · rw [if_neg hkey] at hin
      by_cases hdirectory : cache.key directory = cache.key other
      · -- Directories of one key that begins with `/` have one manifest.
        have hslash : Path.IsSlashRooted (cache.key directory) := by
          rw [hdirectory]
          exact Path.isSlashRooted_canonical hother cache.caseSensitive
        have hmanifest : cache.manifestKey other = cache.manifestKey directory := by
          unfold manifestKey key at *
          rw [Path.canonical_join_of_slashKey hslash, hdirectory,
            Path.canonical_join_of_isSlashRooted hother]
        exact absurd hmanifest hkey
      · rw [if_neg hdirectory] at hmem
        exact h.absent ((presence_eq_absent_iff cache directory).2 ⟨hin, hmem⟩)

/-- Exploring a tree keeps right what is known about every directory. -/
theorem Explores.mirrorsAt {probes : List String} (h : Explores tree.view before probes after)
    (hcase : before.caseSensitive = tree.caseSensitive)
    (hmirrors : before.MirrorsAt tree directory) :
    after.MirrorsAt tree directory := by
  induction h with
  | rest => exact hmirrors
  | @look before after probes other hother _ _ ih =>
    rw [settleProbed_eq_refresh] at ih
    apply ih
    · rw [caseSensitive_refresh, hcase]
    · exact hmirrors.refresh hcase hother

/-! ## What is seen -/

/-- A walk as far as a root directory is a walk along the directories up to it. -/
theorem visibleAlong_eq_upTo (view : FileView) (rootDirectory : Option String)
    {directories : List String}
    (hplain : ∀ directory ∈ directories, Path.IsPlain directory) (cache : ManifestCache) :
    (visibleAlong view rootDirectory directories cache).val =
      (visibleAlong view none (upTo cache.key rootDirectory directories) cache).val := by
  induction directories generalizing cache with
  | nil => rfl
  | cons directory rest ih =>
    have hhere := hplain directory List.mem_cons_self
    have hkey : (cache.lookedAt view directory).key = cache.key :=
      funext (key_of_caseSensitive (retains_lookedAt view hhere cache).caseSensitive)
    have hrest := ih (fun other hother => hplain other (List.mem_cons_of_mem directory hother))
      (cache.lookedAt view directory)
    rw [visibleAlong_cons, upTo]
    dsimp only
    rw [hrest, hkey]
    split
    · rw [visibleAlong_cons]
      simp [visibleAlong]
    · rw [visibleAlong_cons]
      simp

/-- Cutting a list of directories at the root keeps only directories of the list. -/
theorem mem_of_mem_upTo {key : String → String} {rootDirectory : Option String}
    {directories : List String} (h : directory ∈ upTo key rootDirectory directories) :
    directory ∈ directories := by
  fun_induction upTo key rootDirectory directories with
  | case1 => exact h
  | case2 first rest _ => exact List.mem_cons.2 (Or.inl (List.mem_singleton.1 h))
  | case3 first rest _ ih => exact List.mem_cons.2 ((List.mem_cons.1 h).imp id ih)

/-- What a cache that mirrors the tree shows of known directories is on the tree, in order. -/
theorem shown_respells {directories : List String}
    (hknows : ∀ directory ∈ directories, cache.Knows directory)
    (hmirrors : ∀ directory ∈ directories, cache.MirrorsAt tree directory) :
    List.Forall₂ (Manifest.Respells tree) (cache.shown directories) (onTree tree directories) := by
  induction directories with
  | nil => exact .nil
  | cons directory rest ih =>
    have hrest := ih (fun other hother => hknows other (List.mem_cons_of_mem directory hother))
      (fun other hother => hmirrors other (List.mem_cons_of_mem directory hother))
    have hhere := hmirrors directory List.mem_cons_self
    unfold shown onTree at hrest ⊢
    rw [List.flatMap_cons, List.filterMap_cons]
    cases hin : cache.inDirectory? directory with
    | some manifest =>
      obtain ⟨onDisk, honDisk, hrespells⟩ := hhere.present manifest hin
      rw [honDisk]
      exact .cons hrespells hrest
    | none =>
      have habsent : cache.presence directory = .absent := by
        cases hpresence : cache.presence directory with
        | absent => rfl
        | unknown => exact absurd hpresence (hknows directory List.mem_cons_self)
        | present =>
          rw [presence_eq_present_iff, hin] at hpresence
          exact absurd hpresence (by simp)
      rw [hhere.absent habsent]
      exact hrest

/-- If what a cache knows about the directories above a file is so on the tree, the manifests
visible from the file are, up to the spelling of their places, those that are read on the tree in
these directories, nearest first, as far as the root directory.  What was right about a directory is
right afterwards. -/
theorem visibleFrom_respells {fileName : String} (rootDirectory : Option String)
    (hcase : cache.caseSensitive = tree.caseSensitive) (hnormal : Path.IsNormal fileName)
    (hslash : Path.IsSlashRooted fileName)
    (hmirrors : ∀ directory ∈ Path.ancestors (Path.directory fileName),
      cache.MirrorsAt tree directory) :
    let seen := (cache.visibleFrom tree.view fileName rootDirectory).val
    List.Forall₂ (Manifest.Respells tree) seen.1
      (onTree tree
        (upTo tree.key rootDirectory (Path.ancestors (Path.directory fileName)))) ∧
    ∀ directory, cache.MirrorsAt tree directory → seen.2.MirrorsAt tree directory := by
  intro seen
  have hexplores := explores_visibleFrom tree.view rootDirectory hslash cache
  have hkept : ∀ directory, cache.MirrorsAt tree directory → seen.2.MirrorsAt tree directory :=
    fun directory h => hexplores.mirrorsAt hcase h
  refine ⟨?_, hkept⟩
  have hplain : ∀ directory ∈ Path.ancestors (Path.directory fileName), Path.IsPlain directory :=
    fun directory => Path.isPlain_of_mem_ancestors
      (Path.isPlain_directory_of_isSlashRooted hnormal hslash)
  have hkey : tree.key = cache.key := funext fun path => (key_eq hcase path).symm
  have hseen : seen = (visibleAlong tree.view none
      (upTo tree.key rootDirectory (Path.ancestors (Path.directory fileName))) cache).val := by
    rw [hkey]
    exact visibleAlong_eq_upTo tree.view rootDirectory hplain cache
  obtain ⟨-, hknows, hshown⟩ := visibleAlong_known tree.view
    (fun directory h => hplain directory (mem_of_mem_upTo h)) cache
  rw [← hseen] at hknows hshown
  rw [hshown]
  exact shown_respells hknows fun directory h =>
    hkept directory (hmirrors directory (mem_of_mem_upTo h))

/-- The directory of the project was looked at before, in other letters; the directory below it was
not. -/
theorem visibleFrom_respells_after_search :
    let tree := ({ caseSensitive := false } : MemoryTree).writeFile "/app/package.json" "{}"
    let cache := (({ caseSensitive := false } : ManifestCache).search tree.view "/APP").val
    cache.presence "/app" = .present ∧ cache.presence "/app/src" = .unknown ∧
      (onTree tree ["/app/src", "/app"]).length = 1 ∧
      List.Forall₂ (Manifest.Respells tree)
        (cache.visibleFrom tree.view "/app/src/main.ts" (some "/App")).val.1
        (onTree tree ["/app/src", "/app"]) := by
  intro tree cache
  have hexplores := explores_search tree.view (show Path.IsSlashRooted "/APP" by decide)
    { caseSensitive := false }
  have hnormal : Path.IsNormal "/app/src/main.ts" :=
    Path.isNormal_of_normalize_eq (by decide +kernel)
  have hseen := visibleFrom_respells (some "/App") hexplores.advances.caseSensitive hnormal
    (by decide) fun directory _ => hexplores.mirrorsAt rfl (mirrorsAt_empty tree false directory)
  have hup : upTo tree.key (some "/App")
      (Path.ancestors (Path.directory "/app/src/main.ts")) = ["/app/src", "/app"] := by
    decide +kernel
  rw [hup] at hseen
  exact ⟨by decide +kernel, by decide +kernel, by decide +kernel, hseen.1⟩

end ManifestCache

end AutoImport
