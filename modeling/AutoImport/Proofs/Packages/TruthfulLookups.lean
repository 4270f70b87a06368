import AutoImport.Proofs.Files.ReadingByKey
import AutoImport.Proofs.Path.PackagePaths

/-!
# Truthful lookups

What a lookup remembers is a partial function on manifest files.  It is truthful when it is part of
a fixed function, the answers.  As long as every directory that is looked at is ready, that is,
either remembered or answered by the file system as the fixed function says, a truthful lookup gives
the fixed answers and stays truthful (`resolve_of_ready`).

For a tree and the dependencies of a project there is such a function, `answerOn`.  The answer for
a file is the manifest found in its directory.  Only the two spellings of a drive may disagree about
that, and there the first dependency that is looked for in one of them decides.  A run goes through
the dependencies in order, so whatever it looks at is ready (`ready_of_mem_candidates`).
-/

set_option autoImplicit false

namespace AutoImport.PackageLookup

/-! ## Lookups with fixed answers -/

/-- Everything remembered is as the answers say. -/
def Truthful (answer : String → Option Manifest) (lookup : PackageLookup) : Prop :=
  ∀ fileName manifest, lookup.found.get? fileName = some manifest → manifest = answer fileName

/-- Whether a directory was looked at. -/
def Knows (lookup : PackageLookup) (directory : String) : Prop :=
  (lookup.found.get? (Path.join directory manifestName)).isSome

/-- Looking at the directory gives the fixed answer. -/
def Ready (view : FileView) (answer : String → Option Manifest) (lookup : PackageLookup)
    (directory : String) : Prop :=
  lookup.Knows directory ∨
    (manifestOnDisk view directory).val = answer (Path.join directory manifestName)

/-- Nothing is forgotten. -/
def Grows (before after : PackageLookup) : Prop :=
  ∀ directory, before.Knows directory → after.Knows directory

/-- A lookup that remembers nothing is truthful about any answers. -/
theorem truthful_empty (answer : String → Option Manifest) : Truthful answer {} := by
  intro fileName manifest h
  exact absurd h (by simp [Table.get?, Table.lookupIn])

/-- Growing twice is growing. -/
theorem Grows.trans {first second third : PackageLookup} (h : first.Grows second)
    (h' : second.Grows third) : first.Grows third :=
  fun directory hknows => h' directory (h directory hknows)

variable {view : FileView} {answer : String → Option Manifest} {lookup : PackageLookup}

/-- A directory stays ready as the lookup grows. -/
theorem Ready.grows {after : PackageLookup} {directory : String}
    (h : lookup.Ready view answer directory) (hgrows : lookup.Grows after) :
    after.Ready view answer directory :=
  h.imp (hgrows directory) id

/-- A truthful lookup answers for a ready directory as it should, and remembers that. -/
theorem manifestIn_of_ready {directory : String} (htruthful : lookup.Truthful answer)
    (hready : lookup.Ready view answer directory) :
    (manifestIn view directory lookup).val.1 = answer (Path.join directory manifestName) ∧
      (manifestIn view directory lookup).val.2.Truthful answer ∧
      lookup.Grows (manifestIn view directory lookup).val.2 ∧
      (manifestIn view directory lookup).val.2.Knows directory := by
  unfold manifestIn
  dsimp only
  cases hfound : lookup.found.get? (Path.join directory manifestName) with
  | some remembered =>
    refine ⟨htruthful _ _ hfound, htruthful, fun _ hknows => hknows, ?_⟩
    show (lookup.found.get? (Path.join directory manifestName)).isSome = true
    rw [hfound]
    rfl
  | none =>
    have hdisk : (manifestOnDisk view directory).val =
        answer (Path.join directory manifestName) := by
      rcases hready with hknows | hdisk
      · unfold Knows at hknows
        rw [hfound] at hknows
        exact absurd hknows (by simp)
      · exact hdisk
    rw [Probed.val_bind]
    refine ⟨hdisk, ?_, ?_, ?_⟩
    · intro fileName manifest hget
      simp only [Probed.val_pure, Table.get?_insert] at hget
      split at hget
      · rename_i hfile
        rw [← hfile, ← hdisk]
        exact (Option.some.inj hget).symm
      · exact htruthful fileName manifest hget
    · intro other hknows
      show ((lookup.found.insert _ _).get? _).isSome = true
      rw [Table.get?_insert]
      split
      · rfl
      · exact hknows
    · show ((lookup.found.insert _ _).get? _).isSome = true
      rw [Table.get?_insert, if_pos rfl]
      rfl

/-- The same for a list of directories, of which the first is looked at in any case. -/
theorem firstManifest_of_ready {directories : List String} (htruthful : lookup.Truthful answer)
    (hready : ∀ directory ∈ directories, lookup.Ready view answer directory) :
    (firstManifest view directories lookup).val.1 =
        directories.findSome? (fun directory => answer (Path.join directory manifestName)) ∧
      (firstManifest view directories lookup).val.2.Truthful answer ∧
      lookup.Grows (firstManifest view directories lookup).val.2 ∧
      ∀ directory, directories.head? = some directory →
        (firstManifest view directories lookup).val.2.Knows directory := by
  induction directories generalizing lookup with
  | nil =>
    refine ⟨rfl, htruthful, fun _ hknows => hknows, fun _ h => ?_⟩
    exact absurd h (by simp)
  | cons directory rest ih =>
    obtain ⟨hanswer, htruthful', hgrows, hknows⟩ :=
      manifestIn_of_ready htruthful (hready directory List.mem_cons_self)
    rw [firstManifest, Probed.val_bind, List.findSome?_cons, ← hanswer]
    generalize (manifestIn view directory lookup).val = looked at htruthful' hgrows hknows ⊢
    obtain ⟨found, after⟩ := looked
    cases found with
    | some manifest =>
      refine ⟨rfl, htruthful', hgrows, fun first hfirst => ?_⟩
      rw [← Option.some.inj hfirst]
      exact hknows
    | none =>
      obtain ⟨hrest, htruthful'', hgrows', -⟩ := ih htruthful' fun other hother =>
        (hready other (List.mem_cons_of_mem directory hother)).grows hgrows
      refine ⟨hrest, htruthful'', hgrows.trans hgrows', fun first hfirst => ?_⟩
      rw [← Option.some.inj hfirst]
      exact hgrows' directory hknows

/-- The answer for a package, as seen from a directory. -/
def resolution (answer : String → Option Manifest) (packageName directory : String) :
    Option Manifest :=
  (candidates packageName directory).findSome? fun candidate =>
    answer (Path.join candidate manifestName)

/-- Over ready candidates a truthful lookup resolves a package by the fixed answers, stays truthful,
grows, and knows the first candidate. -/
theorem resolve_of_ready {packageName directory : String} (htruthful : lookup.Truthful answer)
    (hready : ∀ candidate ∈ candidates packageName directory,
      lookup.Ready view answer candidate) :
    (resolve view packageName directory lookup).val.1 = resolution answer packageName directory ∧
      (resolve view packageName directory lookup).val.2.Truthful answer ∧
      lookup.Grows (resolve view packageName directory lookup).val.2 ∧
      ∀ candidate, (candidates packageName directory).head? = some candidate →
        (resolve view packageName directory lookup).val.2.Knows candidate :=
  firstManifest_of_ready htruthful hready

/-! ## The answers of a tree -/

/-- The manifest on disk is read only where the directory and the file exist. -/
theorem manifestOnDisk_val (view : FileView) (directory : String) :
    (manifestOnDisk view directory).val =
      if view.directoryExists directory then
        if view.fileExists (Path.join directory manifestName) then
          Manifest.read? view (Path.join directory manifestName)
        else none
      else none := by
  unfold manifestOnDisk
  dsimp only
  split
  · rw [Probed.val_bind]
    show (if view.fileExists _ = true then _ else _ : Probed _).val = _
    split <;> rfl
  · rfl

/-- A tree answers alike for two directories with one manifest file and one key. -/
theorem manifestOnDisk_of_key_eq {tree : MemoryTree} {first second : String}
    (hfile : Path.join first manifestName = Path.join second manifestName)
    (hkey : tree.key first = tree.key second) :
    (manifestOnDisk tree.view first).val = (manifestOnDisk tree.view second).val := by
  have hexists : tree.view.directoryExists first = tree.view.directoryExists second :=
    MemoryTree.directoryExists_of_key_eq hkey
  rw [manifestOnDisk_val, manifestOnDisk_val, hfile, hexists]

/-- The directory of a manifest file, with the `/` at its end. -/
def withoutName (fileName : String) : String :=
  .ofList (fileName.toList.take (fileName.length - manifestName.length))

/-- The answer of a tree for a manifest file: the manifest found in the first of the names that is
a directory with this manifest file, or else in the directory of the file. -/
def answerOn (tree : MemoryTree) (names : List String) (fileName : String) : Option Manifest :=
  let spelled := names.find? fun name => Path.join name manifestName = fileName
  (manifestOnDisk tree.view (spelled.getD (withoutName fileName))).val

variable {tree : MemoryTree} {names : List String}

/-- The manifest's path is that of its directory, the last name left out, with the name put back. -/
theorem join_withoutName {directory : String} (hne : directory ≠ "") :
    Path.join (withoutName (Path.join directory manifestName)) manifestName =
      Path.join directory manifestName := by
  have hfile := Path.toList_join_manifestName hne
  have hstem : (withoutName (Path.join directory manifestName)).toList =
      Chars.stem directory.toList := by
    unfold withoutName
    rw [String.toList_ofList, ← String.length_toList, ← String.length_toList, hfile,
      List.length_append, Nat.add_sub_cancel, List.take_left]
  have hslash := Chars.slash_mem_stem directory.toList
  have hne' : withoutName (Path.join directory manifestName) ≠ "" := by
    intro hempty
    rw [← hstem, hempty] at hslash
    exact absurd hslash (by simp)
  apply String.toList_inj.1
  rw [Path.toList_join_manifestName hne', hfile, hstem, Chars.stem_stem]

/-- Except at a drive, the answer is what the file system says about the directory. -/
theorem answerOn_of_not_drive {directory : String} (hne : directory ≠ "")
    (hdrive : ¬Path.IsDriveManifest (Path.join directory manifestName)) :
    (manifestOnDisk tree.view directory).val =
      answerOn tree names (Path.join directory manifestName) := by
  -- Whichever directory the answer is taken from, it has this manifest file, hence this key.
  have hsame : ∀ other : String,
      Path.join other manifestName = Path.join directory manifestName →
      (manifestOnDisk tree.view directory).val = (manifestOnDisk tree.view other).val := by
    intro other hother
    exact manifestOnDisk_of_key_eq hother.symm
      (Path.canonical_of_manifest_eq hne hother.symm hdrive tree.caseSensitive)
  unfold answerOn
  dsimp only
  cases hfind : names.find? fun name =>
      Path.join name manifestName = Path.join directory manifestName with
  | none => exact hsame _ (join_withoutName hne)
  | some name =>
    have hfile := List.find?_some hfind
    exact hsame name (of_decide_eq_true hfile)

/-- Of the names that share a manifest file, the first decides. -/
theorem answerOn_of_first {done rest : List String} {name : String}
    (hfirst : ∀ other ∈ done, Path.join other manifestName ≠ Path.join name manifestName) :
    answerOn tree (done ++ name :: rest) (Path.join name manifestName) =
      (manifestOnDisk tree.view name).val := by
  have hnone : (done.find? fun other =>
      Path.join other manifestName = Path.join name manifestName) = none := by
    rw [List.find?_eq_none]
    intro other hother
    simpa using hfirst other hother
  unfold answerOn
  dsimp only
  rw [List.find?_append, hnone, List.find?_cons_of_pos (by simp)]
  rfl

/-! ## Dependencies in order -/

/-- The drives among the packages that were looked for have been looked at. -/
def Covers (lookup : PackageLookup) (directory : String) (done : List String) : Prop :=
  ∀ name ∈ done, ∀ candidate ∈ candidates name directory,
    Path.IsDriveManifest (Path.join candidate manifestName) → lookup.Knows candidate

/-- Drives that are covered stay covered as the lookup grows. -/
theorem Covers.grows {after : PackageLookup} {directory : String} {done : List String}
    (h : lookup.Covers directory done) (hgrows : lookup.Grows after) :
    after.Covers directory done :=
  fun name hname candidate hcandidate hdrive =>
    hgrows candidate (h name hname candidate hcandidate hdrive)

/-- A package that is looked for in a drive is one whose name is that drive. -/
theorem isRooted_of_isDriveManifest {name directory candidate : String}
    (h : candidate ∈ candidates name directory)
    (hdrive : Path.IsDriveManifest (Path.join candidate manifestName)) :
    Path.isRooted (Path.slashed name) = true := by
  obtain ⟨c, hc, hstem⟩ :=
    Path.stem_eq_of_isDriveManifest (ne_empty_of_mem_candidates h) hdrive
  have hrooted := Chars.isRooted_of_stem hc hstem
  rw [isDriveManifest_of_mem_candidates h hdrive, Path.slashed, String.toList_ofList,
    Chars.slashed_slashed] at hrooted
  unfold Path.isRooted Path.slashed
  rw [String.toList_ofList]
  exact hrooted

/-- A drive that was looked at under an earlier name is remembered. -/
theorem Covers.knows {done : List String} {name other directory candidate : String}
    (hcovers : lookup.Covers directory done) (hother : other ∈ done)
    (h : candidate ∈ candidates name directory)
    (hdrive : Path.IsDriveManifest (Path.join candidate manifestName))
    (hsame : Path.join other manifestName = Path.join candidate manifestName) :
    lookup.Knows candidate := by
  have hne := Path.ne_empty_of_manifest_eq (ne_empty_of_mem_candidates h) hsame.symm
  have hotherDrive : Path.IsDriveManifest (Path.join other manifestName) := by
    rw [hsame]
    exact hdrive
  obtain ⟨c, hc, hstem⟩ := Path.stem_eq_of_isDriveManifest hne hotherDrive
  have hrooted : Path.isRooted (Path.slashed other) = true := by
    unfold Path.isRooted Path.slashed
    rw [String.toList_ofList]
    exact Chars.isRooted_of_stem hc hstem
  -- The earlier name was looked for from the same ancestors, and stands for itself there.
  obtain ⟨ancestor, hancestor, -⟩ := List.mem_map.1 h
  have hmem : Path.join (Path.join ancestor packagesName) other ∈ candidates other directory :=
    List.mem_map_of_mem hancestor
  rw [eq_slashed_of_mem_candidates hrooted hmem] at hmem
  have hfile : Path.join (Path.slashed other) manifestName = Path.join candidate manifestName := by
    rw [Path.join_slashed_left, hsame]
  have hslashedDrive : Path.IsDriveManifest (Path.join (Path.slashed other) manifestName) := by
    rw [hfile]
    exact hdrive
  have hknows := hcovers other hother _ hmem hslashedDrive
  unfold Knows at hknows ⊢
  rwa [hfile] at hknows

/-- Whatever the next dependency is looked for in is ready. -/
theorem ready_of_mem_candidates {done rest : List String} {name directory candidate : String}
    (hcovers : lookup.Covers directory done) (h : candidate ∈ candidates name directory) :
    lookup.Ready tree.view (answerOn tree (done ++ name :: rest)) candidate := by
  by_cases hdrive : Path.IsDriveManifest (Path.join candidate manifestName)
  · have hslashed := isDriveManifest_of_mem_candidates h hdrive
    have hfile : Path.join candidate manifestName = Path.join name manifestName := by
      rw [hslashed, Path.join_slashed_left]
    by_cases hearlier : ∃ other ∈ done,
        Path.join other manifestName = Path.join name manifestName
    · obtain ⟨other, hother, hsame⟩ := hearlier
      exact Or.inl (hcovers.knows hother h hdrive (hsame.trans hfile.symm))
    · have hkey : tree.key candidate = tree.key name := by
        rw [hslashed]
        exact Path.canonical_slashed name "/" tree.caseSensitive
      have hdisk := manifestOnDisk_of_key_eq hfile hkey
      right
      rw [hdisk, hfile,
        answerOn_of_first fun other hother hsame => hearlier ⟨other, hother, hsame⟩]
  · exact Or.inr (answerOn_of_not_drive (ne_empty_of_mem_candidates h) hdrive)

/-- So is whatever a package without a root in its name is looked for in. -/
theorem ready_of_not_rooted {packageName directory candidate : String}
    (hrooted : Path.isRooted (Path.slashed packageName) = false)
    (h : candidate ∈ candidates packageName directory) :
    lookup.Ready tree.view (answerOn tree names) candidate := by
  right
  refine answerOn_of_not_drive (ne_empty_of_mem_candidates h) fun hdrive => ?_
  rw [isRooted_of_isDriveManifest h hdrive] at hrooted
  exact absurd hrooted (by simp)

/-- A dependency that was looked for is covered. -/
theorem covers_concat {done : List String} {name directory : String}
    (hcovers : lookup.Covers directory done)
    (hhead : ∀ candidate, (candidates name directory).head? = some candidate →
      lookup.Knows candidate) :
    lookup.Covers directory (done ++ [name]) := by
  intro other hother candidate hcandidate hdrive
  rcases List.mem_append.1 hother with hother | hother
  · exact hcovers other hother candidate hcandidate hdrive
  · rw [List.mem_singleton.1 hother] at hcandidate
    have hrooted := isRooted_of_isDriveManifest hcandidate hdrive
    cases hlist : candidates name directory with
    | nil =>
      rw [hlist] at hcandidate
      exact absurd hcandidate (by simp)
    | cons first rest =>
      have hfirst : first ∈ candidates name directory := by
        rw [hlist]
        exact List.mem_cons_self
      have hsame : candidate = first := by
        rw [eq_slashed_of_mem_candidates hrooted hcandidate,
          eq_slashed_of_mem_candidates hrooted hfirst]
      rw [hsame]
      exact hhead first (by rw [hlist]; rfl)

end AutoImport.PackageLookup
