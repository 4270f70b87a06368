import AutoImport.Proofs.Discovery.DependencyCap
import AutoImport.Proofs.Discovery.Settlements

/-!
# Memories that agree with the file system

What is remembered about packages agrees with a file system when each entry is what a lookup of
a directory with that manifest file gives now.  Every run keeps that, whatever it finds
(`agrees_addDependencies`).  Two runs with agreeing memories find the same, whatever they know about
links, as long as all directories with the manifest file of a dependency are answered for alike
(`addDependencies_of_agrees`).

On a tree that can fail for a dependency that is named like a drive: `c:` and `c:/` are two
directories with one manifest file, hence with one entry.  Where only one of them is there, no
notion of agreement makes memories irrelevant.
-/

set_option autoImplicit false

namespace AutoImport

/-! ## Lookups -/

namespace PackageLookup

/-- Everything remembered is what a directory with that manifest file is answered for now. -/
def Agrees (view : FileView) (lookup : PackageLookup) : Prop :=
  ∀ fileName remembered, lookup.found.get? fileName = some remembered →
    ∃ directory, Path.join directory manifestName = fileName ∧
      (manifestOnDisk view directory).val = remembered

/-- All directories with the manifest file of this one are answered for alike. -/
def OneAnswer (view : FileView) (directory : String) : Prop :=
  ∀ other, Path.join other manifestName = Path.join directory manifestName →
    (manifestOnDisk view other).val = (manifestOnDisk view directory).val

/-- A memory that holds nothing disagrees with no disk. -/
theorem agrees_empty (view : FileView) : Agrees view {} := by
  intro fileName remembered h
  exact absurd h (by simp [Table.get?, Table.lookupIn])

variable {view : FileView} {lookup : PackageLookup}

/-- Looking one directory up leaves a memory that agrees with the disk in agreement. -/
theorem Agrees.manifestIn (h : lookup.Agrees view) (directory : String) :
    (PackageLookup.manifestIn view directory lookup).val.2.Agrees view := by
  unfold PackageLookup.manifestIn
  dsimp only
  cases hfound : lookup.found.get? (Path.join directory manifestName) with
  | some remembered => exact h
  | none =>
    intro fileName remembered hget
    simp only [Probed.val_bind, Probed.val_pure, Table.get?_insert] at hget
    split at hget
    · rename_i hfile
      exact ⟨directory, hfile, Option.some.inj hget⟩
    · exact h fileName remembered hget

/-- With agreeing memories a directory is answered for as the file system does. -/
theorem manifestIn_of_agrees (h : lookup.Agrees view) {directory : String}
    (hone : OneAnswer view directory) :
    (manifestIn view directory lookup).val.1 = (manifestOnDisk view directory).val := by
  unfold manifestIn
  dsimp only
  cases hfound : lookup.found.get? (Path.join directory manifestName) with
  | none => rfl
  | some remembered =>
    obtain ⟨other, hfile, hanswer⟩ := h _ remembered hfound
    exact hanswer.symm.trans (hone other hfile)

/-- Looking along a list of directories leaves an agreeing memory in agreement. -/
theorem Agrees.firstManifest (h : lookup.Agrees view) (directories : List String) :
    (PackageLookup.firstManifest view directories lookup).val.2.Agrees view := by
  induction directories generalizing lookup with
  | nil => exact h
  | cons directory rest ih =>
    have hlooked := h.manifestIn directory
    rw [PackageLookup.firstManifest, Probed.val_bind]
    generalize (PackageLookup.manifestIn view directory lookup).val = looked at hlooked ⊢
    obtain ⟨found, after⟩ := looked
    cases found with
    | some manifest => exact hlooked
    | none => exact ih hlooked

/-- Over an agreeing memory the first manifest found is the first on disk, where each directory has
one answer only. -/
theorem firstManifest_of_agrees (h : lookup.Agrees view) {directories : List String}
    (hone : ∀ directory ∈ directories, OneAnswer view directory) :
    (firstManifest view directories lookup).val.1 =
      directories.findSome? fun directory => (manifestOnDisk view directory).val := by
  induction directories generalizing lookup with
  | nil => rfl
  | cons directory rest ih =>
    have hlooked := h.manifestIn directory
    have hanswer := manifestIn_of_agrees h (hone directory List.mem_cons_self)
    rw [firstManifest, Probed.val_bind, List.findSome?_cons, ← hanswer]
    generalize (manifestIn view directory lookup).val = looked at hlooked ⊢
    obtain ⟨found, after⟩ := looked
    cases found with
    | some manifest => rfl
    | none =>
      exact ih hlooked fun other hother => hone other (List.mem_cons_of_mem directory hother)

/-! ### Trees -/

variable {tree : MemoryTree}

/-- On a tree, only a drive has directories with one manifest file that are answered for
differently. -/
theorem oneAnswer_of_not_drive {directory : String} (hne : directory ≠ "")
    (hdrive : ¬Path.IsDriveManifest (Path.join directory manifestName)) :
    OneAnswer tree.view directory := by
  intro other hother
  exact manifestOnDisk_of_key_eq hother
    (Path.canonical_of_manifest_eq hne hother.symm hdrive tree.caseSensitive).symm

/-- The directories in which a dependency is looked for are answered for alike, if its name is when
it names a drive. -/
theorem oneAnswer_of_mem_candidates {packageName directory candidate : String}
    (hname : Path.IsDriveManifest (Path.join packageName manifestName) →
      OneAnswer tree.view packageName)
    (h : candidate ∈ candidates packageName directory) : OneAnswer tree.view candidate := by
  by_cases hdrive : Path.IsDriveManifest (Path.join candidate manifestName)
  · have hslashed := isDriveManifest_of_mem_candidates h hdrive
    have hfile : Path.join candidate manifestName = Path.join packageName manifestName := by
      rw [hslashed, Path.join_slashed_left]
    have hkey : tree.key candidate = tree.key packageName := by
      rw [hslashed]
      exact Path.canonical_slashed packageName "/" tree.caseSensitive
    intro other hother
    rw [manifestOnDisk_of_key_eq hfile hkey]
    exact hname (hfile ▸ hdrive) other (hother.trans hfile)
  · exact oneAnswer_of_not_drive (ne_empty_of_mem_candidates h) hdrive

end PackageLookup

/-! ## Runs -/

namespace Discovery

open PackageLookup (OneAnswer)

/-- Settling a package leaves an agreeing memory in agreement. -/
theorem agrees_settle {site : Site} {lookup : PackageLookup} (h : lookup.Agrees site.view)
    (packageName : String) : (site.settle packageName lookup).2.Agrees site.view := by
  have hown := h.firstManifest (PackageLookup.candidates packageName site.directory)
  have hdeclared := hown.firstManifest (site.typesCandidates packageName)
  unfold Site.settle
  dsimp only
  split
  · exact hown
  · split
    · exact hdeclared
    · exact hdeclared

/-- Whatever agreeing memories there are, a dependency is settled by the same offer. -/
theorem settle_of_agrees {site : Site} {packageName : String}
    (hown : ∀ candidate ∈ PackageLookup.candidates packageName site.directory,
      OneAnswer site.view candidate)
    (htypes : ∀ candidate ∈ site.typesCandidates packageName, OneAnswer site.view candidate)
    {first second : PackageLookup} (hfirst : first.Agrees site.view)
    (hsecond : second.Agrees site.view) :
    (site.settle packageName first).1 = (site.settle packageName second).1 := by
  have hsame : (PackageLookup.resolve site.view packageName site.directory first).val.1 =
      (PackageLookup.resolve site.view packageName site.directory second).val.1 :=
    (PackageLookup.firstManifest_of_agrees hfirst hown).trans
      (PackageLookup.firstManifest_of_agrees hsecond hown).symm
  have hfirst' : (PackageLookup.resolve site.view packageName site.directory first).val.2.Agrees
    site.view := hfirst.firstManifest _
  have hsecond' : (PackageLookup.resolve site.view packageName site.directory second).val.2.Agrees
    site.view := hsecond.firstManifest _
  have hdeclared := (PackageLookup.firstManifest_of_agrees hfirst' htypes).trans
    (PackageLookup.firstManifest_of_agrees hsecond' htypes).symm
  unfold Site.settle
  dsimp only
  rw [hsame, hdeclared]
  split
  · rfl
  · split <;> rfl

/-- Every run leaves agreeing memories behind if it began with them. -/
theorem agrees_addDependencies {site : Site} {inclusion : Inclusion} (names : List String)
    {run : Run} (h : run.lookup.Agrees site.view) :
    (run.addDependencies site inclusion names).val.2.lookup.Agrees site.view := by
  induction names generalizing run with
  | nil => exact h
  | cons name rest ih =>
    have hnext : (run.addDependency site name).val.lookup.Agrees site.view := by
      rw [lookup_addDependency]
      exact agrees_settle h name
    rw [Run.addDependencies, Probed.val_bind]
    split
    · exact hnext
    · exact ih hnext

/-- Two runs with agreeing memories go on to find the same. -/
theorem addDependencies_of_agrees {site : Site} {inclusion : Inclusion} {names : List String}
    (hone : ∀ name ∈ names, (∀ candidate ∈ PackageLookup.candidates name site.directory,
        OneAnswer site.view candidate) ∧
      ∀ candidate ∈ site.typesCandidates name, OneAnswer site.view candidate)
    {first second : Run} (hsame : first.SameFindings second)
    (hfirst : first.lookup.Agrees site.view) (hsecond : second.lookup.Agrees site.view) :
    (first.addDependencies site inclusion names).val.1.map Run.result =
      (second.addDependencies site inclusion names).val.1.map Run.result := by
  induction names generalizing first second with
  | nil => exact congrArg some hsame.result
  | cons name rest ih =>
    obtain ⟨hown, htypes⟩ := hone name List.mem_cons_self
    have hsettle := settle_of_agrees hown htypes hfirst hsecond
    have hnext : (first.addDependency site name).val.SameFindings
        (second.addDependency site name).val := by
      have hlooked : Run.SameFindings
          { first with lookup := (site.settle name first.lookup).2 }
          { second with lookup := (site.settle name second.lookup).2 } :=
        ⟨hsame.roots, hsame.rootKeys, hsame.packageDirectories, hsame.added⟩
      rw [addDependency_eq_take, addDependency_eq_take, hsettle]
      exact hlooked.take _
    rw [Run.addDependencies, Run.addDependencies, Probed.val_bind, Probed.val_bind, hnext.added]
    split
    · rfl
    · refine ih (fun other hother => hone other (List.mem_cons_of_mem name hother)) hnext ?_ ?_
      · rw [lookup_addDependency]
        exact agrees_settle hfirst name
      · rw [lookup_addDependency]
        exact agrees_settle hsecond name

/-- On a tree, two runs over the same manifests with agreeing memories find the same, if every
dependency that is named like a drive is answered for alike in all its spellings. -/
theorem discover_of_agrees {tree : MemoryTree} {site : Site} (hview : site.view = tree.view)
    (inclusion : Inclusion) (manifests : List Manifest) {first second : Caches}
    (hone : ∀ name ∈ dependencyNames manifests,
      Path.IsDriveManifest (Path.join name manifestName) → OneAnswer tree.view name)
    (hfirst : first.lookup.Agrees tree.view) (hsecond : second.lookup.Agrees tree.view) :
    (discover inclusion site manifests first).val.1 =
      (discover inclusion site manifests second).val.1 := by
  have hanswers : ∀ name ∈ dependencyNames manifests,
      (∀ candidate ∈ PackageLookup.candidates name site.directory,
        OneAnswer site.view candidate) ∧
      ∀ candidate ∈ site.typesCandidates name, OneAnswer site.view candidate := by
    intro name hname
    rw [hview]
    refine ⟨fun candidate hcandidate =>
      PackageLookup.oneAnswer_of_mem_candidates (hone name hname) hcandidate, ?_⟩
    intro candidate hcandidate
    obtain ⟨directory, -, hcandidate⟩ := List.mem_flatMap.1 hcandidate
    -- A package that declares types is never named like a drive.
    refine PackageLookup.oneAnswer_of_not_drive
      (PackageLookup.ne_empty_of_mem_candidates hcandidate) fun hdrive => ?_
    have hrooted := PackageLookup.isRooted_of_isDriveManifest hcandidate hdrive
    rw [isRooted_typesPackage] at hrooted
    exact absurd hrooted (by simp)
  rw [← hview] at hfirst hsecond
  have hstart : Run.SameFindings { toCaches := first } { toCaches := second } :=
    ⟨rfl, rfl, rfl, rfl⟩
  have hresult : ((Run.mk first [] [] [] 0).addDependencies site inclusion
        (dependencyNames manifests)).val.1.map Run.result =
      ((Run.mk second [] [] [] 0).addDependencies site inclusion
        (dependencyNames manifests)).val.1.map Run.result :=
    addDependencies_of_agrees hanswers hstart hfirst hsecond
  rw [discover_val, discover_val]
  dsimp only
  rw [hresult]

/-- A discovery leaves an agreeing memory in agreement. -/
theorem agrees_discover {tree : MemoryTree} {site : Site} (hview : site.view = tree.view)
    (inclusion : Inclusion) (manifests : List Manifest) {caches : Caches}
    (h : caches.lookup.Agrees tree.view) :
    (discover inclusion site manifests caches).val.2.lookup.Agrees tree.view := by
  rw [← hview] at h ⊢
  rw [discover_val]
  exact agrees_addDependencies (dependencyNames manifests) h

end Discovery

/-! ## Projects and hosts outside a session -/

open Discovery PackageLookup

/-- Every dependency that is named like a drive is answered for alike in all its spellings. -/
def DrivesAreUnambiguous (tree : MemoryTree) (names : List String) : Prop :=
  ∀ name ∈ names, Path.IsDriveManifest (Path.join name manifestName) → OneAnswer tree.view name

/-- A project's discovery leaves its agreeing memory in agreement. -/
theorem Project.agrees_discover {tree : MemoryTree} {services : Services}
    (hview : services.view = tree.view) (inclusion : Inclusion) (options : CompilerOptions)
    {project : Project} (h : project.lookup.Agrees tree.view) (cache : ManifestCache) :
    (project.discover services inclusion options cache).val.2.1.lookup.Agrees tree.view := by
  unfold Project.discover
  split
  · exact Discovery.agrees_discover hview inclusion _ h
  · exact h

/-- A project's result is the same from any two agreeing memories, whatever links were recorded. -/
theorem Project.discover_of_agrees {tree : MemoryTree} {services : Services}
    (hview : services.view = tree.view) (inclusion : Inclusion) (options : CompilerOptions)
    {project : Project} {lookup : PackageLookup} (symlinks : SymlinkTable) (cache : ManifestCache)
    (hproject : project.lookup.Agrees tree.view) (hlookup : lookup.Agrees tree.view)
    (hdrives : DrivesAreUnambiguous tree
      (dependencyNames (project.visibleManifests services.view cache).val.1)) :
    (project.discover services inclusion options cache).val.1 =
      (({ project with lookup, symlinks } : Project).discover services inclusion options
        cache).val.1 := by
  unfold Project.discover
  dsimp only
  split
  · exact Discovery.discover_of_agrees hview inclusion _ hdrives hproject hlookup
  · rfl

/-- A standalone discovery leaves the host's agreeing memory in agreement. -/
theorem Standalone.agrees_discover (tree : MemoryTree) (inclusion : Inclusion)
    (options : CompilerOptions) {host : Standalone} (h : host.lookup.Agrees tree.view) :
    (host.discover tree.view inclusion options).val.2.lookup.Agrees tree.view := by
  unfold Standalone.discover
  split
  · exact Discovery.agrees_discover rfl inclusion host.manifests h
  · exact h

/-- A standalone result is the same from any two agreeing memories, whatever links were recorded. -/
theorem Standalone.discover_of_agrees (tree : MemoryTree) (inclusion : Inclusion)
    (options : CompilerOptions) {host : Standalone} {lookup : PackageLookup}
    (symlinks : SymlinkTable) (hhost : host.lookup.Agrees tree.view)
    (hlookup : lookup.Agrees tree.view)
    (hdrives : DrivesAreUnambiguous tree (dependencyNames host.manifests)) :
    (host.discover tree.view inclusion options).val.1 =
      (({ host with lookup, symlinks } : Standalone).discover tree.view inclusion
        options).val.1 := by
  unfold Standalone.discover
  dsimp only
  split
  · exact Discovery.discover_of_agrees rfl inclusion host.manifests hdrives hhost hlookup
  · rfl

namespace Discovery

/-- On any tree, take two projects of a session, or two hosts outside one, that differ only in what
they remember about packages and links, where both memories agree with the tree.  Both memories
agree with it after a discovery, and the two find the same unless a dependency is named like
a drive whose spellings are answered for differently. -/
theorem discover_eq_of_agreeing_memories (tree : MemoryTree) (inclusion : Inclusion)
    (options : CompilerOptions) {lookup : PackageLookup} (symlinks : SymlinkTable)
    (hlookup : lookup.Agrees tree.view) :
    (∀ (services : Services) (project : Project) (cache : ManifestCache),
      let here : Services := { services with view := tree.view }
      let other : Project := { project with lookup, symlinks }
      project.lookup.Agrees tree.view →
        (project.discover here inclusion options cache).val.2.1.lookup.Agrees tree.view ∧
        (other.discover here inclusion options cache).val.2.1.lookup.Agrees tree.view ∧
        (DrivesAreUnambiguous tree
            (dependencyNames (project.visibleManifests tree.view cache).val.1) →
          (project.discover here inclusion options cache).val.1 =
            (other.discover here inclusion options cache).val.1)) ∧
    ∀ host : Standalone,
      let other : Standalone := { host with lookup, symlinks }
      host.lookup.Agrees tree.view →
        (host.discover tree.view inclusion options).val.2.lookup.Agrees tree.view ∧
        (other.discover tree.view inclusion options).val.2.lookup.Agrees tree.view ∧
        (DrivesAreUnambiguous tree (dependencyNames host.manifests) →
          (host.discover tree.view inclusion options).val.1 =
            (other.discover tree.view inclusion options).val.1) := by
  constructor
  · intro services project cache here other hproject
    have hview : here.view = tree.view := rfl
    exact ⟨Project.agrees_discover hview inclusion options hproject cache,
      Project.agrees_discover hview inclusion options hlookup cache,
      Project.discover_of_agrees hview inclusion options symlinks cache hproject hlookup⟩
  · intro host other hhost
    exact ⟨Standalone.agrees_discover tree inclusion options hhost,
      Standalone.agrees_discover tree inclusion options hlookup,
      Standalone.discover_of_agrees tree inclusion options symlinks hhost hlookup⟩

/-- A tree with an installed package. -/
def packageTree : MemoryTree :=
  (({} : MemoryTree).writeFile "/node_modules/a/package.json" "{}").writeFile
    "/node_modules/a/index.d.ts" ""

/-- A host that has discovered the installed package finds its entry point again, as one does that
remembers nothing. -/
theorem discover_eq_of_agreeing_memories_packageTree :
    let first := ((dependingOn ["a"]).discover packageTree.view .on {}).val
    first.1.roots = ["/node_modules/a/index.d.ts"] ∧
      first.2.lookup.isEmpty = false ∧
      (first.2.discover packageTree.view .on {}).val.1 = first.1 := by
  have hfirst : ((dependingOn ["a"]).discover packageTree.view .on {}).val.2.lookup.Agrees
      packageTree.view :=
    Standalone.agrees_discover packageTree .on {} (agrees_empty packageTree.view)
  have hdrives : DrivesAreUnambiguous packageTree
      (dependencyNames ((dependingOn ["a"]).discover packageTree.view .on {}).val.2.manifests) := by
    intro name hname hdrive
    have hnames : dependencyNames
        ((dependingOn ["a"]).discover packageTree.view .on {}).val.2.manifests = ["a"] := by
      decide +kernel
    rw [hnames, List.mem_singleton] at hname
    obtain ⟨letter, -, hfile⟩ := hdrive
    have hcolon : (Path.join "a" manifestName).toList[1]? = some ':' := by
      rw [← hname, hfile]
      rfl
    exact absurd hcolon (by decide +kernel)
  have hagain := ((discover_eq_of_agreeing_memories packageTree .on {}
    (dependingOn ["a"]).symlinks (agrees_empty packageTree.view)).2 _ hfirst).2.2 hdrives
  exact ⟨by decide +kernel, by decide +kernel, hagain⟩

/-- A tree with a manifest and declarations in a drive. -/
def driveTree : MemoryTree :=
  (({} : MemoryTree).writeFile "c:/package.json" "{}").writeFile "c:/index.d.ts" ""

/-- Where `c:/` is a directory and `c:` is none, memories do change what is found.  Whatever it
means for memories to agree with the tree: if empty ones do and discoveries keep it, it does not
make two hosts find the same. -/
theorem memories_matter_on_driveTree :
    ¬∃ agrees : PackageLookup → Prop, agrees {} ∧
      ∀ (host : Standalone) (lookup : PackageLookup) (symlinks : SymlinkTable),
        agrees host.lookup → agrees lookup →
          (host.discover driveTree.view .on {}).val.1 =
              (({ host with lookup, symlinks } : Standalone).discover driveTree.view .on
                {}).val.1 ∧
            agrees (host.discover driveTree.view .on {}).val.2.lookup ∧
            agrees (({ host with lookup, symlinks } : Standalone).discover driveTree.view .on
              {}).val.2.lookup := by
  rintro ⟨agrees, hempty, hkept⟩
  -- The miss of the one spelling is remembered, and then taken for the other one.
  obtain ⟨-, hmissed, -⟩ :=
    hkept (dependingOn ["c:"]) {} (dependingOn ["c:"]).symlinks hempty hempty
  obtain ⟨hsame, -, -⟩ :=
    hkept (dependingOn ["c:/"]) _ (dependingOn ["c:/"]).symlinks hempty hmissed
  have hroots := congrArg Result.roots hsame
  exact absurd hroots (by decide +kernel)

end Discovery

end AutoImport
