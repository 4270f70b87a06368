import AutoImport.Proofs.Discovery.PackageSteps
import AutoImport.Proofs.Manifests.CacheAgreement
import AutoImport.Proofs.Packages.TruthfulLookups

/-!
# Findings do not depend on memories

Two runs over the same dependencies, which may remember different things about packages and links,
go in step: as long as both lookups are truthful, each dependency adds the same to both
(`InStep.addDependency`).  So a run with a truthful lookup finds what a run that remembers nothing
finds.

For a project on a tree this gives `discover_eq_forgetful`: with a truthful lookup, and with a cache
of manifests that agrees with the tree where the project looks for them, a discovery finds what the
same discovery finds from empty memories, and leaves truthful memories behind.
-/

set_option autoImplicit false

namespace AutoImport.Discovery

/-- Two runs have found the same. -/
structure Run.SameFindings (first second : Run) : Prop where
  roots : first.roots = second.roots
  rootKeys : first.rootKeys = second.rootKeys
  packageDirectories : first.packageDirectories = second.packageDirectories
  added : first.added = second.added

/-- Two runs with the same findings still have the same ones after the same roots are added. -/
theorem Run.SameFindings.foldl_addRoot (site : Site) (roots : List String) {first second : Run}
    (h : first.SameFindings second) :
    (roots.foldl (Run.addRoot site) first).SameFindings
      (roots.foldl (Run.addRoot site) second) := by
  induction roots generalizing first second with
  | nil => exact h
  | cons root rest ih =>
    rw [List.foldl_cons, List.foldl_cons]
    apply ih
    unfold Run.addRoot
    rw [h.rootKeys]
    split
    · exact h
    · exact ⟨by simp only [h.roots], rfl, h.packageDirectories, h.added⟩

/-- A package adds the same to both runs. -/
theorem Run.SameFindings.takePackage (site : Site) (manifest : Manifest) (roots : List String)
    {first second : Run} (h : first.SameFindings second) :
    (first.takePackage site manifest roots).SameFindings
      (second.takePackage site manifest roots) := by
  have hlink : ∀ real : Option String,
      (first.recordLink site manifest.directory real).SameFindings
        (second.recordLink site manifest.directory real) := by
    intro real
    cases real with
    | none => exact h
    | some real => exact ⟨h.roots, h.rootKeys, h.packageDirectories, h.added⟩
  have hlinked := hlink (site.linkedDirectory? manifest.directory)
  unfold Run.takePackage
  generalize first.recordLink site _ _ = first at hlinked
  generalize second.recordLink site _ _ = second at hlinked
  have hfold := hlinked.foldl_addRoot site roots
  unfold Run.addRoots
  dsimp only
  rw [hlinked.rootKeys, hfold.rootKeys]
  split
  · exact ⟨hfold.roots, rfl, by simp only [hfold.packageDirectories],
      by simp only [hfold.added]⟩
  · exact hfold

/-- Taking a package asks the package lookup nothing. -/
theorem lookup_takePackage (site : Site) (manifest : Manifest) (roots : List String) (run : Run) :
    (run.takePackage site manifest roots).lookup = run.lookup := by
  have hfold : ∀ (roots : List String) (run : Run),
      (roots.foldl (Run.addRoot site) run).lookup = run.lookup := by
    intro roots
    induction roots with
    | nil => exact fun _ => rfl
    | cons root rest ih =>
      intro run
      rw [List.foldl_cons, ih]
      unfold Run.addRoot
      split <;> rfl
  have hlink : ∀ real : Option String,
      (run.recordLink site manifest.directory real).lookup = run.lookup := by
    intro real
    cases real <;> rfl
  unfold Run.takePackage Run.addRoots
  dsimp only
  split
  · exact (hfold roots _).trans (hlink _)
  · exact (hfold roots _).trans (hlink _)

/-! ## Two runs in step -/

/-- Two runs have found the same, and what they remember about packages is part of one function of
answers and covers the dependencies that were looked for. -/
structure Run.InStep (answer : String → Option Manifest) (directory : String)
    (done : List String) (first second : Run) : Prop where
  sameFindings : first.SameFindings second
  truthful₁ : first.lookup.Truthful answer
  truthful₂ : second.lookup.Truthful answer
  covers₁ : first.lookup.Covers directory done
  covers₂ : second.lookup.Covers directory done

section InStep

variable {answer : String → Option Manifest} {site : Site} {done : List String}
  {first second : Run}

/-- Adding a package keeps two runs in step and tells both the same. -/
theorem Run.InStep.addPackage (h : first.InStep answer site.directory done second)
    (kind : EntryKind) (manifest : Manifest) :
    (first.addPackage site kind manifest).val.1 = (second.addPackage site kind manifest).val.1 ∧
      (first.addPackage site kind manifest).val.2.InStep answer site.directory done
        (second.addPackage site kind manifest).val.2 := by
  rw [addPackage_val, addPackage_val]
  cases site.packageRoots? kind manifest with
  | none => exact ⟨rfl, h⟩
  | some roots =>
    refine ⟨rfl, h.sameFindings.takePackage site manifest roots, ?_, ?_, ?_, ?_⟩
    · rw [lookup_takePackage]
      exact h.truthful₁
    · rw [lookup_takePackage]
      exact h.truthful₂
    · rw [lookup_takePackage]
      exact h.covers₁
    · rw [lookup_takePackage]
      exact h.covers₂

/-- A lookup in ready directories keeps two runs in step and tells both the same. -/
theorem Run.InStep.lookUp (h : first.InStep answer site.directory done second)
    (packageName directory : String)
    (hready : ∀ lookup : PackageLookup, lookup.Covers site.directory done →
      ∀ candidate ∈ PackageLookup.candidates packageName directory,
        lookup.Ready site.view answer candidate) :
    (first.lookUp site packageName directory).val.1 =
        (second.lookUp site packageName directory).val.1 ∧
      (first.lookUp site packageName directory).val.2.InStep answer site.directory done
        (second.lookUp site packageName directory).val.2 := by
  obtain ⟨hfound₁, htruthful₁, hgrows₁, -⟩ :=
    PackageLookup.resolve_of_ready h.truthful₁ (hready first.lookup h.covers₁)
  obtain ⟨hfound₂, htruthful₂, hgrows₂, -⟩ :=
    PackageLookup.resolve_of_ready h.truthful₂ (hready second.lookup h.covers₂)
  rw [lookUp_val, lookUp_val]
  refine ⟨hfound₁.trans hfound₂.symm, ?_, htruthful₁, htruthful₂, ?_, ?_⟩
  · exact ⟨h.sameFindings.roots, h.sameFindings.rootKeys, h.sameFindings.packageDirectories,
      h.sameFindings.added⟩
  · exact h.covers₁.grows hgrows₁
  · exact h.covers₂.grows hgrows₂

/-- The name of a typings package is never a rooted path. -/
theorem isRooted_typesPackage (packageName : String) :
    Path.isRooted (Path.slashed (typesPackage packageName)) = false := by
  have hscope : ∀ rest : String, Path.isRooted (Path.slashed (typesScope ++ rest)) = false := by
    intro rest
    unfold Path.isRooted Path.slashed
    rw [String.toList_ofList, String.toList_append]
    rfl
  unfold typesPackage
  split
  · exact hscope _
  · exact hscope _

/-- The search for declared types keeps two runs on a tree in step and tells both the same. -/
theorem Run.InStep.addTypes {tree : MemoryTree} {names : List String}
    (hview : site.view = tree.view) (packageName : String) (directories : List String)
    (h : first.InStep (PackageLookup.answerOn tree names) site.directory done second) :
    (first.addTypes site packageName directories).val.1 =
        (second.addTypes site packageName directories).val.1 ∧
      (first.addTypes site packageName directories).val.2.InStep
        (PackageLookup.answerOn tree names) site.directory done
        (second.addTypes site packageName directories).val.2 := by
  induction directories generalizing first second with
  | nil => exact ⟨rfl, h⟩
  | cons directory rest ih =>
    obtain ⟨hfound, hlooked⟩ := h.lookUp (typesPackage packageName) directory
      fun lookup _ candidate hcandidate => by
        rw [hview]
        exact PackageLookup.ready_of_not_rooted (isRooted_typesPackage packageName) hcandidate
    rw [Run.addTypes, Run.addTypes, Probed.val_bind, Probed.val_bind]
    generalize (first.lookUp site (typesPackage packageName) directory).val = looked₁ at *
    generalize (second.lookUp site (typesPackage packageName) directory).val = looked₂ at *
    obtain ⟨found, after₁⟩ := looked₁
    obtain ⟨found', after₂⟩ := looked₂
    obtain rfl : found = found' := hfound
    cases found with
    | none => exact ih hlooked
    | some manifest => exact ⟨rfl, (hlooked.addPackage .typed manifest).2⟩

/-- Two runs in step answer alike on whether a manifest is typed, and stay in step. -/
theorem Run.InStep.addTyped (h : first.InStep answer site.directory done second)
    (manifest : Option Manifest) :
    (first.addTyped site manifest).val.1 = (second.addTyped site manifest).val.1 ∧
      (first.addTyped site manifest).val.2.InStep answer site.directory done
        (second.addTyped site manifest).val.2 := by
  cases manifest with
  | none => exact ⟨rfl, h⟩
  | some manifest => exact h.addPackage .typed manifest

/-- Two runs in step stay so when a manifest's scripts are added. -/
theorem Run.InStep.addScripts (h : first.InStep answer site.directory done second)
    (manifest : Option Manifest) :
    (first.addScripts site manifest).val.InStep answer site.directory done
      (second.addScripts site manifest).val := by
  cases manifest with
  | none => exact h
  | some manifest =>
    unfold Run.addScripts
    dsimp only
    split
    · exact (h.addPackage .script manifest).2
    · exact h

/-- The next dependency of a list adds the same to two runs in step on a tree. -/
theorem Run.InStep.addDependency {tree : MemoryTree} (hview : site.view = tree.view)
    (name : String) (rest : List String)
    (h : first.InStep (PackageLookup.answerOn tree (done ++ name :: rest)) site.directory done
      second) :
    (first.addDependency site name).val.InStep
      (PackageLookup.answerOn tree (done ++ name :: rest)) site.directory (done ++ [name])
      (second.addDependency site name).val := by
  have hready : ∀ lookup : PackageLookup, lookup.Covers site.directory done →
      ∀ candidate ∈ PackageLookup.candidates name site.directory,
        lookup.Ready site.view (PackageLookup.answerOn tree (done ++ name :: rest)) candidate := by
    intro lookup hcovers candidate hcandidate
    rw [hview]
    exact PackageLookup.ready_of_mem_candidates hcovers hcandidate
  obtain ⟨-, -, -, hhead₁⟩ :=
    PackageLookup.resolve_of_ready h.truthful₁ (hready first.lookup h.covers₁)
  obtain ⟨-, -, -, hhead₂⟩ :=
    PackageLookup.resolve_of_ready h.truthful₂ (hready second.lookup h.covers₂)
  obtain ⟨hfound, hlooked⟩ := h.lookUp name site.directory hready
  -- Both runs have looked for the name now, so both memories cover it.
  have hcovered : (first.lookUp site name site.directory).val.2.InStep
      (PackageLookup.answerOn tree (done ++ name :: rest)) site.directory (done ++ [name])
      (second.lookUp site name site.directory).val.2 :=
    { hlooked with
      covers₁ := PackageLookup.covers_concat hlooked.covers₁ hhead₁
      covers₂ := PackageLookup.covers_concat hlooked.covers₂ hhead₂ }
  rw [addDependency_val, addDependency_val]
  dsimp only
  rw [hfound]
  obtain ⟨hsettled, htyped⟩ :=
    hcovered.addTyped (second.lookUp site name site.directory).val.1
  rw [hsettled]
  obtain ⟨hdeclared, htypes⟩ :=
    htyped.addTypes hview name (site.directory :: site.typings.toList)
  rw [hdeclared]
  split
  · exact htyped
  · split
    · exact htypes
    · exact htypes.addScripts _

/-- Two runs in step find the same in the rest of a list, and leave truthful lookups. -/
theorem Run.InStep.addDependencies {tree : MemoryTree} (hview : site.view = tree.view)
    (inclusion : Inclusion) (rest : List String)
    (h : first.InStep (PackageLookup.answerOn tree (done ++ rest)) site.directory done second) :
    (first.addDependencies site inclusion rest).val.1.map Run.result =
        (second.addDependencies site inclusion rest).val.1.map Run.result ∧
      (first.addDependencies site inclusion rest).val.2.lookup.Truthful
        (PackageLookup.answerOn tree (done ++ rest)) := by
  induction rest generalizing done first second with
  | nil =>
    refine ⟨?_, h.truthful₁⟩
    show some first.result = some second.result
    unfold Run.result
    rw [h.sameFindings.roots, h.sameFindings.packageDirectories, h.sameFindings.added]
  | cons name rest ih =>
    have hnext := h.addDependency hview name rest
    rw [Run.addDependencies, Run.addDependencies, Probed.val_bind, Probed.val_bind,
      hnext.sameFindings.added]
    split
    · exact ⟨rfl, hnext.truthful₁⟩
    · -- The answers are those of the whole list, so they stay as names move over to `done`.
      rw [List.append_cons] at hnext ⊢
      exact ih hnext

end InStep

/-- A discovery is its dependencies added one by one, then sorted and cut into a result. -/
theorem discover_val (inclusion : Inclusion) (site : Site) (manifests : List Manifest)
    (caches : Caches) :
    (discover inclusion site manifests caches).val =
      let outcome := (Run.addDependencies site inclusion (dependencyNames manifests)
        { toCaches := caches }).val
      ((outcome.1.map Run.result).getD { aborted := true }, outcome.2) := by
  unfold discover
  dsimp only
  rw [Probed.val_bind]
  generalize (Run.addDependencies site inclusion _ _).val = outcome
  obtain ⟨found, left⟩ := outcome
  cases found <;> rfl

/-- Over manifests that list the same, a discovery with a truthful lookup finds what one finds that
remembers nothing about packages, whatever they know about links. -/
theorem discover_of_truthful {tree : MemoryTree} (site : Site) (hview : site.view = tree.view)
    (inclusion : Inclusion) {manifests others : List Manifest} {lookup : PackageLookup}
    (hnames : dependencyNames manifests = dependencyNames others)
    (htruthful : lookup.Truthful (PackageLookup.answerOn tree (dependencyNames manifests)))
    (symlinks otherSymlinks : SymlinkTable) :
    (discover inclusion site manifests ⟨lookup, symlinks⟩).val.1 =
        (discover inclusion site others ⟨{}, otherSymlinks⟩).val.1 ∧
      (discover inclusion site manifests ⟨lookup, symlinks⟩).val.2.lookup.Truthful
        (PackageLookup.answerOn tree (dependencyNames manifests)) := by
  have hstart : Run.InStep (PackageLookup.answerOn tree ([] ++ dependencyNames manifests))
      site.directory [] { lookup, symlinks } { lookup := {}, symlinks := otherSymlinks } :=
    ⟨⟨rfl, rfl, rfl, rfl⟩, htruthful, PackageLookup.truthful_empty _,
      fun _ h => absurd h (by simp), fun _ h => absurd h (by simp)⟩
  obtain ⟨hresult, hleft⟩ := hstart.addDependencies hview inclusion (dependencyNames manifests)
  rw [discover_val, discover_val, ← hnames]
  dsimp only
  rw [hresult]
  exact ⟨rfl, hleft⟩

end AutoImport.Discovery

namespace AutoImport.Project

/-! ## Projects on a tree -/

/-- The directories in which a project looks for manifests, nearest first. -/
def visibleDirectories (project : Project) : List String :=
  Path.ancestors (Path.directory (Path.join project.directory projectAnchor))

/-- The dependencies of a project, as they are on a tree. -/
def dependenciesOn (tree : MemoryTree) (project : Project) : List String :=
  Discovery.dependencyNames (ManifestCache.onTree tree project.visibleDirectories)

/-- The project without what it remembers about packages, links and manifests. -/
def forgetful (project : Project) : Project :=
  { project with
    lookup := {}
    symlinks := { base := project.directory, caseSensitive := project.caseSensitive }
    consulted := [] }

/-- What a discovery for the provider finds that starts from empty memories: with the inclusion in
force, the options of the provider, and the project's program as it is. -/
def freshFindings (services : Services) (project : Project) : Discovery.Result :=
  (project.forgetful.discover services (project.inclusion services.inclusion)
    project.options.forProvider { caseSensitive := services.view.caseSensitive }).val.1

/-- What the project and its session remember is so on the tree. -/
structure TruthfulOn (tree : MemoryTree) (cache : ManifestCache) (project : Project) : Prop where
  caseSensitive : cache.caseSensitive = tree.caseSensitive
  manifests : ∀ directory ∈ project.visibleDirectories, cache.AgreesAt tree directory
  lookup : project.lookup.Truthful (PackageLookup.answerOn tree (project.dependenciesOn tree))

/-- The directories above a normal project directory are normal. -/
theorem isNormal_of_mem_visibleDirectories {project : Project} {directory : String}
    (hnormal : Path.IsNormal project.directory) (h : directory ∈ project.visibleDirectories) :
    Path.IsNormal directory :=
  Path.isNormal_of_mem_ancestors
    (Path.isNormal_directory (Path.isNormal_join hnormal Path.isName_projectAnchor)) h

/-- An empty manifest cache agrees with any tree everywhere. -/
theorem agreesAt_empty (tree : MemoryTree) (caseSensitive : Bool) (directory : String) :
    ({ caseSensitive } : ManifestCache).AgreesAt tree directory := by
  constructor
  · intro manifest h
    exact absurd h (by simp [ManifestCache.inDirectory?, Table.get?, Table.lookupIn])
  · intro h
    exact absurd ((ManifestCache.presence_eq_absent_iff _ _).1 h).2 (by simp)

/-- A project that has forgotten its lookups is truthful about any tree, with an empty cache. -/
theorem forgetful_truthfulOn (tree : MemoryTree) (project : Project) :
    project.forgetful.TruthfulOn tree { caseSensitive := tree.caseSensitive } :=
  ⟨rfl, fun directory _ => agreesAt_empty tree _ directory,
    PackageLookup.truthful_empty _⟩

/-- A project with truthful memories sees the dependencies that the tree has. -/
theorem dependencyNames_visibleManifests {tree : MemoryTree} {cache : ManifestCache}
    {project : Project} (hnormal : Path.IsNormal project.directory)
    (h : project.TruthfulOn tree cache) :
    Discovery.dependencyNames (project.visibleManifests tree.view cache).val.1 =
      project.dependenciesOn tree :=
  Discovery.dependencyNames_of_contents_eq (ManifestCache.contents_visibleAlong h.caseSensitive
    (fun _ hd => isNormal_of_mem_visibleDirectories hnormal hd) h.manifests)

/-- A discovery changes nothing of a project but its memories. -/
theorem discover_frame (services : Services) (inclusion : Inclusion) (options : CompilerOptions)
    (project : Project) (cache : ManifestCache) :
    ∃ lookup symlinks consulted,
      (project.discover services inclusion options cache).val.2.1 =
        { project with lookup, symlinks, consulted } := by
  unfold discover
  split
  · exact ⟨_, _, _, rfl⟩
  · exact ⟨_, _, _, rfl⟩

/-- A discovery learns from the tree what it looks at. -/
theorem learns_discover {tree : MemoryTree} {project : Project} {services : Services}
    (hview : services.view = tree.view) (hnormal : Path.IsNormal project.directory)
    (inclusion : Inclusion) (options : CompilerOptions) (cache : ManifestCache) :
    cache.Learns tree (project.discover services inclusion options cache).val.2.2 := by
  unfold discover
  split
  · rw [hview]
    exact ManifestCache.learns_visibleFrom none
      (Path.isNormal_join hnormal Path.isName_projectAnchor) cache
  · exact .refl

/-- With truthful memories a discovery finds what it finds from empty ones, and the memories stay
truthful. -/
theorem discover_eq_forgetful {tree : MemoryTree} {cache : ManifestCache} {project : Project}
    {services : Services} (hview : services.view = tree.view)
    (hnormal : Path.IsNormal project.directory) (h : project.TruthfulOn tree cache)
    (inclusion : Inclusion) (options : CompilerOptions) :
    (project.discover services inclusion options cache).val.1 =
        (project.forgetful.discover services inclusion options
          { caseSensitive := services.view.caseSensitive }).val.1 ∧
      (project.discover services inclusion options cache).val.2.1.lookup.Truthful
        (PackageLookup.answerOn tree (project.dependenciesOn tree)) := by
  have hcase : services.view.caseSensitive = tree.caseSensitive := by
    rw [hview]
    rfl
  rw [hcase]
  cases hprogram : project.program with
  | none =>
    have hnone : ∀ (project : Project) (cache : ManifestCache), project.program = none →
        project.discover services inclusion options cache = pure ({}, project, cache) := by
      intro project cache hprogram
      unfold discover
      rw [hprogram]
      cases inclusion.isOff <;> rfl
    rw [hnone project cache hprogram, hnone project.forgetful _ hprogram]
    exact ⟨rfl, h.lookup⟩
  | some program =>
    cases hoff : inclusion.isOff with
    | true =>
      have hnone : ∀ (project : Project) (cache : ManifestCache),
          project.discover services inclusion options cache = pure ({}, project, cache) := by
        intro project cache
        unfold discover
        rw [hoff]
      rw [hnone project cache, hnone project.forgetful]
      exact ⟨rfl, h.lookup⟩
    | false =>
      have hnames := dependencyNames_visibleManifests hnormal h
      have hfresh := dependencyNames_visibleManifests
        (show Path.IsNormal project.forgetful.directory from hnormal)
        (forgetful_truthfulOn tree project)
      have hforgetful : project.forgetful.program = some program := hprogram
      rw [Discovery.discover_project hprogram hoff, Discovery.discover_project hforgetful hoff,
        hview]
      simp only [Probed.val_bind, Probed.val_pure]
      obtain ⟨hfound, hleft⟩ := Discovery.discover_of_truthful
        (project.site services options program) hview inclusion
        (hnames.trans hfresh.symm) (by rw [hnames]; exact h.lookup) project.symlinks
        { base := project.directory, caseSensitive := project.caseSensitive }
      rw [hnames] at hleft
      exact ⟨hfound, hleft⟩

/-- Only its directory, its program and the inputs of the choice matter to what a project finds. -/
theorem freshFindings_congr {first second : Project} (services : Services)
    (hdirectory : first.directory = second.directory)
    (hcase : first.caseSensitive = second.caseSensitive) (hprogram : first.program = second.program)
    (hoptions : first.options = second.options) (henabled : first.isEnabled = second.isEnabled) :
    first.freshFindings services = second.freshFindings services := by
  have hinclusion : first.inclusion services.inclusion = second.inclusion services.inclusion := by
    unfold inclusion
    rw [henabled, hdirectory]
  unfold freshFindings
  rw [hinclusion, hoptions]
  generalize second.inclusion services.inclusion = inclusion
  cases hsecond : second.program with
  | none =>
    unfold discover forgetful
    dsimp only
    rw [hprogram, hsecond]
    cases inclusion.isOff <;> rfl
  | some program =>
    cases hoff : inclusion.isOff with
    | true =>
      unfold discover
      rw [hoff]
      rfl
    | false =>
      have hfirst : first.forgetful.program = some program := hprogram.trans hsecond
      have hsecond' : second.forgetful.program = some program := hsecond
      rw [Discovery.discover_project hfirst hoff, Discovery.discover_project hsecond' hoff]
      unfold visibleManifests forgetful site
      simp only [Probed.val_bind, Probed.val_pure]
      rw [hdirectory, hcase]

end AutoImport.Project
