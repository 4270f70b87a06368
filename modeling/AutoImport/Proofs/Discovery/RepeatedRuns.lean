import AutoImport.Proofs.Discovery.RecordedLinks
import AutoImport.Proofs.Discovery.Settlements
import AutoImport.Proofs.Manifests.RepeatedSearches

/-!
# Runs that are repeated

A run that starts from the memories of an earlier one over the same dependencies finds the same and
leaves these memories as they are (`Project.discover_again`).  It does not matter what the first run
started from, how stale that was, or whether it was dropped on the way.

What is remembered about packages is never overwritten, so the second run is given the answers that
the first one was given, and settles each dependency by the same offer.  Hence it takes the same
packages, records the same links, and is dropped where the first run was.
-/

set_option autoImplicit false

namespace AutoImport

/-! ## Lookups -/

namespace PackageLookup

variable {lookup middle later : PackageLookup}

/-- What the first lookup remembers, the second one remembers too. -/
def Extends (lookup later : PackageLookup) : Prop :=
  ∀ fileName remembered, lookup.found.get? fileName = some remembered →
    later.found.get? fileName = some remembered

/-- A package lookup extends itself. -/
theorem Extends.refl (lookup : PackageLookup) : lookup.Extends lookup :=
  fun _ _ h => h

/-- Extending a package lookup twice extends it. -/
theorem Extends.trans (first : lookup.Extends middle) (second : middle.Extends later) :
    lookup.Extends later :=
  fun fileName remembered h => second fileName remembered (first fileName remembered h)

/-- A directory that is asked for is remembered with its answer, and nothing is overwritten. -/
theorem manifestIn_remembers (view : FileView) (directory : String) (lookup : PackageLookup) :
    lookup.Extends (manifestIn view directory lookup).val.2 ∧
      (manifestIn view directory lookup).val.2.found.get? (Path.join directory manifestName) =
        some (manifestIn view directory lookup).val.1 := by
  unfold manifestIn
  dsimp only
  cases hfound : lookup.found.get? (Path.join directory manifestName) with
  | some remembered => exact ⟨.refl lookup, hfound⟩
  | none =>
    simp only [Probed.val_bind, Probed.val_pure]
    refine ⟨fun fileName remembered h => ?_, ?_⟩
    · rw [Table.get?_insert, if_neg]
      · exact h
      · rintro rfl
        rw [hfound] at h
        exact absurd h (by simp)
    · rw [Table.get?_insert, if_pos rfl]

/-- A directory looked up once has the same answer in every later memory, which stays as it is. -/
theorem manifestIn_again {view : FileView} {directory : String}
    (h : (manifestIn view directory lookup).val.2.Extends later) :
    (manifestIn view directory later).val = ((manifestIn view directory lookup).val.1, later) := by
  have hremembered := h _ _ (manifestIn_remembers view directory lookup).2
  unfold manifestIn at hremembered ⊢
  dsimp only at hremembered ⊢
  rw [hremembered]
  rfl

/-- Looking along directories only adds to the memory. -/
theorem extends_firstManifest (view : FileView) (directories : List String)
    (lookup : PackageLookup) : lookup.Extends (firstManifest view directories lookup).val.2 := by
  induction directories generalizing lookup with
  | nil => exact .refl lookup
  | cons directory rest ih =>
    have hhere := (manifestIn_remembers view directory lookup).1
    rw [firstManifest, Probed.val_bind]
    generalize (manifestIn view directory lookup).val = looked at hhere
    obtain ⟨found, after⟩ := looked
    cases found with
    | some manifest => exact hhere
    | none => exact hhere.trans (ih after)

/-- A search made once has the same answer in every later memory, which stays as it is. -/
theorem firstManifest_again {view : FileView} {directories : List String}
    (h : (firstManifest view directories lookup).val.2.Extends later) :
    (firstManifest view directories later).val =
      ((firstManifest view directories lookup).val.1, later) := by
  induction directories generalizing lookup with
  | nil => rfl
  | cons directory rest ih =>
    have hagain : (manifestIn view directory lookup).val.2.Extends later →
        (manifestIn view directory later).val =
          ((manifestIn view directory lookup).val.1, later) := manifestIn_again
    rw [firstManifest, Probed.val_bind] at h ⊢
    rw [firstManifest, Probed.val_bind]
    generalize (manifestIn view directory lookup).val = looked at h hagain ⊢
    obtain ⟨found, after⟩ := looked
    cases found with
    | some manifest =>
      rw [hagain h]
      rfl
    | none =>
      rw [hagain ((extends_firstManifest view rest after).trans h)]
      exact ih h

end PackageLookup

/-! ## Runs -/

namespace Discovery

open PackageLookup

/-- Settling a package only adds to the memory. -/
theorem extends_settle (site : Site) (packageName : String) (lookup : PackageLookup) :
    lookup.Extends (site.settle packageName lookup).2 := by
  have hown := extends_firstManifest site.view
    (PackageLookup.candidates packageName site.directory) lookup
  have hdeclared := hown.trans
    (extends_firstManifest site.view (site.typesCandidates packageName) _)
  unfold Site.settle
  dsimp only
  split
  · exact hown
  · split
    · exact hdeclared
    · exact hdeclared

/-- A dependency that was settled is settled by the same offer again, and nothing new is
remembered. -/
theorem settle_again {site : Site} {packageName : String} {lookup later : PackageLookup}
    (h : (site.settle packageName lookup).2.Extends later) :
    site.settle packageName later = ((site.settle packageName lookup).1, later) := by
  have hown : (resolve site.view packageName site.directory lookup).val.2.Extends later →
      (resolve site.view packageName site.directory later).val =
        ((resolve site.view packageName site.directory lookup).val.1, later) :=
    firstManifest_again
  unfold Site.settle at h ⊢
  dsimp only at h ⊢
  generalize (resolve site.view packageName site.directory lookup).val = own at h hown ⊢
  cases hoffer : own.1.bind (site.offer? .typed) with
  | some offer =>
    rw [hoffer] at h
    rw [hown h]
    dsimp only
    rw [hoffer]
  | none =>
    rw [hoffer] at h
    dsimp only at h
    -- The second search adds to what the first one left, so both are remembered.
    have hlater : (firstManifest site.view (site.typesCandidates packageName)
        own.2).val.2.Extends later := by
      revert h
      split
      · exact id
      · exact id
    have hdeclared := firstManifest_again hlater
    rw [hown ((extends_firstManifest _ _ _).trans hlater)]
    dsimp only
    rw [hoffer, hdeclared]
    dsimp only
    split
    · rfl
    · rfl

/-- The link through which a package is reached, if it is reached through one. -/
def Site.linksOf (site : Site) (offer : Option Offer) : List SymlinkTable.Link :=
  (offer.bind fun offer => (site.linkedDirectory? offer.manifest.directory).map fun real =>
    (offer.manifest.directory, ⟨real, site.key real⟩)).toList

/-- Adding a package's roots touches none of the caches. -/
theorem toCaches_addRoots (site : Site) (roots : List String) (directoryKey : String) (run : Run) :
    (run.addRoots site roots directoryKey).toCaches = run.toCaches := by
  have hfold : (roots.foldl (Run.addRoot site) run).toCaches = run.toCaches := by
    induction roots generalizing run with
    | nil => rfl
    | cons root rest ih =>
      rw [List.foldl_cons, ih]
      unfold Run.addRoot
      split <;> rfl
  unfold Run.addRoots
  dsimp only
  split
  · exact hfold
  · exact hfold

/-- Taking an offer records its link and looks nothing up. -/
theorem toCaches_take (site : Site) (offer : Option Offer) (run : Run) :
    (run.take site offer).toCaches =
      ⟨run.lookup, run.symlinks.recordAll site.resolutions (site.linksOf offer)⟩ := by
  cases offer with
  | none => rfl
  | some offer =>
    show (run.takePackage site offer.manifest offer.roots).toCaches = _
    unfold Run.takePackage Site.linksOf
    rw [toCaches_addRoots, Option.bind_some]
    cases site.linkedDirectory? offer.manifest.directory <;> rfl

/-- A dependency that was added is added once more to a run that remembers what was looked up. -/
theorem addDependency_again {site : Site} {packageName : String} {run again : Run}
    (hsame : run.SameFindings again)
    (h : (run.addDependency site packageName).val.lookup.Extends again.lookup) :
    (run.addDependency site packageName).val.SameFindings
        (again.addDependency site packageName).val ∧
      (again.addDependency site packageName).val.toCaches =
        ⟨again.lookup, again.symlinks.recordAll site.resolutions
          (site.linksOf (site.settle packageName run.lookup).1)⟩ := by
  rw [lookup_addDependency] at h
  have hlooked : Run.SameFindings
      { run with lookup := (site.settle packageName run.lookup).2 } again :=
    ⟨hsame.roots, hsame.rootKeys, hsame.packageDirectories, hsame.added⟩
  rw [addDependency_eq_take, addDependency_eq_take, settle_again h]
  exact ⟨hlooked.take _, toCaches_take site _ again⟩

/-- What a run over dependencies comes to, and what a second one comes to that remembers all that
the first one does. -/
theorem addDependencies_again (site : Site) (inclusion : Inclusion) (names : List String)
    (run : Run) :
    run.lookup.Extends (run.addDependencies site inclusion names).val.2.lookup ∧
      ∃ links, (run.addDependencies site inclusion names).val.2.symlinks =
          run.symlinks.recordAll site.resolutions links ∧
        ∀ again : Run, run.SameFindings again →
          (run.addDependencies site inclusion names).val.2.lookup.Extends again.lookup →
          (again.addDependencies site inclusion names).val.1.map Run.result =
              (run.addDependencies site inclusion names).val.1.map Run.result ∧
            (again.addDependencies site inclusion names).val.2 =
              ⟨again.lookup, again.symlinks.recordAll site.resolutions links⟩ := by
  induction names generalizing run with
  | nil => exact ⟨.refl _, [], rfl, fun again hsame _ => ⟨congrArg some hsame.result.symm, rfl⟩⟩
  | cons name rest ih =>
    have hextends : run.lookup.Extends (run.addDependency site name).val.lookup := by
      rw [lookup_addDependency]
      exact extends_settle site name run.lookup
    have hlinks : (run.addDependency site name).val.symlinks =
        run.symlinks.recordAll site.resolutions
          (site.linksOf (site.settle name run.lookup).1) := by
      rw [addDependency_eq_take, toCaches_take]
    rw [Run.addDependencies, Probed.val_bind]
    by_cases hcap : inclusion = .auto ∧ maxDependencies < (run.addDependency site name).val.added
    · rw [if_pos hcap]
      refine ⟨hextends, _, hlinks, fun again hsame hlater => ?_⟩
      obtain ⟨hnext, hcaches⟩ := addDependency_again hsame hlater
      rw [Run.addDependencies, Probed.val_bind, ← hnext.added, if_pos hcap]
      exact ⟨rfl, hcaches⟩
    · rw [if_neg hcap]
      obtain ⟨hrest, links, hrestLinks, hagain⟩ := ih (run.addDependency site name).val
      refine ⟨hextends.trans hrest, site.linksOf (site.settle name run.lookup).1 ++ links, ?_, ?_⟩
      · rw [SymlinkTable.recordAll_append, ← hlinks]
        exact hrestLinks
      · intro again hsame hlater
        obtain ⟨hnext, hcaches⟩ := addDependency_again hsame (hrest.trans hlater)
        have hlookup := congrArg Caches.lookup hcaches
        have hsymlinks := congrArg Caches.symlinks hcaches
        dsimp only at hlookup hsymlinks
        rw [Run.addDependencies, Probed.val_bind, ← hnext.added, if_neg hcap,
          SymlinkTable.recordAll_append, ← hsymlinks]
        rw [← hlookup] at hlater ⊢
        exact hagain _ hnext hlater

/-- A run that starts from the memories of an earlier one over the same manifests finds the same and
leaves them as they are. -/
theorem discover_again (inclusion : Inclusion) (site : Site) (manifests : List Manifest)
    (caches : Caches) :
    (discover inclusion site manifests (discover inclusion site manifests caches).val.2).val =
      (discover inclusion site manifests caches).val := by
  obtain ⟨-, links, hlinks, hagain⟩ := addDependencies_again site inclusion
    (dependencyNames manifests) { toCaches := caches }
  rw [discover_val, discover_val]
  dsimp only
  generalize (Run.addDependencies site inclusion (dependencyNames manifests)
    { toCaches := caches }).val = first at hlinks hagain ⊢
  obtain ⟨hresult, hcaches⟩ := hagain { toCaches := first.2 } ⟨rfl, rfl, rfl, rfl⟩ (.refl _)
  rw [hresult, hcaches]
  dsimp only
  rw [hlinks, SymlinkTable.recordAll_recordAll, ← hlinks]

end Discovery

/-! ## Projects -/

namespace Project

/-- The directories above a normal project directory are plain. -/
theorem isPlain_of_mem_visibleDirectories {project : Project} {directory : String}
    (hnormal : Path.IsNormal project.directory) (h : directory ∈ project.visibleDirectories) :
    Path.IsPlain directory :=
  Path.isPlain_of_mem_ancestors_directory hnormal Path.isName_projectAnchor h

/-- The visible manifests are those that the cache shows along the visible directories, in order. -/
theorem visibleManifests_val (view : FileView) (project : Project) (cache : ManifestCache) :
    (project.visibleManifests view cache).val =
      let seen := (ManifestCache.visibleAlong view none project.visibleDirectories cache).val
      (seen.1,
        { project with consulted := seen.1.map fun manifest => project.key manifest.fileName },
        seen.2) := rfl

/-- A second look at the manifests that a project sees gives the same ones, whatever was found by
way of them. -/
theorem visibleManifests_again {project : Project} (hnormal : Path.IsNormal project.directory)
    (view : FileView) (cache : ManifestCache) (lookup : PackageLookup) (symlinks : SymlinkTable) :
    let seen := (project.visibleManifests view cache).val
    let next : Project := { seen.2.1 with lookup, symlinks }
    (next.visibleManifests view seen.2.2).val = (seen.1, next, seen.2.2) := by
  have hagain := ManifestCache.visibleAlong_again view view
    (fun _ h => isPlain_of_mem_visibleDirectories hnormal h) cache
  dsimp only
  rw [visibleManifests_val view project, visibleManifests_val]
  dsimp only
  have hdirectories : ∀ consulted, visibleDirectories
      { project with lookup, symlinks, consulted } = project.visibleDirectories := fun _ => rfl
  rw [hdirectories, hagain]
  rfl

/-- A discovery leaves everything as it is if the manifests and the packages that it looks at are
remembered. -/
theorem discover_of_remembered {project : Project} {program : Program} {services : Services}
    {inclusion : Inclusion} {options : CompilerOptions} {cache : ManifestCache}
    {manifests : List Manifest} {found : Discovery.Result}
    (hprogram : project.program = some program) (hoff : inclusion.isOff = false)
    (hseen : (project.visibleManifests services.view cache).val = (manifests, project, cache))
    (hfound : (Discovery.discover inclusion (project.site services options program) manifests
      ⟨project.lookup, project.symlinks⟩).val = (found, ⟨project.lookup, project.symlinks⟩)) :
    (project.discover services inclusion options cache).val = (found, project, cache) := by
  rw [Discovery.discover_project hprogram hoff, Probed.val_bind, hseen]
  dsimp only
  rw [Probed.val_bind, hfound]
  rfl

/-- A second discovery for a project finds the same and leaves the project and the manifests as the
first one left them. -/
theorem discover_again {project : Project} (hnormal : Path.IsNormal project.directory)
    (services : Services) (inclusion : Inclusion) (options : CompilerOptions)
    (cache : ManifestCache) :
    let first := (project.discover services inclusion options cache).val
    (first.2.1.discover services inclusion options first.2.2).val = first := by
  dsimp only
  cases hprogram : project.program with
  | none =>
    rw [Discovery.discover_nothing (Or.inr hprogram), Probed.val_pure,
      Discovery.discover_nothing (Or.inr hprogram), Probed.val_pure]
  | some program =>
    cases hoff : inclusion.isOff with
    | true =>
      rw [Discovery.discover_nothing (Or.inl hoff), Probed.val_pure,
        Discovery.discover_nothing (Or.inl hoff), Probed.val_pure]
    | false =>
      have hagain := Discovery.discover_again inclusion (project.site services options program)
        (project.visibleManifests services.view cache).val.1 ⟨project.lookup, project.symlinks⟩
      rw [Discovery.discover_project hprogram hoff]
      simp only [Probed.val_bind, Probed.val_pure]
      exact discover_of_remembered hprogram hoff
        (visibleManifests_again hnormal services.view cache _ _) hagain

end Project

end AutoImport
