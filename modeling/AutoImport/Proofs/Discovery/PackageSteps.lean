import AutoImport.Project

/-!
# The steps of a run

A run changes in two ways only: a lookup extends what is remembered about packages, and a package
that is found adds its roots.  `Site.packageRoots?` says what a package adds without looking at the
run, and `addPackage_val` says what adding it does.  A property of runs that both steps keep is kept
by a dependency (`addDependency_preserves`).
-/

set_option autoImplicit false

namespace AutoImport.Discovery

/-- The roots that a package offers; nothing if it has no entry points or too many. -/
def Site.packageRoots? (site : Site) (kind : EntryKind) (manifest : Manifest) :
    Option (List String) :=
  match (entrypoints site.view kind site.options manifest).val with
  | none => none
  | some entries =>
    if maxEntrypoints < entries.length then none
    else
      some (entries.filterMap
        (site.rootOf? manifest.directory (site.linkedDirectory? manifest.directory)))

/-- The key of the real directory of a package. -/
def Site.packageKey (site : Site) (manifest : Manifest) : String :=
  site.key ((site.linkedDirectory? manifest.directory).getD manifest.directory)

/-- The run after a package with the given roots. -/
def Run.takePackage (site : Site) (manifest : Manifest) (roots : List String) (run : Run) : Run :=
  (run.recordLink site manifest.directory (site.linkedDirectory? manifest.directory)).addRoots
    site roots (site.packageKey manifest)

/-- A package is taken if it offers roots, and otherwise leaves the run as it is. -/
theorem addPackage_val (site : Site) (kind : EntryKind) (manifest : Manifest) (run : Run) :
    (run.addPackage site kind manifest).val =
      match site.packageRoots? kind manifest with
      | none => (false, run)
      | some roots => (true, run.takePackage site manifest roots) := by
  unfold Run.addPackage Site.packageRoots?
  rw [Probed.val_bind]
  cases (entrypoints site.view kind site.options manifest).val with
  | none => rfl
  | some entries =>
    dsimp only
    split
    · rfl
    · rfl

/-- A lookup changes nothing but what is remembered about packages. -/
theorem lookUp_val (site : Site) (packageName directory : String) (run : Run) :
    (run.lookUp site packageName directory).val =
      ((PackageLookup.resolve site.view packageName directory run.lookup).val.1,
        { run with
          lookup := (PackageLookup.resolve site.view packageName directory run.lookup).val.2 }) :=
  rfl

/-- The steps of a dependency: it is looked up, and settled by its own types, by declared types or
by its scripts. -/
theorem addDependency_val (site : Site) (packageName : String) (run : Run) :
    (run.addDependency site packageName).val =
      let looked := (run.lookUp site packageName site.directory).val
      let typed := (looked.2.addTyped site looked.1).val
      let types :=
        (typed.2.addTypes site packageName (site.directory :: site.typings.toList)).val
      if typed.1 then typed.2
      else if types.1 then types.2
      else (types.2.addScripts site looked.1).val := by
  unfold Run.addDependency
  simp only [Probed.val_bind]
  split
  · rfl
  · rw [Probed.val_bind]
    split <;> rfl

section Preservation

variable {site : Site} {P : Run → Prop}

/-- What taking a package keeps, adding one keeps. -/
theorem addPackage_preserves (hpackage : ∀ manifest roots run, P run →
      P (run.takePackage site manifest roots)) (kind : EntryKind) (manifest : Manifest)
    {run : Run} (h : P run) : P (run.addPackage site kind manifest).val.2 := by
  rw [addPackage_val]
  cases site.packageRoots? kind manifest with
  | none => exact h
  | some roots => exact hpackage manifest roots run h

/-- A property that lookups and packages keep is kept by the search for declared types. -/
theorem addTypes_preserves (hlookup : ∀ (run : Run) lookup, P run → P { run with lookup })
    (hpackage : ∀ manifest roots run, P run → P (run.takePackage site manifest roots))
    (packageName : String) (directories : List String) {run : Run} (h : P run) :
    P (run.addTypes site packageName directories).val.2 := by
  induction directories generalizing run with
  | nil => exact h
  | cons directory rest ih =>
    have hfound := hlookup run
      (PackageLookup.resolve site.view (typesPackage packageName) directory run.lookup).val.2 h
    rw [Run.addTypes, Probed.val_bind, lookUp_val]
    cases
      (PackageLookup.resolve site.view (typesPackage packageName) directory run.lookup).val.1 with
    | none => exact ih hfound
    | some manifest => exact addPackage_preserves hpackage .typed manifest hfound

/-- A property that lookups and packages keep is kept by a dependency. -/
theorem addDependency_preserves (hlookup : ∀ (run : Run) lookup, P run → P { run with lookup })
    (hpackage : ∀ manifest roots run, P run → P (run.takePackage site manifest roots))
    (packageName : String) {run : Run} (h : P run) :
    P (run.addDependency site packageName).val := by
  have hfound : P (run.lookUp site packageName site.directory).val.2 := by
    rw [lookUp_val]
    exact hlookup run _ h
  rw [addDependency_val]
  dsimp only
  generalize (run.lookUp site packageName site.directory).val = looked at hfound ⊢
  obtain ⟨found, run⟩ := looked
  have htyped : P (run.addTyped site found).val.2 := by
    cases found with
    | none => exact hfound
    | some manifest => exact addPackage_preserves hpackage .typed manifest hfound
  generalize (run.addTyped site found).val = typed at htyped ⊢
  have htypes := addTypes_preserves hlookup hpackage packageName
    (site.directory :: site.typings.toList) htyped
  generalize (typed.2.addTypes site packageName _).val = types at htypes ⊢
  split
  · exact htyped
  · split
    · exact htypes
    · cases found with
      | none => exact htypes
      | some manifest =>
        unfold Run.addScripts
        dsimp only
        split
        · exact addPackage_preserves hpackage .script manifest htypes
        · exact htypes

end Preservation

/-- A project runs over the manifests that it sees and keeps the memories of the run. -/
theorem discover_project {project : Project} {program : Program} {inclusion : Inclusion}
    (hprogram : project.program = some program) (hinclusion : inclusion.isOff = false)
    (services : Services) (options : CompilerOptions) (cache : ManifestCache) :
    project.discover services inclusion options cache =
      project.visibleManifests services.view cache >>= fun seen =>
        discover inclusion (seen.2.1.site services options program) seen.1
            ⟨seen.2.1.lookup, seen.2.1.symlinks⟩ >>= fun found =>
          pure (found.1,
            { seen.2.1 with lookup := found.2.lookup, symlinks := found.2.symlinks },
            seen.2.2) := by
  unfold Project.discover
  rw [hprogram, hinclusion]

/-- Without inclusion or without a program nothing is looked for. -/
theorem discover_nothing {project : Project} {inclusion : Inclusion}
    (h : inclusion.isOff = true ∨ project.program = none) (services : Services)
    (options : CompilerOptions) (cache : ManifestCache) :
    project.discover services inclusion options cache = pure ({}, project, cache) := by
  unfold Project.discover
  rcases h with h | h
  · rw [h]
  · rw [h]
    cases inclusion.isOff <;> rfl

end AutoImport.Discovery
