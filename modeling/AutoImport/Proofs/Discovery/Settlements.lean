import AutoImport.Proofs.Discovery.FreshFindings

/-!
# What settles a dependency

A dependency looks up packages first and takes one of them last, if any.  `Site.settle` is the first
half: from what is remembered about packages it tells which package is taken, with which roots, and
what is remembered afterwards.  `addDependency_eq_take` puts the halves together.  So a dependency
takes at most one package, and which one depends on the run through its lookup only.
-/

set_option autoImplicit false

namespace AutoImport

/-- The first manifest of a list of directories is that of its first part, or else of the rest. -/
theorem PackageLookup.firstManifest_append (view : FileView) (first second : List String)
    (lookup : PackageLookup) :
    (firstManifest view (first ++ second) lookup).val =
      match (firstManifest view first lookup).val with
      | (some manifest, lookup) => (some manifest, lookup)
      | (none, lookup) => (firstManifest view second lookup).val := by
  induction first generalizing lookup with
  | nil => rfl
  | cons directory rest ih =>
    rw [List.cons_append, firstManifest, firstManifest, Probed.val_bind, Probed.val_bind]
    generalize (manifestIn view directory lookup).val = looked
    obtain ⟨found, after⟩ := looked
    cases found with
    | some manifest => rfl
    | none => exact ih after

namespace Discovery

/-- A package with the roots that it offers. -/
structure Offer where
  manifest : Manifest
  roots : List String

/-- What a package offers; nothing if it has no entry points or too many. -/
def Site.offer? (site : Site) (kind : EntryKind) (manifest : Manifest) : Option Offer :=
  (site.packageRoots? kind manifest).map (Offer.mk manifest)

/-- The run after an offer is taken. -/
def Run.take (site : Site) (offer : Option Offer) (run : Run) : Run :=
  match offer with
  | some offer => run.takePackage site offer.manifest offer.roots
  | none => run

/-- The directories in which the types of a dependency may be declared, in the order in which they
are looked at. -/
def Site.typesCandidates (site : Site) (packageName : String) : List String :=
  (site.directory :: site.typings.toList).flatMap
    (PackageLookup.candidates (typesPackage packageName))

/-- The offer that settles a dependency, and what is remembered after it was found. -/
def Site.settle (site : Site) (packageName : String) (lookup : PackageLookup) :
    Option Offer × PackageLookup :=
  let own := (PackageLookup.resolve site.view packageName site.directory lookup).val
  match own.1.bind (site.offer? .typed) with
  | some offer => (some offer, own.2)
  | none =>
    let declared :=
      (PackageLookup.firstManifest site.view (site.typesCandidates packageName) own.2).val
    match declared.1 with
    | some manifest => (site.offer? .typed manifest, declared.2)
    | none =>
      (if site.options.allowsDependencyScripts then own.1.bind (site.offer? .script) else none,
        declared.2)

/-- Adding a package is taking its offer. -/
theorem addPackage_eq_take (site : Site) (kind : EntryKind) (manifest : Manifest) (run : Run) :
    (run.addPackage site kind manifest).val =
      ((site.offer? kind manifest).isSome, run.take site (site.offer? kind manifest)) := by
  unfold Site.offer?
  rw [addPackage_val]
  cases site.packageRoots? kind manifest <;> rfl

/-- Adding a typed package is taking its typed offer, if it has one. -/
theorem addTyped_eq_take (site : Site) (found : Option Manifest) (run : Run) :
    (run.addTyped site found).val =
      ((found.bind (site.offer? .typed)).isSome,
        run.take site (found.bind (site.offer? .typed))) := by
  cases found with
  | none => rfl
  | some manifest => exact addPackage_eq_take site .typed manifest run

/-- Adding a package's scripts is taking its script offer, where the options allow scripts. -/
theorem addScripts_eq_take (site : Site) (found : Option Manifest) (run : Run) :
    (run.addScripts site found).val =
      run.take site
        (if site.options.allowsDependencyScripts then found.bind (site.offer? .script)
          else none) := by
  cases found with
  | none =>
    rw [Option.bind_none, ite_self]
    rfl
  | some manifest =>
    unfold Run.addScripts
    dsimp only
    split
    · rw [Probed.val_bind, addPackage_eq_take]
      rfl
    · rfl

/-- The search for declared types takes the offer of the first package that declares them. -/
theorem addTypes_eq_take (site : Site) (packageName : String) (directories : List String)
    (run : Run) :
    (run.addTypes site packageName directories).val =
      let declared := (PackageLookup.firstManifest site.view
        (directories.flatMap (PackageLookup.candidates (typesPackage packageName)))
        run.lookup).val
      (declared.1.isSome,
        Run.take site (declared.1.bind (site.offer? .typed))
          { run with lookup := declared.2 }) := by
  induction directories generalizing run with
  | nil => rfl
  | cons directory rest ih =>
    have hresolve : PackageLookup.resolve site.view (typesPackage packageName) directory
        run.lookup = PackageLookup.firstManifest site.view
          (PackageLookup.candidates (typesPackage packageName) directory) run.lookup := rfl
    rw [Run.addTypes, Probed.val_bind, lookUp_val, hresolve, List.flatMap_cons,
      PackageLookup.firstManifest_append]
    generalize (PackageLookup.firstManifest site.view
      (PackageLookup.candidates (typesPackage packageName) directory) run.lookup).val = looked
    obtain ⟨found, after⟩ := looked
    cases found with
    | none => exact ih { run with lookup := after }
    | some manifest =>
      dsimp only
      rw [Probed.val_bind, addPackage_eq_take]
      rfl

/-- A dependency is settled by the lookup of the run, and then its offer is taken. -/
theorem addDependency_eq_take (site : Site) (packageName : String) (run : Run) :
    (run.addDependency site packageName).val =
      Run.take site (site.settle packageName run.lookup).1
        { run with lookup := (site.settle packageName run.lookup).2 } := by
  rw [addDependency_val]
  unfold Site.settle Site.typesCandidates
  dsimp only
  rw [lookUp_val]
  generalize (PackageLookup.resolve site.view packageName site.directory run.lookup).val = own
  obtain ⟨found, after⟩ := own
  rw [addTyped_eq_take]
  cases htyped : found.bind (site.offer? .typed) with
  | some offer => rfl
  | none =>
    -- The package itself offers no types, so the run is as it was after the lookup.
    have hrun : Run.take site none { run with lookup := after } =
        { run with lookup := after } := rfl
    dsimp only
    rw [hrun, addTypes_eq_take]
    generalize (PackageLookup.firstManifest site.view
      ((site.directory :: site.typings.toList).flatMap
        (PackageLookup.candidates (typesPackage packageName))) after).val = declared
    obtain ⟨declaring, later⟩ := declared
    cases declaring with
    | some manifest => rfl
    | none => exact addScripts_eq_take site found { run with lookup := later }

/-! ## Taking offers -/

/-- Taking an offer asks the package lookup nothing. -/
theorem lookup_take (site : Site) (offer : Option Offer) (run : Run) :
    (run.take site offer).lookup = run.lookup := by
  cases offer with
  | none => rfl
  | some offer => exact lookup_takePackage site offer.manifest offer.roots run

/-- Two runs with the same findings still have the same ones after the same offer. -/
theorem Run.SameFindings.take {site : Site} {first second : Run} (h : first.SameFindings second)
    (offer : Option Offer) : (first.take site offer).SameFindings (second.take site offer) := by
  cases offer with
  | none => exact h
  | some offer => exact h.takePackage site offer.manifest offer.roots

/-- Runs with the same findings give the same result. -/
theorem Run.SameFindings.result {first second : Run} (h : first.SameFindings second) :
    first.result = second.result := by
  unfold Run.result
  rw [h.roots, h.packageDirectories, h.added]

/-- Adding a dependency leaves the lookup as settling the package does. -/
theorem lookup_addDependency (site : Site) (packageName : String) (run : Run) :
    (run.addDependency site packageName).val.lookup =
      (site.settle packageName run.lookup).2 := by
  rw [addDependency_eq_take, lookup_take]

end Discovery

end AutoImport
