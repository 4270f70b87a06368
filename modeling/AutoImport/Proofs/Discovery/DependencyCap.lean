import AutoImport.Proofs.Discovery.PackageSteps
import AutoImport.Standalone

/-!
# The cap on dependencies

An open choice (`Inclusion.auto`) is tested against the cap after each dependency, while a firm
choice (`Inclusion.on`) never is.  The number of contributing dependencies only grows along a run,
so the test fires somewhere exactly if the firm run ends above the cap.  Hence the two runs from one
state are the same run, with the same answer, the same memories and the same probes, as long as the
firm one stays within the cap, and otherwise the open one is dropped as a whole.
-/

set_option autoImplicit false

namespace AutoImport.Discovery

/-- Adding a root leaves the number of dependencies as it is. -/
theorem added_foldl_addRoot (site : Site) (roots : List String) (run : Run) :
    (roots.foldl (Run.addRoot site) run).added = run.added := by
  induction roots generalizing run with
  | nil => rfl
  | cons root rest ih =>
    rw [List.foldl_cons, ih]
    unfold Run.addRoot
    split <;> rfl

/-- The roots of a package never lower the number of dependencies. -/
theorem le_added_addRoots (site : Site) (roots : List String) (directoryKey : String) (run : Run) :
    run.added ≤ (run.addRoots site roots directoryKey).added := by
  have hfold := added_foldl_addRoot site roots run
  unfold Run.addRoots
  dsimp only
  split
  · show run.added ≤ (roots.foldl (Run.addRoot site) run).added + 1
    omega
  · omega

/-- Recording a link does not count as adding a dependency. -/
theorem added_recordLink (site : Site) (directory : String) (real : Option String) (run : Run) :
    (run.recordLink site directory real).added = run.added := by
  cases real <;> rfl

/-- Taking a package never lowers the count of dependencies added. -/
theorem le_added_takePackage (site : Site) (manifest : Manifest) (roots : List String)
    (run : Run) : run.added ≤ (run.takePackage site manifest roots).added := by
  have hlink := added_recordLink site manifest.directory
    (site.linkedDirectory? manifest.directory) run
  unfold Run.takePackage
  rw [← hlink]
  exact le_added_addRoots site roots _ _

/-- A dependency never lowers the number of dependencies. -/
theorem le_added_addDependency (site : Site) (packageName : String) (run : Run) :
    run.added ≤ (run.addDependency site packageName).val.added := by
  refine addDependency_preserves (P := fun later => run.added ≤ later.added) ?_ ?_ packageName
    (Nat.le_refl _)
  · intro later lookup h
    exact h
  · intro manifest roots later h
    exact Nat.le_trans h (le_added_takePackage site manifest roots later)

/-- A firm run always finishes, with at least the dependencies that it started with. -/
theorem addDependencies_on_finishes (site : Site) (names : List String) (run : Run) :
    ∃ final, (run.addDependencies site .on names).val = (some final, final.toCaches) ∧
      run.added ≤ final.added := by
  induction names generalizing run with
  | nil => exact ⟨run, rfl, Nat.le_refl _⟩
  | cons name rest ih =>
    obtain ⟨final, hfinal, hle⟩ := ih (run.addDependency site name).val
    refine ⟨final, ?_, Nat.le_trans (le_added_addDependency site name run) hle⟩
    rw [Run.addDependencies, Probed.val_bind, if_neg (by simp), hfinal]

/-- From a run within the cap, the open run is the firm one if that ends within the cap, and is
dropped otherwise. -/
theorem addDependencies_auto_of_on (site : Site) (names : List String) {run final : Run}
    {caches : Caches} (hrun : run.added ≤ maxDependencies)
    (hfinal : (run.addDependencies site .on names).val = (some final, caches)) :
    (final.added ≤ maxDependencies →
        run.addDependencies site .auto names = run.addDependencies site .on names) ∧
      (maxDependencies < final.added → (run.addDependencies site .auto names).val.1 = none) := by
  induction names generalizing run with
  | nil =>
    have he : run = final := by
      simpa [Run.addDependencies] using congrArg Prod.fst hfinal
    subst he
    exact ⟨fun _ => rfl, fun h => absurd hrun (Nat.not_le.2 h)⟩
  | cons name rest ih =>
    rw [Run.addDependencies, Probed.val_bind, if_neg (by simp)] at hfinal
    obtain ⟨last, hlast, hle⟩ :=
      addDependencies_on_finishes site rest (run.addDependency site name).val
    have hsame : last = final := by
      rw [hlast] at hfinal
      simpa using congrArg Prod.fst hfinal
    subst hsame
    by_cases hcap : maxDependencies < (run.addDependency site name).val.added
    · -- The test fires here; the firm run can only end higher.
      refine ⟨fun h => ?_, fun _ => ?_⟩
      · omega
      · rw [Run.addDependencies, Probed.val_bind, if_pos ⟨rfl, hcap⟩]
        rfl
    · have hstep : ∀ (inclusion : Inclusion), run.addDependencies site inclusion (name :: rest) =
          run.addDependency site name >>= fun next => next.addDependencies site inclusion rest := by
        intro inclusion
        rw [Run.addDependencies]
        exact Probed.bind_congr_val (if_neg fun h => hcap h.2)
      obtain ⟨hwithin, habove⟩ := ih (Nat.not_lt.1 hcap) hfinal
      refine ⟨fun h => ?_, fun h => ?_⟩
      · rw [hstep, hstep]
        exact Probed.bind_congr_val (hwithin h)
      · rw [hstep, Probed.val_bind]
        exact habove h

/-- The two runs over the same manifests from the same memories. -/
theorem discover_auto_of_on (site : Site) (manifests : List Manifest) (caches : Caches) :
    ((discover .on site manifests caches).val.1.added ≤ maxDependencies →
        discover .auto site manifests caches = discover .on site manifests caches) ∧
      (maxDependencies < (discover .on site manifests caches).val.1.added →
        (discover .auto site manifests caches).val.1 = { aborted := true }) := by
  obtain ⟨final, hfinal, -⟩ :=
    addDependencies_on_finishes site (dependencyNames manifests) { toCaches := caches }
  obtain ⟨hwithin, habove⟩ :=
    addDependencies_auto_of_on site (dependencyNames manifests) (Nat.zero_le _) hfinal
  have hadded : (discover .on site manifests caches).val.1.added = final.added := by
    unfold discover
    rw [Probed.val_bind, hfinal]
    rfl
  rw [hadded]
  refine ⟨fun h => ?_, fun h => ?_⟩
  · unfold discover
    dsimp only
    rw [hwithin h]
  · have hnone := habove h
    unfold discover
    rw [Probed.val_bind]
    generalize (Run.addDependencies site .auto (dependencyNames manifests) _).val = outcome at hnone
    obtain ⟨finished, left⟩ := outcome
    subst hnone
    rfl

/-- A host outside a session runs over its own manifests and keeps the memories of the run. -/
theorem discover_standalone {host : Standalone} {program : Program} {inclusion : Inclusion}
    (hprogram : host.program = some program) (hinclusion : inclusion.isOff = false)
    (view : FileView) (options : CompilerOptions) :
    host.discover view inclusion options =
      discover inclusion
          { view
            directory := host.directory
            caseSensitive := host.caseSensitive
            options
            program
            typings := host.typings
            resolutions := none } host.manifests ⟨host.lookup, host.symlinks⟩ >>=
        fun found =>
          pure (found.1, { host with lookup := found.2.lookup, symlinks := found.2.symlinks }) := by
  unfold Standalone.discover
  rw [hprogram, hinclusion]

/-- The cap as a law of two runs, for a project of a session and for a host outside one.  From the
same state, the open run is the firm run, answer, memories and probes included, if the firm one
counts at most `maxDependencies` dependencies; if it counts more, the open run finds nothing and is
marked as aborted. -/
theorem auto_eq_on_or_aborted :
    (∀ (services : Services) (options : CompilerOptions) (project : Project)
      (cache : ManifestCache),
      ((project.discover services .on options cache).val.1.added ≤ maxDependencies →
          project.discover services .auto options cache =
            project.discover services .on options cache) ∧
        (maxDependencies < (project.discover services .on options cache).val.1.added →
          (project.discover services .auto options cache).val.1 =
            { roots := [], added := 0, packageDirectories := [], aborted := true })) ∧
    (∀ (view : FileView) (options : CompilerOptions) (host : Standalone),
      ((host.discover view .on options).val.1.added ≤ maxDependencies →
          host.discover view .auto options = host.discover view .on options) ∧
        (maxDependencies < (host.discover view .on options).val.1.added →
          (host.discover view .auto options).val.1 =
            { roots := [], added := 0, packageDirectories := [], aborted := true })) := by
  constructor
  · intro services options project cache
    cases hprogram : project.program with
    | none => simp [Project.discover, hprogram, Inclusion.isOff, maxDependencies]
    | some program =>
      rw [discover_project hprogram rfl, discover_project hprogram rfl]
      simp only [Probed.val_bind, Probed.val_pure]
      obtain ⟨hwithin, habove⟩ := discover_auto_of_on
        ((project.visibleManifests services.view cache).val.2.1.site services options program)
        (project.visibleManifests services.view cache).val.1
        ⟨(project.visibleManifests services.view cache).val.2.1.lookup,
          (project.visibleManifests services.view cache).val.2.1.symlinks⟩
      refine ⟨fun h => Probed.bind_congr_val ?_, habove⟩
      rw [hwithin h]
  · intro view options host
    cases hprogram : host.program with
    | none => simp [Standalone.discover, hprogram, Inclusion.isOff, maxDependencies]
    | some program =>
      rw [discover_standalone hprogram rfl, discover_standalone hprogram rfl]
      simp only [Probed.val_bind, Probed.val_pure]
      obtain ⟨hwithin, habove⟩ := discover_auto_of_on
        { view
          directory := host.directory
          caseSensitive := host.caseSensitive
          options
          program
          typings := host.typings
          resolutions := none } host.manifests ⟨host.lookup, host.symlinks⟩
      refine ⟨fun h => ?_, habove⟩
      rw [hwithin h]

/-- A file system in which every path is a directory and a file with an empty manifest. -/
def everywhere : FileView where
  fileExists _ := true
  directoryExists _ := true
  readText _ := some "{}"
  realPath _ := none
  directories _ := []
  files _ := []
  caseSensitive := true
  extent := 0

/-- A host that depends on the packages of the given names. -/
def dependingOn (names : List String) : Standalone where
  directory := "/"
  caseSensitive := true
  options := {}
  inclusion := .auto
  typings := none
  manifests :=
    [{ fileName := "/package.json"
       directory := "/"
       dependencies := some ⟨names.map fun name => (name, "1")⟩ }]
  program := some { id := 0, roots := [], sources := [] }
  symlinks := { base := "/", caseSensitive := true }

/-- Two packages are within the cap and eleven are above it. -/
theorem auto_eq_on_or_aborted_two_eleven :
    (((dependingOn ["a", "b"]).discover everywhere .on {}).val.1.added ≤ maxDependencies ∧
      (dependingOn ["a", "b"]).discover everywhere .auto {} =
        (dependingOn ["a", "b"]).discover everywhere .on {}) ∧
    (maxDependencies < ((dependingOn ["a", "b", "c", "d", "e", "f", "g", "h", "i", "j",
        "k"]).discover everywhere .on {}).val.1.added ∧
      ((dependingOn ["a", "b", "c", "d", "e", "f", "g", "h", "i", "j",
        "k"]).discover everywhere .auto {}).val.1 =
        { roots := [], added := 0, packageDirectories := [], aborted := true }) := by
  have hwithin : ((dependingOn ["a", "b"]).discover everywhere .on {}).val.1.added ≤
      maxDependencies := by decide +kernel
  have habove : maxDependencies < ((dependingOn ["a", "b", "c", "d", "e", "f", "g", "h", "i", "j",
      "k"]).discover everywhere .on {}).val.1.added := by decide +kernel
  exact ⟨⟨hwithin, (auto_eq_on_or_aborted.2 _ _ _).1 hwithin⟩,
    ⟨habove, (auto_eq_on_or_aborted.2 _ _ _).2 habove⟩⟩

end AutoImport.Discovery
