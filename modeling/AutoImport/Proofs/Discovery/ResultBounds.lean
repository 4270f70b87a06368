import AutoImport.Proofs.Discovery.DependencyCap
import AutoImport.Proofs.Discovery.Settlements

/-!
# Bounds on what is found

A run keeps four accounts: the roots, their keys, the contributing dependencies and the directories
of their packages.  They stay in step (`Run.Balanced`), because a dependency takes at most one
package, a package has at most `maxEntrypoints` roots, and it counts exactly if one of them is new.
The bounds on a result follow, for a project of a session and for a host outside one
(`Result.Sound`).
-/

set_option autoImplicit false

namespace AutoImport.Discovery

/-! ## Offers -/

/-- A root that an entry point gives is not part of the project's program. -/
theorem hasSource_of_rootOf? {site : Site} {directory entry root : String} {real : Option String}
    (h : site.rootOf? directory real entry = some root) : site.program.hasSource root = false := by
  unfold Site.rootOf? at h
  cases real with
  | none =>
    dsimp only at h
    split at h
    · exact absurd h (by simp)
    · rename_i hsource
      rw [← Option.some.inj h]
      exact Bool.eq_false_iff.2 hsource
  | some real =>
    dsimp only at h
    split at h
    · exact absurd h (by simp)
    · rename_i hsource
      rw [Bool.or_eq_true, not_or] at hsource
      rw [← Option.some.inj h]
      exact Bool.eq_false_iff.2 hsource.1

/-- An offer has at most `maxEntrypoints` roots, none of them in the project's program. -/
theorem offer?_roots {site : Site} {kind : EntryKind} {manifest : Manifest} {offer : Offer}
    (h : site.offer? kind manifest = some offer) :
    offer.roots.length ≤ maxEntrypoints ∧
      ∀ root ∈ offer.roots, site.program.hasSource root = false := by
  obtain ⟨roots, hroots, rfl⟩ := Option.map_eq_some_iff.1 h
  unfold Site.packageRoots? at hroots
  cases hentries : (entrypoints site.view kind site.options manifest).val with
  | none =>
    rw [hentries] at hroots
    exact absurd hroots (by simp)
  | some entries =>
    rw [hentries] at hroots
    dsimp only at hroots
    split at hroots
    · exact absurd hroots (by simp)
    · rename_i hcap
      rw [← Option.some.inj hroots]
      refine ⟨Nat.le_trans (List.length_filterMap_le _ entries) (Nat.not_lt.1 hcap), ?_⟩
      intro root hroot
      obtain ⟨entry, -, hentry⟩ := List.mem_filterMap.1 hroot
      exact hasSource_of_rootOf? hentry

/-- What settles a dependency is the offer of a package. -/
theorem exists_offer?_of_settle {site : Site} {packageName : String} {lookup : PackageLookup}
    {offer : Offer} (h : (site.settle packageName lookup).1 = some offer) :
    ∃ kind manifest, site.offer? kind manifest = some offer := by
  unfold Site.settle at h
  dsimp only at h
  split at h
  · rename_i typed htyped
    obtain ⟨manifest, -, hoffer⟩ := Option.bind_eq_some_iff.1 htyped
    exact ⟨.typed, manifest, hoffer.trans h⟩
  · split at h
    · exact ⟨.typed, _, h⟩
    · dsimp only at h
      split at h
      · obtain ⟨manifest, -, hoffer⟩ := Option.bind_eq_some_iff.1 h
        exact ⟨.script, manifest, hoffer⟩
      · exact absurd h (by simp)

/-! ## Runs -/

/-- The accounts of a run are in step. -/
structure Run.Balanced (site : Site) (run : Run) : Prop where
  rootKeys : run.rootKeys = run.roots.map site.key
  distinct : (run.roots.map site.key).Nodup
  outside : ∀ root ∈ run.roots, site.program.hasSource root = false
  packages : run.packageDirectories.length ≤ run.added
  contributes : run.roots ≠ [] → run.packageDirectories ≠ []
  added : run.added ≤ run.roots.length
  roots : run.roots.length ≤ maxEntrypoints * run.added

/-- A root is new by its key, and then it is new among the roots too. -/
theorem addRoot_eq (site : Site) (run : Run) (root : String)
    (hkeys : run.rootKeys = run.roots.map site.key) :
    (site.key root ∈ run.roots.map site.key ∧ run.addRoot site root = run) ∨
      (site.key root ∉ run.roots.map site.key ∧
        run.addRoot site root =
          { run with
            roots := run.roots ++ [root]
            rootKeys := (run.roots ++ [root]).map site.key }) := by
  unfold Run.addRoot
  rw [hkeys]
  split
  · rename_i hmem
    exact Or.inl ⟨hmem, rfl⟩
  · rename_i hmem
    have hnew : root ∉ run.roots := fun h => hmem (List.mem_map_of_mem h)
    refine Or.inr ⟨hmem, ?_⟩
    unfold insertNew
    rw [if_neg hnew, List.map_append, List.map_singleton]

/-- The roots of a package add those of them that are new, in order. -/
theorem foldl_addRoot_eq (site : Site) (roots : List String) (run : Run)
    (hkeys : run.rootKeys = run.roots.map site.key) (hdistinct : (run.roots.map site.key).Nodup) :
    ∃ new, new.Sublist roots ∧ ((run.roots ++ new).map site.key).Nodup ∧
      roots.foldl (Run.addRoot site) run =
        { run with
          roots := run.roots ++ new
          rootKeys := (run.roots ++ new).map site.key } := by
  induction roots generalizing run with
  | nil =>
    refine ⟨[], .slnil, ?_, ?_⟩
    · rw [List.append_nil]
      exact hdistinct
    · rw [List.append_nil, ← hkeys]
      rfl
  | cons root rest ih =>
    rw [List.foldl_cons]
    rcases addRoot_eq site run root hkeys with ⟨-, heq⟩ | ⟨hmem, heq⟩
    · rw [heq]
      obtain ⟨new, hsublist, hnodup, hfold⟩ := ih run hkeys hdistinct
      exact ⟨new, hsublist.cons root, hnodup, hfold⟩
    · have hnext : ((run.roots ++ [root]).map site.key).Nodup := by
        rw [List.map_append, List.map_singleton]
        refine List.nodup_append.2 ⟨hdistinct, by simp, ?_⟩
        intro key hkey other hother hsame
        rw [hsame, List.mem_singleton.1 hother] at hkey
        exact hmem hkey
      rw [heq]
      obtain ⟨new, hsublist, hnodup, hfold⟩ :=
        ih { run with
          roots := run.roots ++ [root]
          rootKeys := (run.roots ++ [root]).map site.key } rfl hnext
      refine ⟨root :: new, hsublist.cons_cons root, ?_⟩
      rw [List.append_cons run.roots root new]
      exact ⟨hnodup, hfold⟩

/-- A package either adds no root, or it adds some and counts. -/
theorem takePackage_eq (site : Site) (manifest : Manifest) (roots : List String) {run : Run}
    (hkeys : run.rootKeys = run.roots.map site.key) (hdistinct : (run.roots.map site.key).Nodup) :
    ∃ new symlinks, new.Sublist roots ∧ ((run.roots ++ new).map site.key).Nodup ∧
      ((new = [] ∧ run.takePackage site manifest roots = { run with symlinks }) ∨
        (new ≠ [] ∧ run.takePackage site manifest roots =
          { run with
            symlinks
            roots := run.roots ++ new
            rootKeys := (run.roots ++ new).map site.key
            added := run.added + 1
            packageDirectories :=
              insertNew run.packageDirectories (site.packageKey manifest) })) := by
  have hlink : ∃ symlinks, run.recordLink site manifest.directory
      (site.linkedDirectory? manifest.directory) = { run with symlinks } := by
    cases site.linkedDirectory? manifest.directory with
    | none => exact ⟨run.symlinks, rfl⟩
    | some real => exact ⟨_, rfl⟩
  obtain ⟨symlinks, hlink⟩ := hlink
  obtain ⟨new, hsublist, hnodup, hfold⟩ :=
    foldl_addRoot_eq site roots { run with symlinks } hkeys hdistinct
  refine ⟨new, symlinks, hsublist, hnodup, ?_⟩
  unfold Run.takePackage Run.addRoots
  dsimp only
  rw [hlink, hfold]
  dsimp only
  rw [hkeys, List.map_append, List.length_append]
  by_cases hnew : new = []
  · subst hnew
    left
    rw [if_neg (by simp), List.map_nil, List.append_nil, List.append_nil, ← hkeys]
    exact ⟨rfl, rfl⟩
  · have hpos : 0 < (new.map site.key).length := by
      rw [List.length_map]
      exact List.length_pos_iff.2 hnew
    right
    rw [if_pos (by omega)]
    exact ⟨hnew, rfl⟩

/-- The accounts of a run that has done nothing are in step. -/
theorem balanced_start (site : Site) (caches : Caches) :
    Run.Balanced site { toCaches := caches } where
  rootKeys := rfl
  distinct := .nil
  outside _ hroot := absurd hroot (by simp)
  packages := Nat.le_refl _
  contributes h := absurd rfl h
  added := Nat.le_refl _
  roots := Nat.zero_le _

/-- A package of at most `maxEntrypoints` roots outside of the program keeps a run balanced and
counts at most once. -/
theorem Run.Balanced.takePackage {site : Site} {run : Run} (h : run.Balanced site)
    (manifest : Manifest) {roots : List String} (hcap : roots.length ≤ maxEntrypoints)
    (houtside : ∀ root ∈ roots, site.program.hasSource root = false) :
    (run.takePackage site manifest roots).Balanced site ∧
      (run.takePackage site manifest roots).added ≤ run.added + 1 := by
  obtain ⟨new, symlinks, hsublist, hnodup, ⟨-, heq⟩ | ⟨hnew, heq⟩⟩ :=
    takePackage_eq site manifest roots h.rootKeys h.distinct
  · rw [heq]
    exact ⟨⟨h.rootKeys, h.distinct, h.outside, h.packages, h.contributes, h.added, h.roots⟩,
      Nat.le_succ _⟩
  · have hlength := hsublist.length_le
    have hpos := List.length_pos_iff.2 hnew
    have hadded := h.added
    have hroots := h.roots
    rw [heq]
    refine ⟨⟨rfl, hnodup, ?_, ?_, fun _ => ?_, ?_, ?_⟩, Nat.le_refl _⟩
    · intro root hroot
      rcases List.mem_append.1 hroot with hroot | hroot
      · exact h.outside root hroot
      · exact houtside root (hsublist.subset hroot)
    · show (insertNew run.packageDirectories _).length ≤ run.added + 1
      have hpackages := h.packages
      unfold insertNew
      split
      · omega
      · rw [List.length_append, List.length_singleton]
        omega
    · exact List.ne_nil_of_mem ((mem_insertNew _ _ _).2 (Or.inr rfl))
    · show run.added + 1 ≤ (run.roots ++ new).length
      rw [List.length_append]
      omega
    · show (run.roots ++ new).length ≤ maxEntrypoints * (run.added + 1)
      rw [List.length_append, Nat.mul_succ]
      omega

/-- A dependency keeps a run balanced and counts at most once. -/
theorem Run.Balanced.addDependency {site : Site} {run : Run} (h : run.Balanced site)
    (packageName : String) :
    (run.addDependency site packageName).val.Balanced site ∧
      (run.addDependency site packageName).val.added ≤ run.added + 1 := by
  have hlooked : Run.Balanced site
      { run with lookup := (site.settle packageName run.lookup).2 } :=
    ⟨h.rootKeys, h.distinct, h.outside, h.packages, h.contributes, h.added, h.roots⟩
  rw [addDependency_eq_take]
  cases hsettle : (site.settle packageName run.lookup).1 with
  | none => exact ⟨hlooked, Nat.le_succ _⟩
  | some offer =>
    obtain ⟨kind, manifest, hoffer⟩ := exists_offer?_of_settle hsettle
    obtain ⟨hcap, houtside⟩ := offer?_roots hoffer
    exact hlooked.takePackage offer.manifest hcap houtside

/-- A run that finishes is balanced, counts no dependency twice and respects the cap. -/
theorem Run.Balanced.addDependencies {site : Site} {inclusion : Inclusion} (names : List String)
    {run final : Run} (h : run.Balanced site)
    (hfinal : (run.addDependencies site inclusion names).val.1 = some final) :
    final.Balanced site ∧ final.added ≤ run.added + names.length ∧
      (inclusion = .auto → run.added ≤ maxDependencies → final.added ≤ maxDependencies) := by
  induction names generalizing run with
  | nil =>
    obtain rfl : run = final := Option.some.inj hfinal
    exact ⟨h, Nat.le_refl _, fun _ hcap => hcap⟩
  | cons name rest ih =>
    obtain ⟨hnext, hone⟩ := h.addDependency name
    rw [Run.addDependencies, Probed.val_bind] at hfinal
    split at hfinal
    · exact absurd hfinal (by simp)
    · rename_i hwithin
      obtain ⟨hbalanced, hcount, hcap⟩ := ih hnext hfinal
      refine ⟨hbalanced, ?_, fun hauto _ => hcap hauto ?_⟩
      · rw [List.length_cons]
        omega
      · exact Nat.not_lt.1 fun habove => hwithin ⟨hauto, habove⟩

/-- Only an open choice is dropped. -/
theorem eq_auto_of_dropped {site : Site} {inclusion : Inclusion} (names : List String) {run : Run}
    (h : (run.addDependencies site inclusion names).val.1 = none) : inclusion = .auto := by
  induction names generalizing run with
  | nil => exact absurd h (by simp [Run.addDependencies])
  | cons name rest ih =>
    rw [Run.addDependencies, Probed.val_bind] at h
    split at h
    · rename_i habove
      exact habove.1
    · exact ih h

/-! ## Results -/

/-- What a run over dependencies of the given names can find for a project with the given program
and keys. -/
structure Result.Sound (inclusion : Inclusion) (key : String → String) (program : Option Program)
    (names : List String) (result : Result) : Prop where
  /-- No two roots are the same file. -/
  distinct : (result.roots.map key).Nodup
  /-- No root is part of the project's program. -/
  outside : ∀ compiled, program = some compiled →
    ∀ root ∈ result.roots, compiled.hasSource root = false
  packages_le_added : result.packageDirectories.length ≤ result.added
  packages_ne_nil : result.roots ≠ [] → result.packageDirectories ≠ []
  added_le_names : result.added ≤ names.length
  added_le_roots : result.added ≤ result.roots.length
  roots_le_added : result.roots.length ≤ maxEntrypoints * result.added
  /-- Only an open choice is dropped, and then nothing of it is left. -/
  aborted : result.aborted = true → inclusion = .auto ∧
    result = { roots := [], added := 0, packageDirectories := [], aborted := true }
  added_le_cap : inclusion = .auto →
    result.added ≤ maxDependencies ∧ result.roots.length ≤ maxEntrypoints * maxDependencies

/-- To find nothing is sound. -/
theorem sound_nothing (inclusion : Inclusion) (key : String → String) (program : Option Program)
    (names : List String) : Result.Sound inclusion key program names {} where
  distinct := .nil
  outside _ _ _ hroot := absurd hroot (by simp)
  packages_le_added := Nat.le_refl _
  packages_ne_nil h := absurd rfl h
  added_le_names := Nat.zero_le _
  added_le_roots := Nat.le_refl _
  roots_le_added := Nat.le_refl _
  aborted h := absurd h (by simp)
  added_le_cap _ := ⟨Nat.zero_le _, Nat.zero_le _⟩

/-- A dropped run is sound for an open choice. -/
theorem sound_aborted (key : String → String) (program : Option Program) (names : List String) :
    Result.Sound .auto key program names { aborted := true } :=
  { sound_nothing .auto key program names with aborted := fun _ => ⟨rfl, rfl⟩ }

/-- A run over the dependencies that manifests list finds a sound result. -/
theorem discover_sound_site (inclusion : Inclusion) (site : Site) (manifests : List Manifest)
    (caches : Caches) :
    (discover inclusion site manifests caches).val.1.Sound inclusion site.key (some site.program)
      (dependencyNames manifests) := by
  rw [discover_val]
  dsimp only
  cases houtcome : (Run.addDependencies site inclusion (dependencyNames manifests)
      { toCaches := caches }).val.1 with
  | none =>
    rw [eq_auto_of_dropped _ houtcome]
    exact sound_aborted site.key _ _
  | some final =>
    obtain ⟨hbalanced, hcount, hcap⟩ := (balanced_start site caches).addDependencies _ houtcome
    refine ⟨hbalanced.distinct, ?_, hbalanced.packages, hbalanced.contributes, ?_,
      hbalanced.added, hbalanced.roots, fun h => absurd h (by simp [Run.result]), fun hauto => ?_⟩
    · rintro compiled hcompiled root hroot
      rw [← Option.some.inj hcompiled]
      exact hbalanced.outside root hroot
    · show final.added ≤ _
      have hzero : ({ toCaches := caches } : Run).added = 0 := rfl
      omega
    · have hadded := hcap hauto (Nat.zero_le _)
      exact ⟨hadded, Nat.le_trans hbalanced.roots (Nat.mul_le_mul_left _ hadded)⟩

end AutoImport.Discovery

namespace AutoImport

open Discovery

/-- A project's result keeps every bound: roots, packages, and the dependencies it may take. -/
theorem Project.discover_isSound (services : Services) (inclusion : Inclusion)
    (options : CompilerOptions) (project : Project) (cache : ManifestCache) :
    (project.discover services inclusion options cache).val.1.Sound inclusion project.key
      project.program (dependencyNames (project.visibleManifests services.view cache).val.1) := by
  cases hprogram : project.program with
  | none =>
    rw [discover_nothing (Or.inr hprogram)]
    exact sound_nothing _ _ _ _
  | some program =>
    cases hoff : inclusion.isOff with
    | true =>
      rw [discover_nothing (Or.inl hoff)]
      exact sound_nothing _ _ _ _
    | false =>
      rw [discover_project hprogram hoff]
      simp only [Probed.val_bind, Probed.val_pure]
      exact discover_sound_site inclusion
        ((project.visibleManifests services.view cache).val.2.1.site services options program) _ _

/-- A standalone result keeps the same bounds as a project's. -/
theorem Standalone.discover_isSound (view : FileView) (inclusion : Inclusion)
    (options : CompilerOptions) (host : Standalone) :
    (host.discover view inclusion options).val.1.Sound inclusion
      (fun path => Path.canonical path host.directory host.caseSensitive) host.program
      (dependencyNames host.manifests) := by
  cases hprogram : host.program with
  | none =>
    unfold Standalone.discover
    rw [hprogram]
    cases inclusion.isOff <;> exact sound_nothing _ _ _ _
  | some program =>
    cases hoff : inclusion.isOff with
    | true =>
      unfold Standalone.discover
      rw [hoff]
      exact sound_nothing _ _ _ _
    | false =>
      rw [discover_standalone hprogram hoff]
      simp only [Probed.val_bind, Probed.val_pure]
      exact discover_sound_site inclusion
        { view
          directory := host.directory
          caseSensitive := host.caseSensitive
          options
          program
          typings := host.typings
          resolutions := none } _ _

/-- Whatever the inclusion, the options, the file system and the memories, what is found for
a project of a session or for a host outside one is sound. -/
theorem Discovery.discover_sound :
    (∀ (services : Services) (inclusion : Inclusion) (options : CompilerOptions)
      (project : Project) (cache : ManifestCache),
      (project.discover services inclusion options cache).val.1.Sound inclusion project.key
        project.program
        (dependencyNames (project.visibleManifests services.view cache).val.1)) ∧
    ∀ (view : FileView) (inclusion : Inclusion) (options : CompilerOptions) (host : Standalone),
      (host.discover view inclusion options).val.1.Sound inclusion
        (fun path => Path.canonical path host.directory host.caseSensitive) host.program
        (dependencyNames host.manifests) :=
  ⟨Project.discover_isSound, Standalone.discover_isSound⟩

-- What an open choice can find at most.
example : maxEntrypoints * maxDependencies = 1000 := rfl

end AutoImport
