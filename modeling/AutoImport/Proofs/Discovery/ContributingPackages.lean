import AutoImport.Proofs.Discovery.DependencyCap
import AutoImport.Proofs.Discovery.RepeatedRuns

/-!
# Packages that contribute

A dependency contributes to a run when its package adds a root.  `contributions` lists what these
packages offer, along a run.  A package was found in some directory, which may be a link to another
one, and `Run.Accounts` says what the run keeps of it: the key of the real directory among its
packages, and the link, unless it is one that is never tracked, in its table of links.

A table of links only grows by what is recorded in it, and every link that it knows is listed under
some real directory (`SymlinkTable.Extends`).  It is the first one under which the link was
recorded, so a link may well be listed under a directory that it does not lead to any
more. -/

set_option autoImplicit false

namespace AutoImport

/-- After an insertion a table contains the new key and what it contained before. -/
theorem Table.contains_insert {κ α : Type} [DecidableEq κ] (table : Table κ α) (key other : κ)
    (value : α) : (table.insert key value).contains other =
      (key = other || table.contains other) := by
  unfold Table.contains
  rw [Table.get?_insert]
  split
  · simp [*]
  · simp [*]

/-! ## Links that are known -/

namespace SymlinkTable

variable {before middle after table : SymlinkTable}

/-- Every directory that is known to be a link is listed under some real directory. -/
def Listed (table : SymlinkTable) : Prop :=
  ∀ link, table.directories.contains link = true → ∃ real, link ∈ table.linksTo real

/-- The second table knows at least the links of the first one. -/
structure Extends (before after : SymlinkTable) : Prop where
  base : after.base = before.base
  caseSensitive : after.caseSensitive = before.caseSensitive
  directories : ∀ link, before.directories.contains link = true →
    after.directories.contains link = true
  listed : before.Listed → after.Listed

/-- A link table extends itself. -/
theorem Extends.refl (table : SymlinkTable) : table.Extends table :=
  ⟨rfl, rfl, fun _ h => h, id⟩

/-- Extending a link table twice extends it. -/
theorem Extends.trans (first : before.Extends middle) (second : middle.Extends after) :
    before.Extends after where
  base := second.base.trans first.base
  caseSensitive := second.caseSensitive.trans first.caseSensitive
  directories link h := second.directories link (first.directories link h)
  listed h := second.listed (first.listed h)

/-- An extension of a link table keys paths the same way. -/
theorem Extends.key_eq (h : before.Extends after) (path : String) :
    after.key path = before.key path := by
  unfold key
  rw [h.base, h.caseSensitive]

/-- Recording a link keeps every forward entry listed in reverse. -/
theorem Listed.setDirectory (h : table.Listed) (link : String) (real : RealDirectory) :
    (table.setDirectory link real).Listed := by
  unfold SymlinkTable.setDirectory
  dsimp only
  split
  · exact h
  · intro other hother
    rw [Table.contains_insert, Bool.or_eq_true, decide_eq_true_eq] at hother
    split
    · -- A link that is known already is listed where it was.
      rename_i hknown
      apply h
      rcases hother with rfl | hother
      · exact hknown
      · exact hother
    · unfold linksTo
      simp only [Table.get?_insert]
      rcases hother with rfl | hother
      · refine ⟨real.realKey, ?_⟩
        simp
      · obtain ⟨listing, hlisting⟩ := h other hother
        refine ⟨listing, ?_⟩
        split
        · rename_i hsame
          subst hsame
          simp only [Option.getD_some, List.mem_append]
          exact Or.inl hlisting
        · exact hlisting

/-- Recording a link extends the table. -/
theorem extends_setDirectory (table : SymlinkTable) (link : String) (real : RealDirectory) :
    table.Extends (table.setDirectory link real) := by
  have hlisted : table.Listed → (table.setDirectory link real).Listed :=
    fun h => h.setDirectory link real
  cases hignored : isIgnored (table.key link) with
  | true =>
    rw [setDirectory_of_ignored real hignored]
    exact .refl table
  | false =>
    obtain ⟨byReal, hset, -⟩ := setDirectory_of_tracked real hignored
    rw [hset] at hlisted ⊢
    refine ⟨rfl, rfl, ?_, hlisted⟩
    intro other hother
    rw [Table.contains_insert, hother, Bool.or_true]

/-- A tracked link is known once it is recorded. -/
theorem contains_setDirectory {link : String} (real : RealDirectory)
    (h : isIgnored (table.key link) = false) :
    (table.setDirectory link real).directories.contains (table.key link) = true := by
  obtain ⟨byReal, hset, -⟩ := setDirectory_of_tracked real h
  rw [hset, Table.contains_insert, decide_eq_true rfl, Bool.true_or]

/-- Learning from one resolution extends the table. -/
theorem extends_learn (table : SymlinkTable) (resolution : ResolvedModule) :
    table.Extends (table.learn resolution) := by
  have hfile : ∀ link real, table.Extends (table.setFile link real) :=
    fun _ _ => ⟨rfl, rfl, fun _ h => h, fun h => h⟩
  unfold learn
  split
  · exact .refl table
  · dsimp only
    split
    · exact (hfile _ _).trans (extends_setDirectory _ _ _)
    · exact hfile _ _

/-- Learning from a list of resolutions extends the table. -/
theorem extends_foldl_learn (resolutions : List ResolvedModule) (table : SymlinkTable) :
    table.Extends (resolutions.foldl learn table) := by
  induction resolutions generalizing table with
  | nil => exact .refl table
  | cons resolution rest ih => exact (extends_learn table resolution).trans (ih _)

/-- Seeding a table extends it, seeded before or not. -/
theorem extends_seedOnce (table : SymlinkTable) (resolutions : Option (List ResolvedModule)) :
    table.Extends (table.seedOnce resolutions) := by
  unfold seedOnce
  split
  · split
    · exact .refl table
    · have hstart : table.Extends { table with isSeeded := true } :=
        ⟨rfl, rfl, fun _ h => h, fun h => h⟩
      exact hstart.trans (extends_foldl_learn _ _)
  · exact .refl table

/-- Recording the links of a whole run extends the table. -/
theorem extends_recordAll (resolutions : Option (List ResolvedModule)) (links : List Link)
    (table : SymlinkTable) : table.Extends (table.recordAll resolutions links) := by
  induction links generalizing table with
  | nil => exact .refl table
  | cons link rest ih =>
    exact ((extends_seedOnce table resolutions).trans (extends_setDirectory _ _ _)).trans (ih _)

/-- An emptied table has every forward entry listed, having none. -/
theorem listed_clear (table : SymlinkTable) : table.clear.Listed := by
  intro link hlink
  simp [clear, Table.contains, Table.get?, Table.lookupIn] at hlink

end SymlinkTable

/-! ## Runs -/

namespace Discovery

/-- The offers that contribute to a run, one for each contributing dependency. -/
def contributions (site : Site) : List String → Run → List Offer
  | [], _ => []
  | name :: rest, run =>
    let next := (run.addDependency site name).val
    let here := if run.added < next.added then (site.settle name run.lookup).1.toList else []
    here ++ contributions site rest next

/-- A later moment of a run has all packages and all links of an earlier one. -/
structure Run.Grows (before after : Run) : Prop where
  packages : ∀ directoryKey ∈ before.packageDirectories, directoryKey ∈ after.packageDirectories
  symlinks : before.symlinks.Extends after.symlinks

/-- The run has the real directory of a package, and the link to it if that is tracked. -/
structure Run.Accounts (site : Site) (run : Run) (directory : String) : Prop where
  package : site.key ((site.linkedDirectory? directory).getD directory) ∈ run.packageDirectories
  link : ∀ real, site.linkedDirectory? directory = some real →
    SymlinkTable.isIgnored (run.symlinks.key directory) = false →
      run.symlinks.directories.contains (run.symlinks.key directory) = true

variable {site : Site} {before middle after : Run} {directory : String}

/-- A run that grows twice has grown. -/
theorem Run.Grows.trans (first : before.Grows middle) (second : middle.Grows after) :
    before.Grows after :=
  ⟨fun directoryKey h => second.packages directoryKey (first.packages directoryKey h),
    first.symlinks.trans second.symlinks⟩

/-- A directory accounted for stays accounted for as the run grows. -/
theorem Run.Accounts.grows (h : before.Accounts site directory) (hgrows : before.Grows after) :
    after.Accounts site directory := by
  refine ⟨hgrows.packages _ h.package, ?_⟩
  intro real hreal hignored
  rw [hgrows.symlinks.key_eq] at hignored ⊢
  exact hgrows.symlinks.directories _ (h.link real hreal hignored)

/-- Adding roots leaves the package directories alone. -/
theorem packageDirectories_foldl_addRoot (site : Site) (roots : List String) (run : Run) :
    (roots.foldl (Run.addRoot site) run).packageDirectories = run.packageDirectories := by
  induction roots generalizing run with
  | nil => rfl
  | cons root rest ih =>
    rw [List.foldl_cons, ih]
    unfold Run.addRoot
    split <;> rfl

/-- Roots that are added leave the packages as they are, or add the one that they belong to, which
then counts. -/
theorem addRoots_cases (site : Site) (roots : List String) (directoryKey : String) (run : Run) :
    ((run.addRoots site roots directoryKey).packageDirectories = run.packageDirectories ∧
        (run.addRoots site roots directoryKey).added = run.added) ∨
      (run.addRoots site roots directoryKey).packageDirectories =
        insertNew run.packageDirectories directoryKey := by
  have hpackages := packageDirectories_foldl_addRoot site roots run
  have hadded := added_foldl_addRoot site roots run
  unfold Run.addRoots
  dsimp only
  split
  · right
    rw [← hpackages]
  · exact Or.inl ⟨hpackages, hadded⟩

/-- Taking a package records the links that its offer brings, and no others. -/
theorem symlinks_takePackage (site : Site) (offer : Offer) (run : Run) :
    (run.takePackage site offer.manifest offer.roots).symlinks =
      run.symlinks.recordAll site.resolutions (site.linksOf (some offer)) :=
  congrArg Caches.symlinks (toCaches_take site (some offer) run)

/-- Recording a link leaves the package directories alone. -/
theorem packageDirectories_recordLink (site : Site) (directory : String) (real : Option String)
    (run : Run) :
    (run.recordLink site directory real).packageDirectories = run.packageDirectories := by
  cases real <;> rfl

/-- Taking a package only adds roots, package directories and links. -/
theorem grows_takePackage (site : Site) (offer : Offer) (run : Run) :
    run.Grows (run.takePackage site offer.manifest offer.roots) := by
  constructor
  · intro directoryKey hmem
    rw [← packageDirectories_recordLink site offer.manifest.directory
      (site.linkedDirectory? offer.manifest.directory)] at hmem
    unfold Run.takePackage
    rcases addRoots_cases site offer.roots (site.packageKey offer.manifest)
      (run.recordLink site offer.manifest.directory
        (site.linkedDirectory? offer.manifest.directory)) with ⟨hsame, -⟩ | hmore
    · rw [hsame]
      exact hmem
    · rw [hmore]
      exact (mem_insertNew _ _ _).2 (Or.inl hmem)
  · rw [symlinks_takePackage]
    exact SymlinkTable.extends_recordAll _ _ _

/-- A package that counts is accounted for. -/
theorem accounts_takePackage {offer : Offer} {run : Run}
    (h : run.added < (run.takePackage site offer.manifest offer.roots).added) :
    (run.takePackage site offer.manifest offer.roots).Accounts site offer.manifest.directory := by
  constructor
  · unfold Run.takePackage at h ⊢
    rcases addRoots_cases site offer.roots (site.packageKey offer.manifest)
      (run.recordLink site offer.manifest.directory
        (site.linkedDirectory? offer.manifest.directory)) with ⟨-, hadded⟩ | hmore
    · rw [hadded, added_recordLink] at h
      omega
    · rw [hmore]
      exact (mem_insertNew _ _ _).2 (Or.inr rfl)
  · intro real hreal hignored
    have hlinks : site.linksOf (some offer) =
        [(offer.manifest.directory, ⟨real, site.key real⟩)] := by
      unfold Site.linksOf
      rw [Option.bind_some, hreal]
      rfl
    have hrecord : run.symlinks.recordAll site.resolutions (site.linksOf (some offer)) =
        (run.symlinks.seedOnce site.resolutions).setDirectory offer.manifest.directory
          ⟨real, site.key real⟩ := by
      rw [hlinks]
      rfl
    rw [symlinks_takePackage, hrecord] at hignored ⊢
    rw [(SymlinkTable.extends_setDirectory _ _ _).key_eq] at hignored ⊢
    exact SymlinkTable.contains_setDirectory _ hignored

/-- A dependency lets the run grow, and if it counts its package is accounted for. -/
theorem addDependency_accounts (site : Site) (packageName : String) (run : Run) :
    run.Grows (run.addDependency site packageName).val ∧
      (run.added < (run.addDependency site packageName).val.added →
        ∀ offer, (site.settle packageName run.lookup).1 = some offer →
          (run.addDependency site packageName).val.Accounts site offer.manifest.directory) := by
  rw [addDependency_eq_take]
  cases (site.settle packageName run.lookup).1 with
  | none =>
    refine ⟨⟨fun _ h => h, .refl _⟩, ?_⟩
    intro _ offer hoffer
    simp at hoffer
  | some taken =>
    have hgrows := grows_takePackage site taken
      { run with lookup := (site.settle packageName run.lookup).2 }
    refine ⟨⟨hgrows.packages, hgrows.symlinks⟩, ?_⟩
    intro hadded offer hoffer
    rw [← Option.some.inj hoffer]
    exact accounts_takePackage hadded

/-- A run that is not dropped accounts for all its contributors in the end. -/
theorem addDependencies_accounts {inclusion : Inclusion} {names : List String} {run final : Run}
    {caches : Caches} (h : (run.addDependencies site inclusion names).val = (some final, caches)) :
    run.Grows final ∧ caches = final.toCaches ∧
      ∀ offer ∈ contributions site names run, final.Accounts site offer.manifest.directory := by
  induction names generalizing run with
  | nil =>
    obtain ⟨rfl, rfl⟩ : run = final ∧ run.toCaches = caches := by
      simpa [Run.addDependencies] using h
    exact ⟨⟨fun _ h => h, .refl _⟩, rfl, by simp [contributions]⟩
  | cons name rest ih =>
    rw [Run.addDependencies, Probed.val_bind] at h
    split at h
    · simp at h
    · obtain ⟨hgrows, haccounts⟩ := addDependency_accounts site name run
      obtain ⟨hlater, hcaches, hrest⟩ := ih h
      refine ⟨hgrows.trans hlater, hcaches, ?_⟩
      intro offer hoffer
      rw [contributions] at hoffer
      rcases List.mem_append.1 hoffer with hhere | hthere
      · split at hhere
        · rename_i hadded
          exact (haccounts hadded offer (Option.mem_toList.1 hhere)).grows hlater
        · simp at hhere
      · exact hrest offer hthere

end Discovery

/-! ## Projects -/

namespace Project

variable {project : Project} {services : Services} {inclusion : Inclusion}
  {options : CompilerOptions} {cache : ManifestCache} {directory : String}

/-- The real directory of a package directory, as a discovery for the project sees it. -/
def realDirectory (view : FileView) (project : Project) (directory : String) : String :=
  ((view.realPath directory).filter fun real => project.key real ≠ project.key directory).getD
    directory

/-- The offers that contribute to a discovery for the project. -/
def contributions (services : Services) (options : CompilerOptions) (project : Project)
    (cache : ManifestCache) : List Discovery.Offer :=
  match project.program with
  | some program =>
    Discovery.contributions (project.site services options program)
      (Discovery.dependencyNames (project.visibleManifests services.view cache).val.1)
      { toCaches := ⟨project.lookup, project.symlinks⟩ }
  | none => []

/-- The directories in which the contributing packages were found. -/
def contributors (services : Services) (options : CompilerOptions) (project : Project)
    (cache : ManifestCache) : List String :=
  (project.contributions services options cache).map fun offer => offer.manifest.directory

/-- A discovery looks for nothing, or it is a run over the dependencies that the project sees. -/
theorem discover_cases (services : Services) (inclusion : Inclusion) (options : CompilerOptions)
    (project : Project) (cache : ManifestCache) :
    (project.discover services inclusion options cache).val = ({}, project, cache) ∨
      ∃ program, project.program = some program ∧
        let run := (Discovery.Run.addDependencies (project.site services options program) inclusion
          (Discovery.dependencyNames (project.visibleManifests services.view cache).val.1)
          { toCaches := ⟨project.lookup, project.symlinks⟩ }).val
        (project.discover services inclusion options cache).val.1 =
            (run.1.map Discovery.Run.result).getD { aborted := true } ∧
          (project.discover services inclusion options cache).val.2.1.symlinks =
            run.2.symlinks := by
  cases hprogram : project.program with
  | none =>
    left
    rw [Discovery.discover_nothing (Or.inr hprogram)]
    rfl
  | some program =>
    cases hoff : inclusion.isOff with
    | true =>
      left
      rw [Discovery.discover_nothing (Or.inl hoff)]
      rfl
    | false =>
      right
      refine ⟨program, rfl, ?_⟩
      rw [Discovery.discover_project hprogram hoff]
      simp only [Probed.val_bind, Probed.val_pure, Discovery.discover_val]
      exact ⟨rfl, rfl⟩

/-- A project's discovery only adds to its link table. -/
theorem extends_discover (services : Services) (inclusion : Inclusion) (options : CompilerOptions)
    (project : Project) (cache : ManifestCache) :
    project.symlinks.Extends
      (project.discover services inclusion options cache).val.2.1.symlinks := by
  rcases discover_cases services inclusion options project cache with hnothing |
    ⟨program, -, -, hsymlinks⟩
  · rw [hnothing]
    exact .refl _
  · obtain ⟨-, links, hlinks, -⟩ := Discovery.addDependencies_again
      (project.site services options program) inclusion
      (Discovery.dependencyNames (project.visibleManifests services.view cache).val.1)
      { toCaches := ⟨project.lookup, project.symlinks⟩ }
    rw [hsymlinks, hlinks]
    exact SymlinkTable.extends_recordAll _ _ _

/-- A discovery that finds roots has the packages of all its contributors, and knows the tracked
links through which it reached them. -/
theorem discover_accounts
    (hroots : (project.discover services inclusion options cache).val.1.roots ≠ [])
    (hdirectory : directory ∈ project.contributors services options cache) :
    project.key (project.realDirectory services.view directory) ∈
        (project.discover services inclusion options cache).val.1.packageDirectories ∧
      (project.key (project.realDirectory services.view directory) ≠ project.key directory →
        SymlinkTable.isIgnored (project.symlinks.key directory) = false →
        (project.discover services inclusion options cache).val.2.1.symlinks.directories.contains
          (project.symlinks.key directory) = true) := by
  have hextends := extends_discover services inclusion options project cache
  rcases discover_cases services inclusion options project cache with hnothing |
    ⟨program, hprogram, hfound, hsymlinks⟩
  · rw [hnothing] at hroots
    simp at hroots
  · obtain ⟨offer, hoffer, rfl⟩ := List.mem_map.1 hdirectory
    unfold contributions at hoffer
    rw [hprogram] at hoffer
    rw [hfound] at hroots ⊢
    rw [hsymlinks] at hextends ⊢
    generalize hrun : (Discovery.Run.addDependencies (project.site services options program)
      inclusion _ _).val = run at hroots hextends ⊢
    obtain ⟨final, caches⟩ := run
    cases final with
    | none => simp at hroots
    | some final =>
      obtain ⟨-, rfl, haccounts⟩ := Discovery.addDependencies_accounts hrun
      have haccount := haccounts offer hoffer
      refine ⟨haccount.package, ?_⟩
      intro hne hignored
      rw [← hextends.key_eq] at hignored ⊢
      cases hreal : (project.site services options program).linkedDirectory?
          offer.manifest.directory with
      | none =>
        have hsame : project.realDirectory services.view offer.manifest.directory =
            offer.manifest.directory := by
          show ((project.site services options program).linkedDirectory? _).getD _ = _
          rw [hreal]
          rfl
        rw [hsame] at hne
        exact absurd rfl hne
      | some real => exact haccount.link real hreal hignored

end Project

end AutoImport
