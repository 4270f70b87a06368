import AutoImport.Proofs.Discovery.AgreeingMemories
import AutoImport.Proofs.Discovery.ResultBounds

/-!
# The order of dependencies

A firm run adds every root that some dependency offers, whatever was added before: a root is left
out only if another one has its key.  So the keys of the roots are those of all offers together
(`mem_keys_addDependencies`), and the order of the dependencies matters only if it decides what a
dependency offers.

It does not as long as one answer belongs to each manifest file, the one that is remembered or else
the one of the tree (`answerFrom`).  Only `c:` and `c:/` may be answered for differently although
they have one manifest file; where both are dependencies, the first of them decides for the
second. -/

set_option autoImplicit false

namespace AutoImport

/-! ## Answers -/

namespace PackageLookup

/-- The answer for a manifest file, from memory where it is remembered, and else from the tree. -/
def answerFrom (tree : MemoryTree) (lookup : PackageLookup) (names : List String)
    (fileName : String) : Option Manifest :=
  (lookup.found.get? fileName).getD (answerOn tree names fileName)

/-- Two of the names are spellings of one drive only if what is remembered about it, or else the
tree, answers for them alike. -/
def SpellsDrivesAlike (tree : MemoryTree) (lookup : PackageLookup) (names : List String) : Prop :=
  ∀ first ∈ names, ∀ second ∈ names,
    Path.join first manifestName = Path.join second manifestName →
      Path.IsDriveManifest (Path.join first manifestName) →
        lookup.found.get? (Path.join first manifestName) = none →
          (manifestOnDisk tree.view first).val = (manifestOnDisk tree.view second).val

variable {tree : MemoryTree} {lookup : PackageLookup} {names : List String}

/-- A lookup is truthful about the answers read off itself and the disk. -/
theorem truthful_answerFrom (tree : MemoryTree) (lookup : PackageLookup) (names : List String) :
    lookup.Truthful (answerFrom tree lookup names) := by
  intro fileName manifest hfound
  unfold answerFrom
  rw [hfound]
  rfl

/-- A directory is ready where the tree answers for it as the answers for the names do. -/
theorem ready_of_answerOn {directory : String}
    (h : lookup.found.get? (Path.join directory manifestName) = none →
      (manifestOnDisk tree.view directory).val =
        answerOn tree names (Path.join directory manifestName)) :
    lookup.Ready tree.view (answerFrom tree lookup names) directory := by
  cases hfound : lookup.found.get? (Path.join directory manifestName) with
  | some remembered =>
    left
    unfold Knows
    rw [hfound]
    rfl
  | none =>
    right
    unfold answerFrom
    rw [hfound, Option.getD_none]
    exact h hfound

/-- Every directory in which one of the names is looked for is ready. -/
theorem ready_of_spellsDrivesAlike (hdrives : SpellsDrivesAlike tree lookup names) {name : String}
    (hname : name ∈ names) {directory candidate : String}
    (hcandidate : candidate ∈ candidates name directory) :
    lookup.Ready tree.view (answerFrom tree lookup names) candidate := by
  apply ready_of_answerOn
  intro hmissing
  by_cases hdrive : Path.IsDriveManifest (Path.join candidate manifestName)
  · -- The candidate is the name itself, up to backslashes.
    have hslashed := isDriveManifest_of_mem_candidates hcandidate hdrive
    have hfile : Path.join candidate manifestName = Path.join name manifestName := by
      rw [hslashed, Path.join_slashed_left]
    have hkey : tree.key candidate = tree.key name := by
      rw [hslashed]
      exact Path.canonical_slashed name "/" tree.caseSensitive
    rw [hfile] at hdrive hmissing ⊢
    rw [manifestOnDisk_of_key_eq hfile hkey]
    unfold answerOn
    dsimp only
    cases hfind : names.find? fun other =>
        Path.join other manifestName = Path.join name manifestName
      with
    | none =>
      have hother := List.find?_eq_none.1 hfind name hname
      exact absurd (decide_eq_true rfl) hother
    | some other =>
      have hfound := List.find?_some hfind
      have hsame : Path.join name manifestName = Path.join other manifestName :=
        (of_decide_eq_true hfound).symm
      exact hdrives name hname other (List.mem_of_find?_eq_some hfind) hsame hdrive hmissing
  · exact answerOn_of_not_drive (ne_empty_of_mem_candidates hcandidate) hdrive

end PackageLookup

namespace Discovery

open PackageLookup (SpellsDrivesAlike answerFrom)

variable {site : Site} {answer : String → Option Manifest}

/-! ## Offers -/

/-- The offer that settles a dependency when manifest files are answered for by a fixed function. -/
def Site.settlement (site : Site) (answer : String → Option Manifest) (packageName : String) :
    Option Offer :=
  let own := PackageLookup.resolution answer packageName site.directory
  match own.bind (site.offer? .typed) with
  | some offer => some offer
  | none =>
    match (site.typesCandidates packageName).findSome? fun candidate =>
        answer (Path.join candidate manifestName) with
    | some manifest => site.offer? .typed manifest
    | none => if site.options.allowsDependencyScripts then own.bind (site.offer? .script) else none

/-- All directories in which a dependency is looked for are ready. -/
def Site.Ready (site : Site) (answer : String → Option Manifest) (lookup : PackageLookup)
    (packageName : String) : Prop :=
  ∀ candidate ∈ PackageLookup.candidates packageName site.directory ++
    site.typesCandidates packageName, lookup.Ready site.view answer candidate

/-- A truthful lookup settles a dependency by the fixed answers, stays truthful and forgets
nothing. -/
theorem settle_of_ready {packageName : String} {lookup : PackageLookup}
    (htruthful : lookup.Truthful answer) (hready : site.Ready answer lookup packageName) :
    (site.settle packageName lookup).1 = site.settlement answer packageName ∧
      (site.settle packageName lookup).2.Truthful answer ∧
      lookup.Grows (site.settle packageName lookup).2 := by
  obtain ⟨hown, htruthful', hgrows, -⟩ := PackageLookup.resolve_of_ready htruthful
    fun candidate hcandidate => hready candidate (List.mem_append_left _ hcandidate)
  unfold Site.settle Site.settlement
  dsimp only
  rw [hown]
  generalize (PackageLookup.resolve site.view packageName site.directory lookup).val.2 = looked
    at htruthful' hgrows ⊢
  obtain ⟨hdeclared, htruthful'', hgrows', -⟩ := PackageLookup.firstManifest_of_ready htruthful'
    fun candidate hcandidate =>
      (hready candidate (List.mem_append_right _ hcandidate)).grows hgrows
  rw [hdeclared]
  cases (PackageLookup.resolution answer packageName site.directory).bind (site.offer? .typed) with
  | some offer => exact ⟨rfl, htruthful', hgrows⟩
  | none =>
    dsimp only
    cases (site.typesCandidates packageName).findSome? fun candidate =>
      answer (Path.join candidate manifestName) with
    | some declared => exact ⟨rfl, htruthful'', hgrows.trans hgrows'⟩
    | none => exact ⟨rfl, htruthful'', hgrows.trans hgrows'⟩

/-! ## Keys -/

/-- After adding roots the root keys are the old ones and those of the roots. -/
theorem mem_rootKeys_foldl_addRoot (site : Site) (roots : List String) (run : Run) (key : String) :
    key ∈ (roots.foldl (Run.addRoot site) run).rootKeys ↔
      key ∈ run.rootKeys ∨ ∃ root ∈ roots, site.key root = key := by
  induction roots generalizing run with
  | nil => simp
  | cons root rest ih =>
    have hroot : key ∈ (run.addRoot site root).rootKeys ↔
        key ∈ run.rootKeys ∨ site.key root = key := by
      unfold Run.addRoot
      split
      · rename_i hmem
        refine ⟨Or.inl, fun h => h.elim id ?_⟩
        rintro rfl
        exact hmem
      · simp [eq_comm]
    rw [List.foldl_cons, ih, hroot, List.exists_mem_cons_iff, or_assoc]

/-- An offer that is taken adds the keys of its roots, whatever the run has already. -/
theorem mem_rootKeys_take (offer : Option Offer) (run : Run) (key : String) :
    key ∈ (run.take site offer).rootKeys ↔
      key ∈ run.rootKeys ∨ ∃ offered ∈ offer, ∃ root ∈ offered.roots, site.key root = key := by
  cases offer with
  | none => simp [Run.take]
  | some offer =>
    have hlink : ∀ real, (run.recordLink site offer.manifest.directory real).rootKeys =
        run.rootKeys := by
      intro real
      cases real <;> rfl
    have hroots := mem_rootKeys_foldl_addRoot site offer.roots (run.recordLink site
      offer.manifest.directory (site.linkedDirectory? offer.manifest.directory)) key
    rw [hlink] at hroots
    have hoffer : (∃ offered ∈ some offer, ∃ root ∈ offered.roots, site.key root = key) ↔
        ∃ root ∈ offer.roots, site.key root = key := by simp
    rw [hoffer, ← hroots]
    unfold Run.take Run.takePackage Run.addRoots
    dsimp only
    split <;> rfl

/-- After a firm run the keys are those of all offers together. -/
theorem mem_keys_addDependencies {names : List String} {run final : Run} {caches : Caches}
    (htruthful : run.lookup.Truthful answer)
    (hready : ∀ name ∈ names, site.Ready answer run.lookup name)
    (hfinal : (run.addDependencies site .on names).val = (some final, caches)) (key : String) :
    key ∈ final.rootKeys ↔ key ∈ run.rootKeys ∨
      ∃ name ∈ names, ∃ offer ∈ site.settlement answer name,
        ∃ root ∈ offer.roots, site.key root = key := by
  induction names generalizing run with
  | nil =>
    obtain ⟨rfl, -⟩ : run = final ∧ run.toCaches = caches := by
      simpa [Run.addDependencies] using hfinal
    simp
  | cons name rest ih =>
    obtain ⟨hsettle, hstays, hgrows⟩ :=
      settle_of_ready htruthful (hready name List.mem_cons_self)
    rw [Run.addDependencies, Probed.val_bind, if_neg (by simp)] at hfinal
    have hlookup := lookup_addDependency site name run
    have hnext : key ∈ (run.addDependency site name).val.rootKeys ↔ key ∈ run.rootKeys ∨
        ∃ offer ∈ site.settlement answer name, ∃ root ∈ offer.roots, site.key root = key := by
      rw [addDependency_eq_take, hsettle]
      exact mem_rootKeys_take _ { run with lookup := (site.settle name run.lookup).2 } key
    rw [ih (by rw [hlookup]; exact hstays) ?_ hfinal, hnext, List.exists_mem_cons_iff, or_assoc]
    intro other hother candidate hcandidate
    rw [hlookup]
    exact (hready other (List.mem_cons_of_mem name hother) candidate hcandidate).grows hgrows

/-! ## Runs over the same names -/

/-- Each listed package is looked for in directories that are ready, when drives are spelled
alike. -/
theorem ready_of_names {tree : MemoryTree} (hview : site.view = tree.view)
    {lookup : PackageLookup} {names : List String} (hdrives : SpellsDrivesAlike tree lookup names)
    {name : String} (hname : name ∈ names) :
    site.Ready (answerFrom tree lookup names) lookup name := by
  intro candidate hcandidate
  rw [hview]
  rcases List.mem_append.1 hcandidate with hown | htypes
  · exact PackageLookup.ready_of_spellsDrivesAlike hdrives hname hown
  · obtain ⟨directory, -, htypes⟩ := List.mem_flatMap.1 htypes
    -- A package that declares types is never named like a drive.
    refine PackageLookup.ready_of_answerOn fun _ => PackageLookup.answerOn_of_not_drive
      (PackageLookup.ne_empty_of_mem_candidates htypes) fun hdrive => ?_
    have hrooted := PackageLookup.isRooted_of_isDriveManifest htypes hdrive
    rw [isRooted_typesPackage] at hrooted
    exact absurd hrooted (by simp)

/-- The keys of the roots of a firm run over the dependencies that manifests list. -/
theorem mem_keys_discover (manifests : List Manifest) {answer : String → Option Manifest}
    {caches : Caches} (htruthful : caches.lookup.Truthful answer)
    (hready : ∀ name ∈ dependencyNames manifests, site.Ready answer caches.lookup name)
    (key : String) :
    key ∈ (discover .on site manifests caches).val.1.roots.map site.key ↔
      ∃ name ∈ dependencyNames manifests, ∃ offer ∈ site.settlement answer name,
        ∃ root ∈ offer.roots, site.key root = key := by
  obtain ⟨final, hfinal, -⟩ := addDependencies_on_finishes site (dependencyNames manifests)
    { toCaches := caches }
  have hbalanced := ((balanced_start site caches).addDependencies (dependencyNames manifests)
    (congrArg Prod.fst hfinal)).1
  rw [discover_val, hfinal]
  show key ∈ final.roots.map site.key ↔ _
  rw [← hbalanced.rootKeys, mem_keys_addDependencies htruthful hready hfinal key]
  simp

/-- The names that two lists of manifests ask for are the same. -/
def SameNames (first second : List Manifest) : Prop :=
  ∀ name, name ∈ dependencyNames first ↔ name ∈ dependencyNames second

/-- Permuted dependency lists name the same packages. -/
theorem SameNames.of_perm {first second : List Manifest}
    (h : (dependencyNames first).Perm (dependencyNames second)) : SameNames first second :=
  fun _ => h.mem_iff

/-- Two firm runs that start from the same memory of packages, over manifests that list the same
names in any order, find roots with the same keys. -/
theorem mem_keys_discover_of_sameNames {tree : MemoryTree} (hview : site.view = tree.view)
    {first second : List Manifest} (hnames : SameNames first second)
    (lookup : PackageLookup) (symlinks otherSymlinks : SymlinkTable)
    (hdrives : SpellsDrivesAlike tree lookup (dependencyNames first)) (key : String) :
    key ∈ (discover .on site first ⟨lookup, symlinks⟩).val.1.roots.map site.key ↔
      key ∈ (discover .on site second ⟨lookup, otherSymlinks⟩).val.1.roots.map site.key := by
  have htruthful := PackageLookup.truthful_answerFrom tree lookup (dependencyNames first)
  have hready : ∀ name ∈ dependencyNames first,
      site.Ready (answerFrom tree lookup (dependencyNames first)) lookup name :=
    fun name hname => ready_of_names hview hdrives hname
  rw [mem_keys_discover first htruthful hready, mem_keys_discover second htruthful
    fun name hname => hready name ((hnames name).2 hname)]
  exact exists_congr fun name => and_congr (hnames name) Iff.rfl

/-! ## Projects and hosts outside a session -/

/-- The root keys of a project depend only on which packages its manifests name, not on their
order. -/
theorem mem_keys_project {tree : MemoryTree} {services : Services}
    (hview : services.view = tree.view) (options : CompilerOptions) (project : Project)
    {cache otherCache : ManifestCache}
    (hnames : SameNames (project.visibleManifests services.view cache).val.1
      (project.visibleManifests services.view otherCache).val.1)
    (hdrives : SpellsDrivesAlike tree project.lookup
      (dependencyNames (project.visibleManifests services.view cache).val.1)) (key : String) :
    key ∈ (project.discover services .on options cache).val.1.roots.map project.key ↔
      key ∈ (project.discover services .on options otherCache).val.1.roots.map project.key := by
  cases hprogram : project.program with
  | none =>
    rw [discover_nothing (.inr hprogram), discover_nothing (.inr hprogram)]
    rfl
  | some program =>
    have hview : (project.site services options program).view = tree.view := hview
    rw [discover_project hprogram rfl, discover_project hprogram rfl]
    exact mem_keys_discover_of_sameNames hview hnames project.lookup project.symlinks
      project.symlinks hdrives key

/-- The root keys of a standalone run depend only on which packages its manifests name, not on their
order. -/
theorem mem_keys_standalone (tree : MemoryTree) (options : CompilerOptions) (host : Standalone)
    {manifests : List Manifest} (hnames : SameNames host.manifests manifests)
    (hdrives : SpellsDrivesAlike tree host.lookup (dependencyNames host.manifests))
    (key : String) :
    key ∈ (host.discover tree.view .on options).val.1.roots.map
        (Path.canonical · host.directory host.caseSensitive) ↔
      key ∈ (({ host with manifests } : Standalone).discover tree.view .on options).val.1.roots.map
        (Path.canonical · host.directory host.caseSensitive) := by
  rcases Option.eq_none_or_eq_some host.program with hnone | ⟨program, hprogram⟩
  · unfold Standalone.discover
    dsimp only
    rw [hnone]
    rfl
  · have hother : ({ host with manifests } : Standalone).program = some program := hprogram
    rw [discover_standalone hprogram rfl, discover_standalone hother rfl]
    simp only [Probed.val_bind, Probed.val_pure]
    let site : Site :=
      { view := tree.view
        directory := host.directory
        caseSensitive := host.caseSensitive
        options
        program
        typings := host.typings
        resolutions := none }
    have hview : site.view = tree.view := rfl
    exact mem_keys_discover_of_sameNames hview hnames host.lookup host.symlinks host.symlinks
      hdrives key

/-- On any tree, let two lists of manifests ask for the same names, in whatever order, manifest by
manifest and group by group.  A project of a session, or a host outside one, finds roots with the
same keys with the one list as with the other, unless two of the names are spellings of one drive
for which the tree answers differently and of which nothing is remembered. -/
theorem discover_on_eq_of_sameNames (tree : MemoryTree) (options : CompilerOptions) :
    (∀ (services : Services) (project : Project) (cache otherCache : ManifestCache),
      let here : Services := { services with view := tree.view }
      SameNames (project.visibleManifests tree.view cache).val.1
          (project.visibleManifests tree.view otherCache).val.1 →
        SpellsDrivesAlike tree project.lookup
            (dependencyNames (project.visibleManifests tree.view cache).val.1) →
          ∀ key, key ∈ (project.discover here .on options cache).val.1.roots.map project.key ↔
            key ∈ (project.discover here .on options otherCache).val.1.roots.map project.key) ∧
    ∀ (host : Standalone) (manifests : List Manifest),
      let other : Standalone := { host with manifests }
      let hostKey := fun root => Path.canonical root host.directory host.caseSensitive
      SameNames host.manifests manifests →
        SpellsDrivesAlike tree host.lookup (dependencyNames host.manifests) →
          ∀ key, key ∈ (host.discover tree.view .on options).val.1.roots.map hostKey ↔
            key ∈ (other.discover tree.view .on options).val.1.roots.map hostKey := by
  constructor
  · intro services project cache otherCache here hnames hdrives
    have hview : here.view = tree.view := rfl
    exact mem_keys_project hview options project hnames hdrives
  · intro host manifests other hostKey hnames hdrives
    exact mem_keys_standalone tree options host hnames hdrives

/-- A tree with a package in each of two drives. -/
def twoDrivesTree : MemoryTree :=
  (driveTree.writeFile "d:/package.json" "{}").writeFile "d:/index.d.ts" ""

/-- Two packages are rooted in the order in which they are declared, but the roots are the same. -/
theorem discover_on_eq_of_sameNames_twoDrivesTree :
    let found := ((dependingOn ["c:/", "d:/"]).discover twoDrivesTree.view .on {}).val.1.roots
    let others := ((dependingOn ["d:/", "c:/"]).discover twoDrivesTree.view .on {}).val.1.roots
    found = ["c:/index.d.ts", "d:/index.d.ts"] ∧ others = ["d:/index.d.ts", "c:/index.d.ts"] ∧
      ∀ key, key ∈ found.map (Path.canonical · "/" true) ↔
        key ∈ others.map (Path.canonical · "/" true) := by
  have hfirst : dependencyNames (dependingOn ["c:/", "d:/"]).manifests = ["c:/", "d:/"] := by
    decide +kernel
  have hnames : SameNames (dependingOn ["c:/", "d:/"]).manifests
      (dependingOn ["d:/", "c:/"]).manifests :=
    SameNames.of_perm (by decide +kernel)
  have hdrives : SpellsDrivesAlike twoDrivesTree (dependingOn ["c:/", "d:/"]).lookup
      (dependencyNames (dependingOn ["c:/", "d:/"]).manifests) := by
    have hspelled : ∀ name ∈ ["c:/", "d:/"], ∀ other ∈ ["c:/", "d:/"],
        Path.join name manifestName = Path.join other manifestName → name = other := by
      decide +kernel
    intro name hname other hother hfile _ _
    rw [hfirst] at hname hother
    rw [hspelled name hname other hother hfile]
  have hswapped : ({ dependingOn ["c:/", "d:/"] with
      manifests := (dependingOn ["d:/", "c:/"]).manifests } : Standalone) =
        dependingOn ["d:/", "c:/"] := rfl
  have hsame := (discover_on_eq_of_sameNames twoDrivesTree {}).2 (dependingOn ["c:/", "d:/"])
    (dependingOn ["d:/", "c:/"]).manifests hnames hdrives
  rw [hswapped] at hsame
  exact ⟨by decide +kernel, by decide +kernel, hsame⟩

/-- Where `c:/` is a directory and `c:` is none, the order decides: who looks into `c:` first
remembers that there is no package, for both. -/
theorem order_matters_on_driveTree :
    ({} : PackageLookup).Agrees driveTree.view ∧
      SameNames (dependingOn ["c:", "c:/"]).manifests (dependingOn ["c:/", "c:"]).manifests ∧
      ((dependingOn ["c:", "c:/"]).discover driveTree.view .on {}).val.1.roots = [] ∧
      ((dependingOn ["c:/", "c:"]).discover driveTree.view .on {}).val.1.roots =
        ["c:/index.d.ts"] := by
  have hnames : SameNames (dependingOn ["c:", "c:/"]).manifests
      (dependingOn ["c:/", "c:"]).manifests :=
    SameNames.of_perm (by decide +kernel)
  exact ⟨PackageLookup.agrees_empty driveTree.view, hnames, by decide +kernel, by decide +kernel⟩

end Discovery

end AutoImport
