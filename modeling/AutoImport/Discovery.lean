import AutoImport.Config
import AutoImport.Entrypoints
import AutoImport.PackageLookup
import AutoImport.Symlinks

/-!
# Discovery

Discovery decides which files of a project's dependencies are offered to auto-imports.  It takes the
names under `dependencies` and `peerDependencies` of the manifests that the project sees, and finds
for each of them

1. the package itself, if it ships types,
2. otherwise the package that declares its types, seen from the project or from the directory of
   automatically acquired types,
3. otherwise, where the options allow it, the scripts of the package.

A package with more than `maxEntrypoints` entry points contributes nothing.  With an open choice
(`Inclusion.auto`) a run in which more than `maxDependencies` dependencies contribute is dropped as
a whole.  Roots are real paths, none of them is part of the project's own program, and none occurs
twice.
-/

set_option autoImplicit false

namespace AutoImport.Discovery

/-- What a run finds. -/
structure Result where
  roots : List String := []
  /-- How many dependencies contributed a root. -/
  added : Nat := 0
  /-- The keys of the real directories of the contributing packages. -/
  packageDirectories : List String := []
  /-- Whether the run was dropped because too many dependencies contributed. -/
  aborted : Bool := false
  deriving Repr, DecidableEq, Inhabited

/-- Whether nothing was found. -/
def Result.isEmpty (result : Result) : Bool :=
  result.roots.isEmpty

/-- The package that declares the types of another: `@types/scope__name` for `@scope/name`. -/
def typesPackage (packageName : String) : String :=
  match Text.stripPrefix? ['@'] packageName.toList with
  | some rest => typesScope ++ .ofList (Text.replaceFirst ['/'] ['_', '_'] rest)
  | none => typesScope ++ packageName

/-- The names that a manifest lists under `dependencies` and `peerDependencies`. -/
def listedNames (manifest : Manifest) : List String :=
  [manifest.dependencies, manifest.peerDependencies].flatMap fun group =>
    match group with
    | some dependencies => dependencies.keys
    | none => []

/-- The names of the dependencies, in declared order and each once, without type packages. -/
def dependencyNames (manifests : List Manifest) : List String :=
  ((manifests.flatMap listedNames).filter fun name => !Text.startsWith typesScope name).foldl
    insertNew []

/-- The memories that a run uses and extends. -/
structure Caches where
  lookup : PackageLookup
  symlinks : SymlinkTable

/-- The surroundings of a run. -/
structure Site where
  view : FileView
  /-- The directory of the project. -/
  directory : String
  caseSensitive : Bool
  options : CompilerOptions
  /-- The program of the project. -/
  program : Program
  /-- The directory of automatically acquired types. -/
  typings : Option String
  /-- The resolutions that the table of links takes in before it is first written. -/
  resolutions : Option (List ResolvedModule)

/-- The key of a path. -/
def Site.key (site : Site) (path : String) : String :=
  Path.canonical path site.directory site.caseSensitive

/-- A run under way. -/
structure Run extends Caches where
  roots : List String := []
  /-- The keys of the roots. -/
  rootKeys : List String := []
  packageDirectories : List String := []
  added : Nat := 0

/-- The real directory of a package, if it is reached through a link. -/
def Site.linkedDirectory? (site : Site) (directory : String) : Option String :=
  (site.view.realPath directory).filter fun real => site.key real ≠ site.key directory

/-- Records that a package directory is a link. -/
def Run.recordLink (site : Site) (directory : String) (real : Option String) (run : Run) : Run :=
  match real with
  | some real =>
    let symlinks := run.symlinks.seedOnce site.resolutions
    { run with symlinks := symlinks.setDirectory directory ⟨real, site.key real⟩ }
  | none => run

/-- The root that an entry point gives, unless the project's program has it already. -/
def Site.rootOf? (site : Site) (directory : String) (real : Option String) (entry : String) :
    Option String :=
  match real with
  | some real =>
    let resolved := .ofList (Text.replaceFirst directory.toList real.toList entry.toList)
    if site.program.hasSource resolved || site.program.hasSource entry then none
    else some resolved
  | none => if site.program.hasSource entry then none else some entry

/-- Adds one root, unless its key is known. -/
def Run.addRoot (site : Site) (run : Run) (root : String) : Run :=
  if site.key root ∈ run.rootKeys then run
  else
    { run with
      rootKeys := run.rootKeys ++ [site.key root]
      roots := insertNew run.roots root }

/-- Adds the roots of a package; it counts as contributing if one of them is new. -/
def Run.addRoots (site : Site) (roots : List String) (directoryKey : String) (run : Run) : Run :=
  let after := roots.foldl (Run.addRoot site) run
  if run.rootKeys.length < after.rootKeys.length then
    { after with
      added := after.added + 1
      packageDirectories := insertNew after.packageDirectories directoryKey }
  else after

/-- Adds the entry points of a package; tells whether it has any, and not too many. -/
def Run.addPackage (site : Site) (kind : EntryKind) (manifest : Manifest) (run : Run) :
    Probed (Bool × Run) := do
  match ← entrypoints site.view kind site.options manifest with
  | none => return (false, run)
  | some entries =>
    if maxEntrypoints < entries.length then return (false, run)
    else
      let real := site.linkedDirectory? manifest.directory
      let run := run.recordLink site manifest.directory real
      let roots := entries.filterMap (site.rootOf? manifest.directory real)
      return (true, run.addRoots site roots (site.key (real.getD manifest.directory)))

/-- Looks up an installed package. -/
def Run.lookUp (site : Site) (packageName directory : String) (run : Run) :
    Probed (Option Manifest × Run) := do
  let (manifest, lookup) ← PackageLookup.resolve site.view packageName directory run.lookup
  return (manifest, { run with lookup })

/-- Adds the package that declares the types of a dependency, from the first of the directories that
sees it; tells whether one does. -/
def Run.addTypes (site : Site) (packageName : String) :
    List String → Run → Probed (Bool × Run)
  | [], run => return (false, run)
  | directory :: rest, run => do
    match ← run.lookUp site (typesPackage packageName) directory with
    | (some manifest, run) =>
      let (_, run) ← run.addPackage site .typed manifest
      return (true, run)
    | (none, run) => Run.addTypes site packageName rest run

/-- Adds the typed entry points of the package itself; tells whether that settles the dependency. -/
def Run.addTyped (site : Site) (manifest : Option Manifest) (run : Run) : Probed (Bool × Run) :=
  match manifest with
  | some manifest => run.addPackage site .typed manifest
  | none => return (false, run)

/-- Adds the scripts of the package, where the options allow it. -/
def Run.addScripts (site : Site) (manifest : Option Manifest) (run : Run) : Probed Run :=
  match manifest with
  | some manifest =>
    if site.options.allowsDependencyScripts then do
      let (_, run) ← run.addPackage site .script manifest
      return run
    else return run
  | none => return run

/-- Adds one dependency. -/
def Run.addDependency (site : Site) (packageName : String) (run : Run) : Probed Run := do
  let (manifest, run) ← run.lookUp site packageName site.directory
  let (isTyped, run) ← run.addTyped site manifest
  if isTyped then return run
  else
    let (hasTypes, run) ← run.addTypes site packageName (site.directory :: site.typings.toList)
    if hasTypes then return run else run.addScripts site manifest

/-- Adds dependencies one after the other; nothing if an open choice has too many of them. -/
def Run.addDependencies (site : Site) (inclusion : Inclusion) :
    List String → Run → Probed (Option Run × Caches)
  | [], run => return (some run, run.toCaches)
  | name :: rest, run => do
    let run ← run.addDependency site name
    if inclusion = .auto ∧ maxDependencies < run.added then return (none, run.toCaches)
    else Run.addDependencies site inclusion rest run

/-- What a finished run found. -/
def Run.result (run : Run) : Result :=
  { roots := run.roots, added := run.added, packageDirectories := run.packageDirectories }

/-- A run over the dependencies that manifests list. -/
def discover (inclusion : Inclusion) (site : Site) (manifests : List Manifest) (caches : Caches) :
    Probed (Result × Caches) := do
  let run : Run := { toCaches := caches }
  match ← run.addDependencies site inclusion (dependencyNames manifests) with
  | (some run, caches) => return (run.result, caches)
  | (none, caches) => return ({ aborted := true }, caches)

end AutoImport.Discovery
