import AutoImport.ChangeRouting
import AutoImport.ExportIndex
import AutoImport.ManifestCache
import AutoImport.Specifiers

/-!
# Projects

A project is a compilation that a user works on: its roots, options and program, what it remembers
about packages, links, specifiers and exports, and the slot of its provider.

`Project.queryProvider` answers with the program of the provider.  It creates the provider when the
slot is unset and refreshes it when it is dirty; it closes the slot in a session that cannot build
programs.  The other operations keep what is remembered truthful: each of them drops exactly what it
may have made stale.
-/

set_option autoImplicit false

namespace AutoImport

/-- What a session lends to a project for one operation. -/
structure Services where
  view : FileView
  /-- The inclusion that the session asks for. -/
  inclusion : Inclusion
  mode : SessionMode
  /-- The directory of automatically acquired types. -/
  typings : Option String

/-- What the projects of a session share and change. -/
structure Shared (σ : Type) where
  manifests : ManifestCache
  compilerState : σ

/-- A project. -/
structure Project where
  name : String
  directory : String
  caseSensitive : Bool
  roots : List String
  options : CompilerOptions
  program : Option Program := none
  isDirty : Bool := true
  version : Nat := 0
  /-- Whether the language service works for the project. -/
  isEnabled : Bool := true
  symlinks : SymlinkTable
  lookup : PackageLookup := {}
  exportIndex : ExportIndex := {}
  specifiers : SpecifierCache := {}
  /-- The keys of the manifests that the last discovery saw. -/
  consulted : List String := []
  slot : Slot := .unset

namespace Project

/-- The key of a path. -/
def key (project : Project) (path : String) : String :=
  Path.canonical path project.directory project.caseSensitive

/-- A new project; its directory and its roots are normalized. -/
def create (name directory : String) (roots : List String) (options : CompilerOptions)
    (caseSensitive : Bool) : Project :=
  let directory := Path.normalize directory "/"
  { name
    directory
    caseSensitive
    roots := roots.map fun file => Path.normalize file directory
    options
    symlinks := { base := directory, caseSensitive } }

/-- Drops what is remembered about packages and specifiers. -/
def clearDependencies (project : Project) : Project :=
  { project with lookup := {}, specifiers := {} }

/-- Demands that the program be built anew. -/
def markDirty (project : Project) : Project :=
  { project with isDirty := true }

/-- Replaces the roots. -/
def setRoots (project : Project) (roots : List String) : Project :=
  { project with
    roots := roots.map fun file => Path.normalize file project.directory
    isDirty := true }

/-- Replaces the options.  The provider has options derived from them, so it goes too. -/
def setOptions (project : Project) (options : CompilerOptions) : Project :=
  { project.clearDependencies with options, slot := .unset, isDirty := true }

/-- What a change of settings does to the provider. -/
def settingsChanged (project : Project) : Project :=
  { project with slot := project.slot.settingsChanged }

/-- Turns the language service on or off. -/
def setEnabled (project : Project) (isEnabled : Bool) : Project :=
  if project.isEnabled = isEnabled then project
  else if isEnabled then { project with isEnabled }.settingsChanged
  else { project with isEnabled, slot := .unset }

/-- What a change of the session's mode does to the provider. -/
def modeChanged (project : Project) (mode : SessionMode) : Project :=
  if mode = .semantic then project.settingsChanged else { project with slot := .unset }

/-- Builds the program anew if that is demanded; tells whether it is another program than before.
Another program makes everything stale that was derived from the old one. -/
def updateGraph {σ : Type} (compiler : Compiler σ) (project : Project) (state : σ) :
    Bool × Project × σ :=
  if project.isDirty then
    let (program, state) :=
      compiler.build
        { roots := project.roots, options := project.options, old := project.program } state
    let updated := { project with program := some program, isDirty := false }
    if Program.same project.program (some program) then (false, updated, state)
    else
      (true,
        { updated.clearDependencies with
          version := updated.version + 1
          exportIndex := {}
          symlinks := updated.symlinks.unseed
          slot := updated.slot.markDirty },
        state)
  else (false, project, state)

/-- The inclusion in force: nothing is included where the service is off or the project is itself
part of an installed package. -/
def inclusion (project : Project) (session : Inclusion) : Inclusion :=
  if session.isOff || !project.isEnabled || Path.insideNodeModules project.directory then .off
  else session

/-- The manifests visible from the project's directory, nearest first; they are remembered as
consulted. -/
def visibleManifests (view : FileView) (project : Project) (cache : ManifestCache) :
    Probed (List Manifest × Project × ManifestCache) := do
  let anchor := Path.join project.directory projectAnchor
  let (manifests, cache) ← cache.visibleFrom view anchor none
  let consulted := manifests.map fun manifest => project.key manifest.fileName
  return (manifests, { project with consulted }, cache)

/-- The project with its table of links brought up to its program. -/
def seedSymlinks (project : Project) : Project :=
  { project with symlinks := project.symlinks.seedOnce (project.program.map Program.resolutions) }

/-- The surroundings of a discovery for the project. -/
def site (services : Services) (options : CompilerOptions) (project : Project)
    (program : Program) : Discovery.Site :=
  { view := services.view
    directory := project.directory
    caseSensitive := project.caseSensitive
    options
    program
    typings := services.typings
    resolutions := some program.resolutions }

/-- Discovers the roots of the provider.  Without inclusion or without a program there are none. -/
def discover (services : Services) (inclusion : Inclusion) (options : CompilerOptions)
    (project : Project) (cache : ManifestCache) :
    Probed (Discovery.Result × Project × ManifestCache) :=
  match inclusion.isOff, project.program with
  | false, some program => do
    let (manifests, project, cache) ← project.visibleManifests services.view cache
    let (found, caches) ←
      Discovery.discover inclusion (project.site services options program) manifests
        ⟨project.lookup, project.symlinks⟩
    return (found, { project with lookup := caches.lookup, symlinks := caches.symlinks }, cache)
  | _, _ => return ({}, project, cache)

/-- Gives a provider roots if it has none, and compiles it.  A program that is replaced takes the
export index with it. -/
def refresh {σ : Type} (compiler : Compiler σ) (services : Services) (provider : Provider)
    (project : Project) (shared : Shared σ) : Probed (Provider × Project × Shared σ) := do
  let (provider, project, cache) ←
    match provider.roots with
    | some _ => pure (provider, project, shared.manifests)
    | none => do
      let (found, project, cache) ←
        project.discover services (project.inclusion services.inclusion) provider.options
          shared.manifests
      pure (provider.adopt found, project, cache)
  let (compiled, state) := provider.compile compiler shared.compilerState
  let project :=
    if Provider.replaces provider.program compiled.program then { project with exportIndex := {} }
    else project
  return (compiled, project, ⟨cache, state⟩)

/-- The answer to a query of a provider in an active slot. -/
def queryActive {σ : Type} (compiler : Compiler σ) (services : Services) (provider : Provider)
    (project : Project) (shared : Shared σ) : Probed (Option Program × Project × Shared σ) :=
  if provider.isDirty then do
    let (provider, project, shared) ← project.refresh compiler services provider shared
    if provider.hasRoots then
      return (provider.program, { project with slot := .active provider }, shared)
    else return (none, { project with slot := .unset }, shared)
  else return (provider.program, project, shared)

/-- The answer to a query that finds the slot unset. -/
def queryUnset {σ : Type} (compiler : Compiler σ) (services : Services) (project : Project)
    (shared : Shared σ) : Probed (Option Program × Project × Shared σ) :=
  let inclusion := project.inclusion services.inclusion
  if inclusion.isOff then return (none, project, shared)
  else do
    let options := project.options.forProvider
    let (found, project, cache) ← project.discover services inclusion options shared.manifests
    match Provider.ofDiscovery? project.directory project.caseSensitive options found with
    | none => return (none, project, { shared with manifests := cache })
    | some provider =>
      let (provider, project, shared) ←
        project.refresh compiler services provider { shared with manifests := cache }
      return (provider.program, { project with slot := .active provider }, shared)

/-- The program of the provider, if there is one. -/
def queryProvider {σ : Type} (compiler : Compiler σ) (services : Services) (project : Project)
    (shared : Shared σ) : Probed (Option Program × Project × Shared σ) :=
  match project.slot with
  | .disabled => return (none, project, shared)
  | slot =>
    if services.mode ≠ .semantic then return (none, { project with slot := .disabled }, shared)
    else
      match slot with
      | .active provider => project.queryActive compiler services provider shared
      | _ => project.queryUnset compiler services shared

/-- The index of the exports of the project and of its provider. -/
def queryExports {σ : Type} (compiler : Compiler σ) (services : Services) (project : Project)
    (shared : Shared σ) : Probed (ExportIndex × Project × Shared σ) := do
  let (provider, project, shared) ← project.queryProvider compiler services shared
  let index := project.exportIndex.renew project.program provider
  return (index, { project with exportIndex := index }, shared)

/-- A manifest changed; tells whether that concerns the project: it was consulted, or it lies in the
project's directory or above it. -/
def manifestChanged (fileName : String) (project : Project) : Bool × Project :=
  let path := project.key fileName
  let isVisible := Path.contains (Path.directory path) (project.key project.directory)
  if path ∈ project.consulted || isVisible then
    (true,
      { project.clearDependencies with exportIndex := {}, slot := project.slot.markDirty })
  else (false, project)

/-- A file that may change how packages are resolved changed; tells whether that made the provider
dirty. -/
def dependencyChanged (fileName : String) (project : Project) : Bool × Project :=
  let path := project.key fileName
  let inScope := ChangeRouting.isManifestInScope path (project.key project.directory)
  let project := if inScope then { project with lookup := {} } else project
  match project.slot with
  | .active provider =>
    if inScope || ChangeRouting.affects path provider project.symlinks then
      (true, { project.clearDependencies with slot := .active provider.markDirty })
    else (false, project)
  | _ => (false, project)

/-- Releases everything but roots and options. -/
def close (project : Project) : Project :=
  { project.clearDependencies with
    slot := .unset
    program := none
    exportIndex := {}
    symlinks := project.symlinks.clear
    consulted := [] }

end Project

end AutoImport
