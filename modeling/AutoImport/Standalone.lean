import AutoImport.Provider

/-!
# Hosts outside a session

A host that is no project of a session brings its own program, its own list of manifests and its own
memories, and keeps one provider.  It does not take in the resolutions of programs.
-/

set_option autoImplicit false

namespace AutoImport

/-- A host outside a session. -/
structure Standalone where
  directory : String
  caseSensitive : Bool
  options : CompilerOptions
  inclusion : Inclusion
  typings : Option String
  manifests : List Manifest
  program : Option Program
  lookup : PackageLookup := {}
  symlinks : SymlinkTable
  /-- How often the host was told that its export index is stale. -/
  staleReports : Nat := 0
  slot : Slot := .unset

namespace Standalone

/-- Discovers roots. -/
def discover (view : FileView) (inclusion : Inclusion) (options : CompilerOptions)
    (host : Standalone) : Probed (Discovery.Result × Standalone) :=
  match inclusion.isOff, host.program with
  | false, some program => do
    let site : Discovery.Site :=
      { view
        directory := host.directory
        caseSensitive := host.caseSensitive
        options
        program
        typings := host.typings
        resolutions := none }
    let (found, caches) ←
      Discovery.discover inclusion site host.manifests ⟨host.lookup, host.symlinks⟩
    return (found, { host with lookup := caches.lookup, symlinks := caches.symlinks })
  | _, _ => return ({}, host)

/-- Creates a provider, if there is anything to provide; it is compiled by the next refresh. -/
def create (view : FileView) (inclusion : Inclusion) (host : Standalone) :
    Probed (Bool × Standalone) :=
  if inclusion.isOff then return (false, host)
  else do
    let options := host.options.forProvider
    let (found, host) ← host.discover view inclusion options
    match Provider.ofDiscovery? host.directory host.caseSensitive options found with
    | some provider => return (true, { host with slot := .active provider })
    | none => return (false, host)

/-- Gives a provider roots if it has none, and compiles it; tells whether its program changed. -/
def refresh {σ : Type} (compiler : Compiler σ) (view : FileView) (provider : Provider)
    (host : Standalone) (state : σ) : Probed (Bool × Standalone × σ) := do
  let (provider, host) ←
    match provider.roots with
    | some _ => pure (provider, host)
    | none => do
      let (found, host) ← host.discover view host.inclusion provider.options
      pure (provider.adopt found, host)
  let (compiled, state) := provider.compile compiler state
  let staleReports :=
    if Provider.replaces provider.program compiled.program then host.staleReports + 1
    else host.staleReports
  return (!Program.same provider.program compiled.program,
    { host with staleReports, slot := .active compiled }, state)

/-- Refreshes a provider that is dirty; tells whether it was. -/
def refreshIfDirty {σ : Type} (compiler : Compiler σ) (view : FileView) (provider : Provider)
    (host : Standalone) (state : σ) : Probed (Bool × Standalone × σ) :=
  if provider.isDirty then do
    let (_, host, state) ← host.refresh compiler view provider state
    return (true, host, state)
  else return (false, host, state)

end Standalone

end AutoImport
