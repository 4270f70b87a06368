import AutoImport.Discovery

/-!
# Providers

A provider is the hidden compilation that holds the entry points of a project's dependencies.  It is
*clean* when its roots and its program are those of the last refresh.  `Provider.markDirty` drops
the roots, and the next refresh finds them anew.

A project keeps its provider in a `Slot`, which is empty until a query fills it, and closed while
the session cannot build programs.
-/

set_option autoImplicit false

namespace AutoImport

/-- A provider. -/
structure Provider where
  directory : String
  caseSensitive : Bool
  options : CompilerOptions
  /-- `none` while they have to be found anew. -/
  roots : Option (List String)
  /-- The keys of the real directories of the packages behind the roots. -/
  packageDirectories : List String
  program : Option Program := none
  version : Nat := 0
  isDirty : Bool := true
  deriving Repr, DecidableEq

namespace Provider

/-- The provider of what a discovery found; none if it found nothing. -/
def ofDiscovery? (directory : String) (caseSensitive : Bool) (options : CompilerOptions)
    (found : Discovery.Result) : Option Provider :=
  if found.isEmpty then none
  else
    some
      { directory
        caseSensitive
        options
        roots := some found.roots
        packageDirectories := found.packageDirectories }

/-- The roots, none while they have to be found anew. -/
def rootFiles (provider : Provider) : List String :=
  provider.roots.getD []

/-- Whether roots are known and there are some. -/
def hasRoots (provider : Provider) : Bool :=
  !provider.rootFiles.isEmpty

/-- Takes over what a discovery found. -/
def adopt (provider : Provider) (found : Discovery.Result) : Provider :=
  { provider with roots := some found.roots, packageDirectories := found.packageDirectories }

/-- Whether the compilation that leads from one program to another replaces a program that others
may have built on. -/
def replaces (old new : Option Program) : Bool :=
  old.isSome && !Program.same old new

/-- Compiles the roots; without roots there is no program. -/
def compile {σ : Type} (compiler : Compiler σ) (provider : Provider) (state : σ) : Provider × σ :=
  if provider.hasRoots then
    let (program, state) :=
      compiler.build
        { roots := provider.rootFiles, options := provider.options, old := provider.program } state
    ({ provider with program := some program, isDirty := false }, state)
  else ({ provider with program := none, isDirty := false }, state)

/-- Drops the roots, so that the next refresh finds them anew.  Changes nothing a second time. -/
def markDirty (provider : Provider) : Provider :=
  if provider.isDirty ∧ provider.roots = none then provider
  else { provider with roots := none, version := provider.version + 1, isDirty := true }

/-- Whether a key lies in one of the packages behind the roots. -/
def dependsOn (provider : Provider) (pathKey : String) : Bool :=
  provider.packageDirectories.any fun directory => Path.contains directory pathKey

/-- Whether a file is a root or part of the program. -/
def containsFile (provider : Provider) (file : String) : Bool :=
  let key (path : String) := Path.canonical path provider.directory provider.caseSensitive
  (provider.rootFiles.any fun root => key root = key file) ||
    provider.program.any fun program => program.hasSource file

/-- Releases roots and program. -/
def close (provider : Provider) : Provider :=
  { provider with program := none, roots := none, packageDirectories := [] }

end Provider

/-- Where a project keeps its provider. -/
inductive Slot where
  /-- No query has filled it, or the next one may try again. -/
  | unset
  /-- The session cannot build programs. -/
  | disabled
  | active (provider : Provider)
  deriving Repr, DecidableEq

namespace Slot

/-- The provider in an active slot. -/
def provider? : Slot → Option Provider
  | .active provider => some provider
  | _ => none

/-- Marks the provider dirty, if there is one. -/
def markDirty : Slot → Slot
  | .active provider => .active provider.markDirty
  | slot => slot

/-- What a change of settings does: a closed slot may be tried again, a provider is dirty. -/
def settingsChanged : Slot → Slot
  | .disabled => .unset
  | .active provider => .active provider.markDirty
  | .unset => .unset

/-- Whether the slot has a provider. -/
def isActive : Slot → Bool
  | .active _ => true
  | _ => false

end Slot

end AutoImport
