import AutoImport.Program

/-!
# The index of exports

Completions look for exports by name or by the beginning of a name.  An `ExportIndex` groups the
exports of a project's program and of its provider's program by name, in the order of names.  It
remembers the two programs that it was built from, and is of use only as long as they are
current. -/

set_option autoImplicit false

namespace AutoImport

/-- An export that can be imported. -/
structure Export where
  symbol : String
  file : String
  kind : ExportKind
  isTypeOnly : Bool
  /-- Whether it comes from the provider. -/
  isFromProvider : Bool
  deriving Repr, DecidableEq

/-- The exports of two programs by name. -/
structure ExportIndex where
  /-- Names in ascending order, each with its exports. -/
  groups : List (String × List Export) := []
  host : Option Program := none
  provider : Option Program := none
  isBuilt : Bool := false
  deriving Repr, DecidableEq, Inhabited

namespace ExportIndex

/-- The groups with one more export, at the end of its group. -/
def insertExport (found : Export) : List (String × List Export) → List (String × List Export)
  | [] => [(found.symbol, [found])]
  | (name, exports) :: rest =>
    if found.symbol = name then (name, exports ++ [found]) :: rest
    else if found.symbol < name then (found.symbol, [found]) :: (name, exports) :: rest
    else (name, exports) :: insertExport found rest

/-- The exports of a file of a program. -/
def exportsOfFile (program : Program) (isFromProvider : Bool) (file : String) : List Export :=
  (program.exportsOf file).map fun symbol =>
    { symbol := symbol.name
      file
      kind := symbol.kind
      isTypeOnly := symbol.isTypeOnly
      isFromProvider }

/-- The files already attributed, and the groups so far. -/
structure Build where
  seen : List String := []
  groups : List (String × List Export) := []

/-- Adds the exports of a file, unless the file is attributed already. -/
def Build.addFile (program : Program) (isFromProvider : Bool) (build : Build) (file : String) :
    Build :=
  if file ∈ build.seen then build
  else
    { seen := file :: build.seen
      groups :=
        (exportsOfFile program isFromProvider file).foldl (fun groups e => insertExport e groups)
          build.groups }

/-- Adds the exports of a program. -/
def Build.addProgram (isFromProvider : Bool) (program : Option Program) (build : Build) : Build :=
  match program with
  | some program => program.sources.foldl (Build.addFile program isFromProvider) build
  | none => build

/-- The index of two programs; a file of both belongs to the first. -/
def build (host provider : Option Program) : ExportIndex :=
  { groups := ((({} : Build).addProgram false host).addProgram true provider).groups
    host
    provider
    isBuilt := true }

/-- Whether the index was built from these programs. -/
def isCurrent (index : ExportIndex) (host provider : Option Program) : Bool :=
  index.isBuilt && Program.same index.host host && Program.same index.provider provider

/-- The index, built anew if it is not that of these programs. -/
def renew (index : ExportIndex) (host provider : Option Program) : ExportIndex :=
  if index.isCurrent host provider then index else build host provider

/-- The exports of a name. -/
def get (index : ExportIndex) (name : String) : List Export :=
  match index.groups.find? fun group => group.1 = name with
  | some (_, exports) => exports
  | none => []

/-- The exports whose name begins with `start`, in the order of names. -/
def search (index : ExportIndex) (start : String) : List Export :=
  ((index.groups.dropWhile fun group => group.1 < start).takeWhile fun group =>
    Text.startsWith start group.1).flatMap Prod.snd

/-- Number of names. -/
def size (index : ExportIndex) : Nat :=
  index.groups.length

/-- Whether there is no export. -/
def isEmpty (index : ExportIndex) : Bool :=
  index.groups.isEmpty

end ExportIndex

end AutoImport
