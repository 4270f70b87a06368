import AutoImport.Config
import AutoImport.Table

/-!
# Remembered module specifiers

How a file is best imported from another depends on the importing file, on the preferences for
specifiers and on the mode of the import: these make a `Fingerprint`.  A `SpecifierCache` holds the
findings of one fingerprint.  A question or a finding under another fingerprint drops them all
first, so findings made under different preferences never meet.
-/

set_option autoImplicit false

namespace AutoImport

/-- How a module specifier was found. -/
inductive SpecifierKind where
  | nodeModules
  | paths
  | redirect
  | relative
  | ambient
  | unknown
  deriving Repr, DecidableEq

/-- A path through which a module can be reached. -/
structure ModulePath where
  path : String
  isInNodeModules : Bool := false
  isRedirect : Bool := false
  deriving Repr, DecidableEq

/-- The mode of an import. -/
inductive ImportMode where
  | commonJs
  | esModule
  deriving Repr, DecidableEq

/-- The name of a mode. -/
def ImportMode.name : ImportMode → String
  | .commonJs => "commonjs"
  | .esModule => "esm"

/-- What a specifier depends on besides the imported module. -/
structure Fingerprint where
  fromFile : String
  ending : Option String
  preference : Option String
  mode : Option ImportMode
  deriving Repr, DecidableEq

namespace Fingerprint

/-- The fingerprint of an import under preferences. -/
def of (fromFile : String) (preferences : UserPreferences) (mode : Option ImportMode) :
    Fingerprint :=
  { fromFile
    ending := preferences.importModuleSpecifierEnding
    preference := preferences.importModuleSpecifierPreference
    mode }

/-- File, ending, preference and mode with commas between them, empty where they are not set. -/
def label (fingerprint : Fingerprint) : String :=
  ",".intercalate
    [fingerprint.fromFile, fingerprint.ending.getD "", fingerprint.preference.getD "",
      (fingerprint.mode.map ImportMode.name).getD ""]

end Fingerprint

/-- What is known about importing one module. -/
structure SpecifierInfo where
  kind : Option SpecifierKind := none
  paths : Option (List ModulePath) := none
  specifiers : Option (List String) := none
  /-- The package that the specifiers go through. -/
  packageName : Option String := none
  /-- Whether the manifest does not list that package. -/
  isBlocked : Option Bool := none
  deriving Repr, DecidableEq

/-- The findings of one fingerprint by imported file. -/
structure SpecifierCache where
  fingerprint : Option Fingerprint := none
  entries : Table String SpecifierInfo := {}
  deriving Repr, DecidableEq, Inhabited

namespace SpecifierCache

/-- Makes a fingerprint the current one; another one's findings are dropped. -/
def enter (cache : SpecifierCache) (fingerprint : Fingerprint) : SpecifierCache :=
  if cache.fingerprint = some fingerprint then cache else { fingerprint := some fingerprint }

/-- What is known under a fingerprint about a file. -/
def get (fingerprint : Fingerprint) (toFile : String) (cache : SpecifierCache) :
    Option SpecifierInfo × SpecifierCache :=
  let cache := cache.enter fingerprint
  (cache.entries.get? toFile, cache)

/-- Changes what is known under a fingerprint about a file. -/
def update (fingerprint : Fingerprint) (toFile : String) (change : SpecifierInfo → SpecifierInfo)
    (cache : SpecifierCache) : SpecifierCache :=
  let cache := cache.enter fingerprint
  { cache with
    entries := cache.entries.insert toFile (change ((cache.entries.get? toFile).getD {})) }

/-- Records specifiers with the paths that they come from, in place of all that was known. -/
def set (fingerprint : Fingerprint) (toFile : String) (kind : SpecifierKind)
    (paths : List ModulePath) (specifiers : List String) (cache : SpecifierCache) :
    SpecifierCache :=
  cache.update fingerprint toFile fun _ =>
    { kind := some kind
      paths := some paths
      specifiers := some specifiers
      isBlocked := some false }

/-- Records the paths to a file. -/
def setPaths (fingerprint : Fingerprint) (toFile : String) (paths : List ModulePath)
    (cache : SpecifierCache) : SpecifierCache :=
  cache.update fingerprint toFile fun info => { info with paths := some paths }

/-- Records whether a file is blocked, and the package that it belongs to. -/
def setBlocked (fingerprint : Fingerprint) (toFile : String) (packageName : Option String)
    (isBlocked : Bool) (cache : SpecifierCache) : SpecifierCache :=
  cache.update fingerprint toFile fun info => { info with packageName, isBlocked := some isBlocked }

/-- Number of files about which something is known. -/
def count (cache : SpecifierCache) : Nat :=
  cache.entries.size

end SpecifierCache

end AutoImport
