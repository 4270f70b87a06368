/-!
# Limits and names

Discovery gives up completeness for speed.  These are its caps, and the names that installed
packages go by.
-/

set_option autoImplicit false

namespace AutoImport

/-- How many dependencies may contribute entry points before an open choice is dropped. -/
def maxDependencies : Nat := 10

/-- How many entry points one package may have; a package with more contributes none. -/
def maxEntrypoints : Nat := 100

/-- The file name of a manifest. -/
def manifestName : String := "package.json"

/-- The directory that holds installed packages. -/
def packagesName : String := "node_modules"

/-- The scope of packages that hold type declarations only. -/
def typesScope : String := "@types/"

/-- The file name that stands for the directory of a project when its visible manifests are asked
for. -/
def projectAnchor : String := "__inferred type names__.ts"

end AutoImport
