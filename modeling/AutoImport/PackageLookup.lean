import AutoImport.Files.View
import AutoImport.Limits
import AutoImport.Manifest

/-!
# Looking up installed packages

The manifest of an installed package is found by walking up from a directory and looking into the
`node_modules` directory of each ancestor.  A `PackageLookup` remembers what was found in each
package directory, hits and misses alike.
-/

set_option autoImplicit false

namespace AutoImport

namespace Manifest

/-- Reads a manifest file. -/
def read? (view : FileView) (fileName : String) : Option Manifest :=
  (view.readText fileName).bind (ofJson? fileName)

end Manifest

/-- Remembered manifests by the path of their file, with misses. -/
structure PackageLookup where
  found : Table String (Option Manifest) := {}
  deriving Repr, Inhabited

namespace PackageLookup

/-- Number of remembered answers. -/
def size (lookup : PackageLookup) : Nat :=
  lookup.found.size

/-- Whether nothing is remembered. -/
def isEmpty (lookup : PackageLookup) : Bool :=
  lookup.found.isEmpty

/-- The manifest in a package directory, asking the file system. -/
def manifestOnDisk (view : FileView) (directory : String) : Probed (Option Manifest) :=
  let fileName := Path.join directory manifestName
  if view.directoryExists directory then do
    if ← view.probe fileName then return Manifest.read? view fileName
    else return none
  else return none

/-- The manifest in a package directory, from memory if it was asked for before. -/
def manifestIn (view : FileView) (directory : String) (lookup : PackageLookup) :
    Probed (Option Manifest × PackageLookup) :=
  let fileName := Path.join directory manifestName
  match lookup.found.get? fileName with
  | some remembered => return (remembered, lookup)
  | none => do
    let manifest ← manifestOnDisk view directory
    return (manifest, ⟨lookup.found.insert fileName manifest⟩)

/-- The directories in which a package may be installed, as seen from a directory, nearest first.
Inside a directory of packages there is no further one. -/
def candidates (packageName directory : String) : List String :=
  ((Path.ancestors directory).filter fun ancestor => Path.baseName ancestor ≠ packagesName).map
    fun ancestor => Path.join (Path.join ancestor packagesName) packageName

/-- The first manifest among package directories. -/
def firstManifest (view : FileView) :
    List String → PackageLookup → Probed (Option Manifest × PackageLookup)
  | [], lookup => return (none, lookup)
  | directory :: rest, lookup => do
    match ← manifestIn view directory lookup with
    | (some manifest, lookup) => return (some manifest, lookup)
    | (none, lookup) => firstManifest view rest lookup

/-- The manifest of an installed package, as seen from a directory. -/
def resolve (view : FileView) (packageName directory : String) (lookup : PackageLookup) :
    Probed (Option Manifest × PackageLookup) :=
  firstManifest view (candidates packageName directory) lookup

end PackageLookup

end AutoImport
