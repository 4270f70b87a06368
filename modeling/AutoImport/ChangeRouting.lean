import AutoImport.Provider

/-!
# Routing changes

A change is reported under whatever path a watcher saw.  It concerns a provider when the path, or
the real path behind it, lies in one of the provider's packages, or when the path goes through a
known link to one.  A change of a package's manifest also concerns a project when looking up
packages from the project's directory would look at that manifest.
-/

set_option autoImplicit false

namespace AutoImport.ChangeRouting

/-- Whether a changed path, given by its key, lies in a package of the provider. -/
def affects (changed : String) (provider : Provider) (symlinks : SymlinkTable) : Bool :=
  provider.dependsOn changed ||
    (symlinks.realPath? changed).any provider.dependsOn ||
    provider.packageDirectories.any fun directory =>
      (symlinks.linksTo directory).any fun link => Path.contains link changed

/-- The directory of packages and the package name of the manifest of an installed package. -/
def manifestLocation? (path : String) : Option (String × String) :=
  if Path.baseName path ≠ manifestName then none
  else
    let package := Path.directory path
    let parent := Path.directory package
    if Path.baseName parent = packagesName then some (parent, Path.baseName package)
    else
      let packages := Path.directory parent
      if Text.startsWith "@" (Path.baseName parent) && Path.baseName packages = packagesName then
        some (packages, .ofList (package.toList.drop (packages.length + 1)))
      else none

/-- Whether a path is the manifest of a package that a lookup from `directory` may look at. -/
def isManifestInScope (path directory : String) : Bool :=
  (manifestLocation? path).any fun (packages, _) =>
    Path.contains (Path.directory packages) directory

end AutoImport.ChangeRouting
