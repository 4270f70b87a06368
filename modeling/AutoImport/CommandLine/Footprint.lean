import AutoImport.CommandLine.Report

/-!
# The footprint of a report

A report is a function of a disk, but it looks into few directories of it.  `Footprint.directories`
names those that a report looks into as far as an image of the disk tells.  An image that is
extended by them may show further ones; when it shows none, it knows all that the report depends
on. -/

set_option autoImplicit false

namespace AutoImport.Footprint

/-- The directories that a walk over source files enters.  `fuel` bounds the directories inside each
other. -/
def sourceDirectories (view : DiskView) : Nat → String → List String
  | 0, _ => []
  | fuel + 1, directory =>
    directory :: (view.entries directory).flatMap fun (name, type) =>
      if type = .directory ∧ !SourceFiles.isSkipped name then
        sourceDirectories view fuel (Disk.child directory name)
      else []

mutual

/-- The texts in a JSON value. -/
def texts : Json.Value → List String
  | .null => []
  | .bool _ => []
  | .number _ => []
  | .text value => [value]
  | .array elements => textsOfElements elements
  | .object members => textsOfMembers members

/-- The texts in the elements of an array. -/
def textsOfElements : List Json.Value → List String
  | [] => []
  | value :: rest => texts value ++ textsOfElements rest

/-- The texts in the members of an object. -/
def textsOfMembers : List (String × Json.Value) → List String
  | [] => []
  | (_, value) :: rest => texts value ++ textsOfMembers rest

end

/-- The directories from which the patterns of a manifest's export map look for files. -/
def patternRoots (manifest : Manifest) : List String :=
  ((manifest.exports.map texts).getD []).filterMap fun target =>
    match Text.splitOn '*' target.toList with
    | [start, _] => some (Entrypoints.patternRoot manifest.directory (.ofList start))
    | _ => none

/-- The directories that the patterns of a package walk through. -/
def patternDirectories (view : FileView) (manifest : Manifest) : List String :=
  (patternRoots manifest).flatMap fun root =>
    root :: (Entrypoints.walk view view.extent root {}).visited

/-- The directories in which a dependency, or the package that declares its types, may be
installed. -/
def packageDirectories (directory : String) (typings : Option String) (dependency : String) :
    List String :=
  PackageLookup.candidates dependency directory ++
    (directory :: typings.toList).flatMap
      (PackageLookup.candidates (Discovery.typesPackage dependency))

/-- The directories that a discovery looks into for the dependencies that manifests list. -/
def discoveryDirectories (view : FileView) (directory : String) (typings : Option String)
    (manifests : List Manifest) : List String :=
  let packages :=
    (Discovery.dependencyNames manifests).flatMap (packageDirectories directory typings)
  let installed :=
    packages.filterMap fun package => Manifest.read? view (Path.join package manifestName)
  packages ++ installed.flatMap (patternDirectories view)

/-- The directories that a report on a project looks into.  The disk spells the directory of the
project as `spelled`. -/
def reportDirectories (view : DiskView) (arguments : Arguments) (spelled : String)
    (found : Probed Report) : List String :=
  let typings :=
    arguments.globalTypingsCache.map fun path =>
      Path.slashed (Report.absolute view.workingDirectory path)
  let manifests := found.val.manifests.filterMap (Manifest.read? view.toFileView)
  sourceDirectories view view.extent spelled ++ found.probes.map Path.directory ++
    discoveryDirectories view.toFileView (Path.slashed spelled) typings manifests

/-- The directories that the report of the arguments looks into, with the path of the project. -/
def directories (view : DiskView) (arguments : Arguments) : List String :=
  let project := arguments.project.getD view.workingDirectory
  match Report.locate view arguments.project, Report.create view arguments with
  | .ok location, .ok found =>
    project ::
      reportDirectories view arguments ((view.spelledPath? location.directory).getD project) found
  | _, _ => [project]

end AutoImport.Footprint
