import AutoImport.Files.Disk
import AutoImport.Limits
import AutoImport.Options

/-!
# Source files of a project

The files of a project are those below its directory with the extension of a typed source, and of a
script where the options allow it.  Installed packages and hidden directories are passed over.  A
directory is read in the order of names, and links are not followed, except for the directory from
which the walk starts.
-/

set_option autoImplicit false

namespace AutoImport.SourceFiles

/-- The text after the last point of a file name; a point at its beginning does not count. -/
def extension? (name : String) : Option String :=
  match Text.splitLast? '.' name.toList with
  | some (_ :: _, extension) => some (.ofList extension)
  | _ => none

/-- Whether a file name is that of a source. -/
def isSource (allowScripts : Bool) (name : String) : Bool :=
  (extension? name).any fun extension =>
    extension ∈ ["ts", "tsx", "mts", "cts"] ||
      (allowScripts && extension ∈ ["js", "jsx", "mjs", "cjs"])

/-- Whether a directory is passed over. -/
def isSkipped (name : String) : Bool :=
  name = packagesName || Text.startsWith "." name

/-- The sources below a directory in the order of the walk.  `fuel` bounds the directories inside
each other. -/
def below (view : DiskView) (allowScripts : Bool) : Nat → String → List String
  | 0, _ => []
  | fuel + 1, directory =>
    (view.entries directory).flatMap fun (name, type) =>
      let path := Disk.child directory name
      match type with
      | .directory => if isSkipped name then [] else below view allowScripts fuel path
      | .file => if isSource allowScripts name then [path] else []
      | .link => []

/-- The last name of a path. -/
def lastName (path : String) : String :=
  match Text.splitLast? '/' path.toList with
  | some (_, name) => .ofList name
  | none => path

/-- The sources of a project in a directory. -/
def collect (view : DiskView) (options : CompilerOptions) (directory : String) : List String :=
  let allowScripts := options.allowJs = some true
  let found :=
    match view.entryType? directory with
    | some .directory => below view allowScripts view.extent directory
    | some .link =>
      if view.directoryExists directory then below view allowScripts view.extent directory else []
    | some .file => if isSource allowScripts (lastName directory) then [directory] else []
    | none => []
  found.map Path.slashed

end AutoImport.SourceFiles
