import AutoImport.Probed

/-!
# File views

Resolution asks a file system a handful of questions.  A `FileView` is the file system as the
answers to them at one moment; every path in a question is absolute, with `/` between
segments. -/

set_option autoImplicit false

namespace AutoImport

/-- The answers of a file system at one moment. -/
structure FileView where
  fileExists : String → Bool
  directoryExists : String → Bool
  readText : String → Option String
  /-- The path with all links followed, if it leads somewhere. -/
  realPath : String → Option String
  /-- The names of the directories in a directory. -/
  directories : String → List String
  /-- The names of the files in a directory. -/
  files : String → List String
  caseSensitive : Bool
  /-- At least the number of directories whose listing is not empty. -/
  extent : Nat

namespace FileView

/-- One existence probe. -/
def probe (view : FileView) (path : String) : Probed Bool :=
  Probed.probe view.fileExists path

end FileView

end AutoImport
