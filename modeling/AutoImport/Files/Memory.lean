import AutoImport.Files.View
import AutoImport.Path
import AutoImport.Table

/-!
# File systems in memory

A `MemoryTree` holds files, directories and links to directories by their keys.  Reading follows
links: the deepest link on the way down a path is replaced by its target, at most forty times.
Writing does not: a file is stored under the key of the path as it is spelled.
-/

set_option autoImplicit false

namespace AutoImport

/-- A file system in memory. -/
structure MemoryTree where
  files : Table String String := {}
  directories : List String := ["/"]
  /-- The target of each link. -/
  links : Table String String := {}
  caseSensitive : Bool := true
  deriving Repr, DecidableEq, Inhabited

namespace MemoryTree

/-- How many links are followed on the way down one path. -/
def hopLimit : Nat := 40

/-- The key of a path. -/
def key (tree : MemoryTree) (path : String) : String :=
  Path.canonical path "/" tree.caseSensitive

/-- The directories with a list of ancestors added, nearest first, up to the first one known. -/
def addChain (directories : List String) : List String → List String
  | [] => directories
  | ancestor :: rest =>
    if ancestor ∈ directories then directories else addChain (directories ++ [ancestor]) rest

/-- Adds a directory and the directories above it. -/
def withDirectories (tree : MemoryTree) (directory : String) : MemoryTree :=
  { tree with directories := addChain tree.directories (Path.ancestors directory) }

/-- Writes a file, with the directories above it. -/
def writeFile (tree : MemoryTree) (path text : String) : MemoryTree :=
  let key := tree.key path
  let tree := tree.withDirectories (Path.directory key)
  { tree with files := tree.files.insert key text }

/-- Creates a directory, with the directories above it. -/
def createDirectory (tree : MemoryTree) (path : String) : MemoryTree :=
  tree.withDirectories (tree.key path)

/-- Makes `link` lead to the directory `target`. -/
def linkDirectory (tree : MemoryTree) (link target : String) : MemoryTree :=
  let link := tree.key link
  let target := tree.key target
  let tree := tree.withDirectories (Path.directory link)
  { tree with links := tree.links.insert link target }

/-- Removes a file; tells whether there was one. -/
def removeFile (tree : MemoryTree) (path : String) : Bool × MemoryTree :=
  let key := tree.key path
  (tree.files.contains key, { tree with files := tree.files.erase key })

/-- The path with its deepest link replaced by the link's target, if a link is on the way. -/
def hop? (tree : MemoryTree) (path : String) : Option String :=
  (Path.ancestors path).findSome? fun ancestor =>
    (tree.links.get? ancestor).map fun target =>
      target ++ .ofList (path.toList.drop ancestor.length)

/-- The path after at most `hops` links. -/
def follow (tree : MemoryTree) : Nat → String → String
  | 0, path => path
  | hops + 1, path =>
    match tree.hop? path with
    | some next => tree.follow hops next
    | none => path

/-- The key that a path leads to. -/
def resolve (tree : MemoryTree) (path : String) : String :=
  tree.follow hopLimit (tree.key path)

/-- Whether a path leads to a file. -/
def fileExists (tree : MemoryTree) (path : String) : Bool :=
  tree.files.contains (tree.resolve path)

/-- Whether a path leads to a directory. -/
def directoryExists (tree : MemoryTree) (path : String) : Bool :=
  tree.resolve path ∈ tree.directories

/-- The text of the file that a path leads to. -/
def readText (tree : MemoryTree) (path : String) : Option String :=
  tree.files.get? (tree.resolve path)

/-- The key that a path leads to, if something is there. -/
def realPath (tree : MemoryTree) (path : String) : Option String :=
  let resolved := tree.resolve path
  if tree.files.contains resolved ∨ resolved ∈ tree.directories then some resolved else none

/-- Names in order, each once. -/
def sortedNames (names : List String) : List String :=
  (names.mergeSort fun a b => decide (a ≤ b)).eraseDups

/-- The last segments of the keys that lie directly in `directory`, in order and each once. -/
def namesIn (directory : String) (keys : List String) : List String :=
  sortedNames ((keys.filter fun key => Path.directory key = directory).map Path.baseName)

/-- The names of the directories, and of the links, in a directory. -/
def directoryNames (tree : MemoryTree) (path : String) : List String :=
  namesIn (tree.resolve path) ((tree.directories ++ tree.links.keys).filter (· ≠ "/"))

/-- The names of the files in a directory. -/
def fileNames (tree : MemoryTree) (path : String) : List String :=
  namesIn (tree.resolve path) tree.files.keys

/-- The answers of the tree. -/
def view (tree : MemoryTree) : FileView where
  fileExists := tree.fileExists
  directoryExists := tree.directoryExists
  readText := tree.readText
  realPath := tree.realPath
  directories := tree.directoryNames
  files := tree.fileNames
  caseSensitive := tree.caseSensitive
  extent := tree.directories.length + tree.links.size + 2

/-- How often a path occurs among probed paths, whatever its spelling. -/
def countProbes (tree : MemoryTree) (path : String) (probes : List String) : Nat :=
  (probes.filter fun probed => tree.key probed = tree.key path).length

end MemoryTree

end AutoImport
