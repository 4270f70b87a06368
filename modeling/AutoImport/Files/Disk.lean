import AutoImport.Files.View
import AutoImport.Path
import AutoImport.Table

/-!
# Disks

A `Disk` is the image of a hierarchical file system with links: what lies under each real path.  A
path is followed name by name, `..` leads to the directory above the real one, and on the way at
most forty links are taken.  A path of 4096 bytes or more cannot be opened, though the real path of
where it leads can still be told.

A `DiskView` answers, besides the questions of a `FileView`, what the entries of a directory are
themselves, without following links; that is what a walk over source files asks.  It also tells the
real path as it is spelled on the disk, where a name may hold a backslash.
-/

set_option autoImplicit false

namespace AutoImport

/-- What an entry of a directory is itself. -/
inductive EntryType where
  | file
  | directory
  | link
  deriving Repr, DecidableEq

/-- The answers of a disk at one moment. -/
structure DiskView extends FileView where
  /-- The directory from which relative paths are seen. -/
  workingDirectory : String
  /-- The path with all links followed, names spelled as on the disk. -/
  spelledPath? : String → Option String
  /-- What a path is itself; a link at its end is not followed. -/
  entryType? : String → Option EntryType
  /-- The names in a directory in order, with what they are themselves. -/
  entries : String → List (String × EntryType)

/-- What lies under a real path. -/
inductive DiskEntry where
  /-- A file; its text is missing when its bytes are no text. -/
  | file (text : Option String)
  | directory
  /-- A link to an absolute path, by way of `via` other links. -/
  | link (target : String) (via : Nat := 0)
  deriving Repr, DecidableEq

/-- What an entry is itself. -/
def DiskEntry.type : DiskEntry → EntryType
  | .file _ => .file
  | .directory => .directory
  | .link _ _ => .link

/-- The image of a disk: the entries by the names that lead to them from the root. -/
structure Disk where
  entries : Table (List String) DiskEntry := {}
  deriving Repr, DecidableEq, Inhabited

namespace Disk

/-- How many links are taken on the way down one path. -/
def linkLimit : Nat := 40

/-- How many bytes are too many for a path that is opened. -/
def pathLimit : Nat := 4096

/-- What lies under a real path; the root is a directory. -/
def entry? (disk : Disk) (names : List String) : Option DiskEntry :=
  if names.isEmpty then some .directory else disk.entries.get? names

/-- Whether a real path is a directory. -/
def isDirectory (disk : Disk) (names : List String) : Bool :=
  disk.entry? names = some .directory

/-- Follows names from a real path; at most `links` links are taken. -/
def follow (disk : Disk) (links : Nat) (here : List String) (names : List String) :
    Option (List String) :=
  match names with
  | [] => some here
  | name :: rest =>
    if !disk.isDirectory here then none
    else if name = "" ∨ name = "." then disk.follow links here rest
    else if name = ".." then disk.follow links here.dropLast rest
    else
      match disk.entry? (here ++ [name]) with
      | none => none
      | some (.link target via) =>
        if via < links then disk.follow (links - via - 1) [] (Path.segments target ++ rest)
        else none
      | some _ => disk.follow links (here ++ [name]) rest
termination_by (links, names.length)

/-- A path as an absolute one; the empty path leads nowhere. -/
def absolute? (workingDirectory path : String) : Option String :=
  if path = "" then none
  else if Text.startsWith "/" path then some path
  else some (workingDirectory ++ "/" ++ path)

/-- The real path that a path leads to. -/
def resolve? (disk : Disk) (workingDirectory path : String) : Option (List String) :=
  (absolute? workingDirectory path).bind fun path =>
    disk.follow linkLimit [] (Path.segments path)

/-- The text of a real path. -/
def spell (names : List String) : String :=
  "/" ++ "/".intercalate names

/-- The real path of the place that is opened under a path. -/
def open? (disk : Disk) (workingDirectory path : String) : Option (List String) :=
  if path.utf8ByteSize < pathLimit then disk.resolve? workingDirectory path else none

/-- The entry that is opened under a path. -/
def target? (disk : Disk) (workingDirectory path : String) : Option DiskEntry :=
  (disk.open? workingDirectory path).bind disk.entry?

/-- What a path is itself: a link at its end is not followed, unless a `/` comes after it. -/
def typeOf? (disk : Disk) (workingDirectory path : String) : Option EntryType := do
  let names := Path.segments (← absolute? workingDirectory path)
  let last := names.getLast?.getD ""
  if last = "" ∨ last = "." ∨ last = ".." then
    (← (disk.resolve? workingDirectory path).bind disk.entry?).type
  else
    let parent ← disk.follow linkLimit [] names.dropLast
    if disk.isDirectory parent then (← disk.entry? (parent ++ [last])).type else none

/-- The names directly below a real path, in order. -/
def namesIn (disk : Disk) (directory : List String) : List String :=
  (disk.entries.keys.filterMap fun names =>
    if names ≠ [] ∧ names.dropLast = directory then names.getLast? else none).mergeSort
    fun a b => decide (a ≤ b)

/-- The names in a directory. -/
def list (disk : Disk) (workingDirectory path : String) : List String :=
  match disk.open? workingDirectory path with
  | some names => if disk.isDirectory names then disk.namesIn names else []
  | none => []

/-- The path of a name in a directory. -/
def child (directory name : String) : String :=
  if Text.endsWith "/" directory then directory ++ name else directory ++ "/" ++ name

/-- The answers of a disk as seen from a working directory. -/
def view (disk : Disk) (workingDirectory : String) (caseSensitive : Bool) : DiskView :=
  let isFile (path : String) : Bool :=
    match disk.target? workingDirectory path with
    | some (.file _) => true
    | _ => false
  let isDirectory (path : String) : Bool :=
    disk.target? workingDirectory path = some .directory
  let spelledPath? (path : String) : Option String :=
    (disk.resolve? workingDirectory path).map spell
  { fileExists := isFile
    directoryExists := isDirectory
    readText := fun path =>
      match disk.target? workingDirectory path with
      | some (.file text) => text
      | _ => none
    realPath := fun path => (spelledPath? path).map Path.slashed
    directories := fun path =>
      (disk.list workingDirectory path).filter fun name => isDirectory (child path name)
    files := fun path =>
      (disk.list workingDirectory path).filter fun name => isFile (child path name)
    caseSensitive
    extent := disk.entries.size + 2
    workingDirectory
    spelledPath?
    entryType? := fun path =>
      if path.utf8ByteSize < pathLimit then disk.typeOf? workingDirectory path else none
    entries := fun path =>
      (disk.list workingDirectory path).filterMap fun name =>
        (disk.typeOf? workingDirectory (child path name)).map fun type => (name, type) }

/-- Makes a directory of every name on a way from a real path, where there is nothing yet; gives the
real path that the way leads to. -/
def ensureDirectories (disk : Disk) (here : List String) : List String → Disk × List String
  | [] => (disk, here)
  | name :: rest =>
    if name = "" ∨ name = "." then disk.ensureDirectories here rest
    else if name = ".." then disk.ensureDirectories here.dropLast rest
    else
      match disk.entry? (here ++ [name]) with
      | none =>
        let made : Disk := ⟨disk.entries.insert (here ++ [name]) .directory⟩
        made.ensureDirectories (here ++ [name]) rest
      | some (.link target _) =>
        disk.ensureDirectories ((disk.follow linkLimit [] (Path.segments target)).getD here) rest
      | some _ => disk.ensureDirectories (here ++ [name]) rest

/-- Makes a directory and the directories above it. -/
def createDirectory (disk : Disk) (path : String) : Disk :=
  (disk.ensureDirectories [] (Path.segments path)).1

/-- Puts an entry under a path, with the directories above it. -/
def insert (disk : Disk) (path : String) (entry : DiskEntry) : Disk :=
  let names := Path.segments path
  let (made, parent) := disk.ensureDirectories [] names.dropLast
  ⟨made.entries.insert (parent ++ [names.getLast?.getD ""]) entry⟩

end Disk

end AutoImport
