import AutoImport.CommandLine.Footprint
import AutoImport.CommandLine.Run

/-!
# The program

The program works on an image of the disk.  The image begins empty and is extended by the
directories in the footprint of the report until it has them all; then the program is run on
it. -/

set_option autoImplicit false

namespace AutoImport

/-- The part of the disk that has been read. -/
structure DiskImage where
  disk : Disk := {}
  /-- The real directories that have been read. -/
  known : List (List String) := []

namespace DiskImage

/-- What a directory or a file is; the text of a file is read if it is wanted. -/
def readContent (isWanted : Bool) (entry : IO.FS.DirEntry) (type : IO.FS.FileType) :
    IO (Option DiskEntry) := do
  match type with
  | .dir => return some .directory
  | .file =>
    if isWanted then
      try return some (.file (some (← IO.FS.readFile entry.path)))
      catch _ => return some (.file none)
    else return some (.file none)
  | _ => return none

/-- A way from the root back to the root that takes one link: `/proc/self` is a link to a directory
in `/proc`. -/
def detour : String :=
  "proc/self/../../"

/-- Whether a path, given by its names from the root, can be opened after a number of detours. -/
def opensAfter (names : List String) (detours : Nat) : IO Bool := do
  let path := String.join (List.replicate detours detour) ++ "/".intercalate names
  let entry : IO.FS.DirEntry := { root := "/", fileName := path }
  try
    let _ ← entry.path.metadata
    return true
  catch _ => return false

/-- How many other links a link in a real directory goes by.  With `n` of them, it can be opened
after `d` detours exactly if `n + 1 + d` links may be taken on one path. -/
def countVia (names : List String) : IO Nat := do
  if !(← opensAfter [] 1) then return 0
  for via in List.range Disk.linkLimit do
    if ← opensAfter names (Disk.linkLimit - via - 1) then return via
  return 0

/-- The image with an entry that it does not have. -/
def add (image : DiskImage) (names : List String) (content : DiskEntry) : DiskImage :=
  { image with disk := ⟨⟨(names, content) :: image.disk.entries.entries⟩⟩ }

/-- Adds a link together with the place that it leads to.  The text of a file is read if its name
or that of the link is among `readable`.  A link that leads nowhere is a link to itself. -/
def readLink (readable names : List String) (entry : IO.FS.DirEntry) (image : DiskImage) :
    IO DiskImage := do
  try
    let target := (← IO.FS.realPath entry.path).toString
    let isReadable := entry.fileName ∈ readable
    let isWanted := isReadable || SourceFiles.lastName target ∈ readable
    let isKnown := (image.disk.entry? ((Path.segments target).filter (· ≠ ""))).isSome
    let content ← readContent isWanted entry (← entry.path.metadata).type
    -- Of a place that the image knows already, only the text of its file may be news.
    let brings := fun content =>
      !isKnown || match content with
        | .file _ => isReadable
        | _ => false
    let disk :=
      match content.filter brings with
      | some content => image.disk.insert target content
      | none => image.disk
    return { image with disk }.add names (.link target (← countVia names))
  catch _ => return image.add names (.link entry.path.toString)

/-- Reads a real directory, unless it is known.  One that cannot be read is empty. -/
def readDirectory (readable names : List String) (image : DiskImage) : IO DiskImage := do
  if names ∈ image.known then return image
  let directory : IO.FS.DirEntry := { root := "/", fileName := "/".intercalate names }
  let present := image.disk.namesIn names
  let entries ← try directory.path.readDir catch _ => pure #[]
  let mut image := { image with known := names :: image.known }
  let mut links : List IO.FS.DirEntry := []
  for entry in entries do
    if entry.fileName ∉ present then
      match (← entry.path.symlinkMetadata).type with
      | .symlink => links := entry :: links
      | type =>
        if let some content ← readContent (entry.fileName ∈ readable) entry type then
          image := image.add (names ++ [entry.fileName]) content
  for link in links do
    image ← image.readLink readable (names ++ [link.fileName]) link
  return image

/-- Reads the directories on the way along names from a real directory; at most `links` links are
taken. -/
def readAlong (readable : List String) (links : Nat) (here names : List String)
    (image : DiskImage) : IO DiskImage := do
  let image ← image.readDirectory readable here
  match names with
  | [] => return image
  | name :: rest =>
    if name = "" ∨ name = "." then readAlong readable links here rest image
    else if name = ".." then readAlong readable links here.dropLast rest image
    else
      match image.disk.entry? (here ++ [name]) with
      | some .directory => readAlong readable links (here ++ [name]) rest image
      | some (.link target via) =>
        if via < links then
          readAlong readable (links - via - 1) [] (Path.segments target ++ rest) image
        else return image
      | _ => return image
termination_by (links, names.length)

/-- Reads the directories on the way to a path. -/
def readPath (readable : List String) (workingDirectory path : String) (image : DiskImage) :
    IO DiskImage :=
  match Disk.absolute? workingDirectory path with
  | some path => readAlong readable Disk.linkLimit [] (Path.segments path) image
  | none => return image

/-- Reads all directories that the report of the arguments looks into. -/
def ofArguments (workingDirectory : String) (arguments : Arguments) : IO DiskImage := do
  let readable :=
    manifestName :: "tsconfig.json" :: (arguments.project.map SourceFiles.lastName).toList
  let mut image : DiskImage := {}
  let mut isGrowing := true
  while isGrowing do
    let before := image.known.length
    for path in Footprint.directories (image.disk.view workingDirectory true) arguments do
      image ← image.readPath readable workingDirectory path
    isGrowing := before < image.known.length
  return image

end DiskImage

end AutoImport

open AutoImport in
/-- Runs the program. -/
def main (arguments : List String) : IO UInt32 := do
  let workingDirectory := (← IO.currentDir).toString
  let image ←
    match Arguments.parse arguments with
    | .ok parsed => DiskImage.ofArguments workingDirectory parsed
    | .error _ => pure {}
  let outcome := CommandLine.run (image.disk.view workingDirectory true) arguments
  IO.print outcome.output
  IO.eprint outcome.errors
  return outcome.exitCode.toUInt32
