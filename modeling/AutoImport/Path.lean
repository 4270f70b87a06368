import AutoImport.Text.Basic
import AutoImport.Text.Lowercase

/-!
# Paths

Every path that the caches exchange is an absolute text with `/` between its segments and without
`.` and `..` segments.  `Path.normalize` produces that form and `Path.canonical` the key under which
two spellings of one file meet: on a file system that ignores case it is written in small letters.

Each operation is defined on lists of characters in the namespace `Chars` and lifted to `String` in
the namespace `Path`.  A root is `/`, a drive root `c:/` or a bare drive `c:`.
-/

set_option autoImplicit false

namespace AutoImport

namespace Chars

/-- The text with `/` for every backslash. -/
def slashed (path : Chars) : Chars :=
  path.map fun c => if c = '\\' then '/' else c

/-- Number of characters in the root of a path, 0 for a relative one. -/
def rootLength : Chars → Nat
  | '/' :: _ => 1
  | c :: ':' :: rest =>
    if c.isAlpha then
      match rest with
      | '/' :: _ => 3
      | _ => 2
    else 0
  | _ => 0

/-- Whether a path begins with a root. -/
def isRooted (path : Chars) : Bool :=
  0 < rootLength path

/-- `relative` seen from `base`; a rooted `relative` stands for itself. -/
def join (base relative : Chars) : Chars :=
  let relative := slashed relative
  if base.isEmpty || isRooted relative then relative
  else
    let base := slashed base
    if relative.isEmpty then base
    else if ['/'].isSuffixOf base then base ++ relative
    else base ++ '/' :: relative

/-- The segments kept so far, last one first, after meeting one more segment.  An empty segment and
`.` change nothing; `..` takes back the last segment, and is kept only where there is none to take
back and no root to stop at. -/
def pushSegment (rooted : Bool) (kept : List Chars) (segment : Chars) : List Chars :=
  if segment = [] ∨ segment = ['.'] then kept
  else if segment = ['.', '.'] then
    match kept with
    | last :: rest =>
      if last ≠ ['.', '.'] then rest
      else if rooted then kept else segment :: kept
    | [] => if rooted then [] else [segment]
  else segment :: kept

/-- The segments that remain of a list of segments, in order. -/
def collapse (rooted : Bool) (segments : List Chars) : List Chars :=
  (segments.foldl (pushSegment rooted) []).reverse

/-- The normal form of a path: its root, then its remaining segments. -/
def normalForm (path : Chars) : Chars :=
  let n := rootLength path
  path.take n ++ Text.joinWith '/' (collapse (0 < n) (Text.splitOn '/' (path.drop n)))

/-- The normal form of `file` seen from `directory`. -/
def normalize (file directory : Chars) : Chars :=
  normalForm (join directory file)

/-- The key of `file` seen from `directory`. -/
def canonical (file directory : Chars) (caseSensitive : Bool) : Chars :=
  if caseSensitive then normalize file directory
  else Text.lowercase (normalize file directory)

/-- The directory that holds a path.  A root is its own directory. -/
def directory (path : Chars) : Chars :=
  let n := rootLength path
  if path.length ≤ n then path
  else
    match Text.splitLast? '/' (Text.dropTrailingSlash path) with
    | some (before, _) => if n ≤ before.length then before else path.take n
    | none => []

/-- The last segment of a path, empty for a root. -/
def baseName (path : Chars) : Chars :=
  let trimmed := Text.dropTrailingSlash path
  if trimmed.length ≤ rootLength trimmed then []
  else
    match Text.splitLast? '/' trimmed with
    | some (_, after) => after
    | none => trimmed

/-- Whether `child` is `parent` or lies below it. -/
def contains (parent child : Chars) : Bool :=
  let parent := Text.dropTrailingSlash parent
  match Text.stripPrefix? parent child with
  | none => false
  | some [] => true
  | some (c :: _) => c = '/' || ['/'].isSuffixOf parent

/-- A directory and the directories above it, nearest first. -/
def ancestors (path : Chars) : List Chars :=
  if path.isEmpty then []
  else if (directory path).length < path.length then path :: ancestors (directory path)
  else [path]
termination_by path.length

end Chars

namespace Path

/-- The path with `/` for every backslash. -/
def slashed (path : String) : String :=
  .ofList (Chars.slashed path.toList)

/-- Length of the root of a path, 0 for a relative one.  Roots are ASCII, so this counts bytes
too. -/
def rootLength (path : String) : Nat :=
  Chars.rootLength path.toList

/-- Whether a path begins with a root. -/
def isRooted (path : String) : Bool :=
  Chars.isRooted path.toList

/-- `relative` seen from `base`; a rooted `relative` stands for itself. -/
def join (base relative : String) : String :=
  .ofList (Chars.join base.toList relative.toList)

/-- The normal form of `file` seen from `directory`: rooted, without `.`, `..` and empty
segments. -/
def normalize (file directory : String) : String :=
  .ofList (Chars.normalize file.toList directory.toList)

/-- The key of `file` seen from `directory`. -/
def canonical (file directory : String) (caseSensitive : Bool) : String :=
  .ofList (Chars.canonical file.toList directory.toList caseSensitive)

/-- The directory that holds a path.  A root is its own directory. -/
def directory (path : String) : String :=
  .ofList (Chars.directory path.toList)

/-- The last segment of a path, empty for a root. -/
def baseName (path : String) : String :=
  .ofList (Chars.baseName path.toList)

/-- The segments of a path, as cut at every `/`. -/
def segments (path : String) : List String :=
  (Text.splitOn '/' path.toList).map .ofList

/-- Whether some segment of the path is `node_modules`. -/
def insideNodeModules (path : String) : Bool :=
  (segments path).contains "node_modules"

/-- Whether `child` is `parent` or lies below it. -/
def contains (parent child : String) : Bool :=
  Chars.contains parent.toList child.toList

/-- A directory and the directories above it, nearest first; nothing for the empty path. -/
def ancestors (path : String) : List String :=
  (Chars.ancestors path.toList).map .ofList

end Path

end AutoImport
