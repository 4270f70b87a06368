import AutoImport.Limits
import AutoImport.Program

/-!
# Known links

A package may be reached through a link, and a change of it may be reported under either path.  A
`SymlinkTable` records which directories and files are known to be links: forward, so that a path
can be turned into the real one, and backward, so that all paths to a real directory can be found.

Links are learnt when a package turns out to live elsewhere, and from the resolutions of a program.
From a file and the path through which it was reached, `SymlinkTable.guess` finds the directories
that must be linked: it strips the common last segments of both.
-/

set_option autoImplicit false

namespace AutoImport

/-- Where a linked directory really is. -/
structure RealDirectory where
  /-- As the file system spells it. -/
  real : String
  /-- Its key. -/
  realKey : String
  deriving Repr, DecidableEq

/-- The known links of a project. -/
structure SymlinkTable where
  /-- The directory from which relative paths are seen. -/
  base : String
  caseSensitive : Bool
  /-- Real directories by the key of the link. -/
  directories : Table String RealDirectory := {}
  /-- Keys of links by the key of the real directory. -/
  byReal : Table String (List String) := {}
  /-- Real files by the key of the link. -/
  files : Table String String := {}
  /-- Whether the resolutions of the current program have been taken in. -/
  isSeeded : Bool := false
  deriving Repr, DecidableEq

namespace SymlinkTable

/-- Parts of paths that are never tracked. -/
def ignoredParts : List String :=
  ["/node_modules/.", "/.git", "/.#"]

/-- Whether a path is not tracked. -/
def isIgnored (path : String) : Bool :=
  ignoredParts.any fun part => Text.isInfix part.toList path.toList

/-- The key of a path. -/
def key (table : SymlinkTable) (path : String) : String :=
  Path.canonical path table.base table.caseSensitive

/-- Records a linked directory. -/
def setDirectory (table : SymlinkTable) (link : String) (real : RealDirectory) : SymlinkTable :=
  let linkKey := table.key link
  if isIgnored linkKey then table
  else
    let byReal :=
      if table.directories.contains linkKey then table.byReal
      else table.byReal.insert real.realKey ((table.byReal.get? real.realKey).getD [] ++ [linkKey])
    { table with byReal, directories := table.directories.insert linkKey real }

/-- Records a linked file. -/
def setFile (table : SymlinkTable) (link real : String) : SymlinkTable :=
  { table with files := table.files.insert (table.key link) real }

/-- The real directory of a link. -/
def directory? (table : SymlinkTable) (link : String) : Option RealDirectory :=
  table.directories.get? (table.key link)

/-- The links that lead to a real directory, given by its key. -/
def linksTo (table : SymlinkTable) (realKey : String) : List String :=
  (table.byReal.get? realKey).getD []

/-- The real file of a link. -/
def file? (table : SymlinkTable) (link : String) : Option String :=
  table.files.get? (table.key link)

/-- Of two links on the way to a path, the deeper one. -/
def deeper (best : Option (String × RealDirectory)) (entry : String × RealDirectory) :
    Option (String × RealDirectory) :=
  match best with
  | some (link, real) => if link.length ≤ entry.1.length then some entry else some (link, real)
  | none => some entry

/-- The deepest link that is a path or lies above it. -/
def deepest? (table : SymlinkTable) (pathKey : String) : Option (String × RealDirectory) :=
  (table.directories.entries.filter fun entry => Path.contains entry.1 pathKey).foldl deeper none

/-- The deeper one of all links is among them, and none is longer. -/
theorem foldl_deeper (entries : List (String × RealDirectory))
    (first : String × RealDirectory) :
    ∃ best, entries.foldl deeper (some first) = some best ∧ best ∈ first :: entries ∧
      ∀ other ∈ first :: entries, other.1.length ≤ best.1.length := by
  induction entries generalizing first with
  | nil => exact ⟨first, rfl, List.mem_cons_self, by simp⟩
  | cons entry rest ih =>
    by_cases hdeeper : first.1.length ≤ entry.1.length
    · have hstep : deeper (some first) entry = some entry := if_pos hdeeper
      obtain ⟨best, hbest, hmem, hlongest⟩ := ih entry
      refine ⟨best, by rw [List.foldl_cons, hstep, hbest], List.mem_cons_of_mem first hmem, ?_⟩
      intro other hother
      rcases List.mem_cons.1 hother with rfl | hother
      · exact Nat.le_trans hdeeper (hlongest entry List.mem_cons_self)
      · exact hlongest other hother
    · have hstep : deeper (some first) entry = some first := if_neg hdeeper
      obtain ⟨best, hbest, hmem, hlongest⟩ := ih first
      refine ⟨best, by rw [List.foldl_cons, hstep, hbest], ?_, ?_⟩
      · rcases List.mem_cons.1 hmem with rfl | hmem
        · exact List.mem_cons_self
        · exact List.mem_cons_of_mem first (List.mem_cons_of_mem entry hmem)
      · intro other hother
        rcases List.mem_cons.1 hother with rfl | hother
        · exact hlongest other List.mem_cons_self
        · rcases List.mem_cons.1 hother with rfl | hother
          · exact Nat.le_trans (Nat.le_of_not_le hdeeper) (hlongest first List.mem_cons_self)
          · exact hlongest other (List.mem_cons_of_mem first hother)

/-- There is no deepest link exactly when no known link contains the path. -/
theorem deepest?_eq_none_iff_contains {table : SymlinkTable} {pathKey : String} :
    table.deepest? pathKey = none ↔
      ∀ entry ∈ table.directories.entries, ¬Path.contains entry.1 pathKey = true := by
  rw [← List.filter_eq_nil_iff]
  unfold deepest?
  cases table.directories.entries.filter fun entry => Path.contains entry.1 pathKey with
  | nil => simp
  | cons first rest =>
    obtain ⟨best, hbest, -⟩ := foldl_deeper rest first
    have hfold : (first :: rest).foldl deeper none = some best := hbest
    rw [hfold]
    simp

/-- The link that is found is known and on the way, and no longer one is. -/
theorem longest_of_deepest? {table : SymlinkTable} {pathKey : String}
    {best : String × RealDirectory} (h : table.deepest? pathKey = some best) :
    best ∈ table.directories.entries ∧ Path.contains best.1 pathKey = true ∧
      ∀ other ∈ table.directories.entries, Path.contains other.1 pathKey = true →
        other.1.length ≤ best.1.length := by
  unfold deepest? at h
  cases hfilter : table.directories.entries.filter fun entry => Path.contains entry.1 pathKey with
  | nil => simp [hfilter] at h
  | cons first rest =>
    obtain ⟨longest, hbest, hmem, hlongest⟩ := foldl_deeper rest first
    have hfold : (first :: rest).foldl deeper none = some longest := hbest
    rw [hfilter, hfold] at h
    obtain rfl : longest = best := Option.some.inj h
    rw [← hfilter] at hmem hlongest
    obtain ⟨hentry, hcontains⟩ := List.mem_filter.1 hmem
    exact ⟨hentry, hcontains, fun other hother habove =>
      hlongest other (List.mem_filter.2 ⟨hother, habove⟩)⟩

/-- The key of the real file behind a path, if a known link is on its way.  A bare drive such as
`c:` counts as below a link at its root `c:/`, though it is the shorter text.  There is no rest then
to be cut off and put behind the real directory, and that directory is the answer by convention. -/
def realPath? (table : SymlinkTable) (path : String) : Option String :=
  let pathKey := table.key path
  match table.files.get? pathKey with
  | some real => some (table.key real)
  | none =>
    (table.deepest? pathKey).map fun (link, real) =>
      real.realKey ++ .ofList (pathKey.toList.drop link.length)

/-- Whether segments below this one are never stripped: those below it are packages. -/
def holdsPackages (table : SymlinkTable) (segment : String) : Bool :=
  let folded :=
    if table.caseSensitive then segment else .ofList (Text.lowercase segment.toList)
  folded = packagesName || Text.startsWith "@" segment

/-- Whether two segments agree. -/
def agree (table : SymlinkTable) (first second : String) : Bool :=
  if table.caseSensitive then first = second
  else Text.asciiLowercase first.toList = Text.asciiLowercase second.toList

/-- Strips common last segments of two paths, given last segment first, and keeps at least one
segment of each.  Also tells whether anything was stripped. -/
def strip (table : SymlinkTable) :
    List String → List String → Bool × List String × List String
  | r :: rParent :: rs, s :: sParent :: ss =>
    if table.agree r s && !table.holdsPackages rParent && !table.holdsPackages sParent then
      let (_, rest) := table.strip (rParent :: rs) (sParent :: ss)
      (true, rest)
    else (false, r :: rParent :: rs, s :: sParent :: ss)
  | rs, ss => (false, rs, ss)

/-- The path of segments; a single empty segment is the root. -/
def pathOf (segments : List String) : String :=
  if segments = [""] then "/"
  else .ofList (Text.joinWith '/' (segments.map String.toList))

/-- The real directory and the link that a real file and a path to it through a link must come
from. -/
def guess (table : SymlinkTable) (real link : String) : Option (String × String) :=
  let realSegments := Path.segments (Path.normalize real table.base)
  let linkSegments := Path.segments (Path.normalize link table.base)
  match table.strip realSegments.reverse linkSegments.reverse with
  | (true, rs, ss) => some (pathOf rs.reverse, pathOf ss.reverse)
  | (false, _, _) => none

/-- Takes in one resolution. -/
def learn (table : SymlinkTable) (resolution : ResolvedModule) : SymlinkTable :=
  match resolution.via with
  | none => table
  | some via =>
    let table := table.setFile via resolution.file
    match table.guess resolution.file via with
    | some (real, link) => table.setDirectory link ⟨real, table.key real⟩
    | none => table

/-- Takes in the resolutions of a program. -/
def seed (table : SymlinkTable) (resolutions : List ResolvedModule) : SymlinkTable :=
  resolutions.foldl learn { table with isSeeded := true }

/-- Takes in the resolutions, if there are any to take in and that has not been done. -/
def seedOnce (table : SymlinkTable) (resolutions : Option (List ResolvedModule)) : SymlinkTable :=
  match resolutions with
  | some found => if table.isSeeded then table else table.seed found
  | none => table

/-- Lets the next program's resolutions be taken in. -/
def unseed (table : SymlinkTable) : SymlinkTable :=
  { table with isSeeded := false }

/-- Forgets all links. -/
def clear (table : SymlinkTable) : SymlinkTable :=
  { base := table.base, caseSensitive := table.caseSensitive }

end SymlinkTable

end AutoImport
