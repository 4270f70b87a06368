import AutoImport.Proofs.Entrypoints.FoundFiles
import AutoImport.Proofs.Entrypoints.VisitedDirectories
import AutoImport.Proofs.Files.WrittenFiles

/-!
# Walks through trees in memory

Whatever the links of a tree that was built, the walk below a directory ends.  Where directories are
listed the path leads to a stored directory, and there are finitely many of these, although there
may be no end of paths that lead to them.

Without links the paths are lists of segments, and what is stored in a directory is one segment
more.  So a walk from a normal directory reads exactly the directories that segments other than
`node_modules` lead to, and finds their files (`Entrypoints.filesBelow_of_built`).  A name that
begins as a drive does would lead it elsewhere.
-/

set_option autoImplicit false

namespace AutoImport

namespace MemoryTree

variable {tree : MemoryTree}

/-- No file or directory has a name that begins as a drive does. -/
def NamesNoDrive (tree : MemoryTree) : Prop :=
  ∀ key ∈ tree.files.keys ++ tree.directories, Path.isRooted (Path.baseName key) = false
  deriving Decidable

/-- Without links every path resolves to its own key. -/
theorem resolve_of_no_links (h : tree.links.keys = []) (path : String) :
    tree.resolve path = tree.key path := by
  refine follow_of_no_hop (hop?_eq_none_iff.2 fun ancestor _ => ?_) hopLimit
  rw [h]
  exact List.not_mem_nil

end MemoryTree

namespace Entrypoints

open AutoImport.Path (below)

variable {tree : MemoryTree}

/-! ## Every walk ends -/

/-- A path that resolves to a directory has that place as its real directory. -/
theorem realDirectory_of_mem {directory : String} (h : tree.resolve directory ∈ tree.directories) :
    tree.realPath directory = some (tree.resolve directory) ∧
      realDirectory tree.view directory = tree.resolve directory := by
  have hreal : tree.realPath directory = some (tree.resolve directory) := if_pos (Or.inr h)
  have hview : tree.view.realPath directory = some (tree.resolve directory) := hreal
  refine ⟨hreal, ?_⟩
  unfold realDirectory
  rw [hview]
  rfl

/-- The walk below a directory is the one without a bound. -/
theorem exists_walks_of_built (hbuilt : tree.Built) (start : String) :
    ∃ reads, Walks tree.view [start] {} reads (walk tree.view tree.view.extent start {}) := by
  have hplaces : ∀ directory, tree.view.directories directory ≠ [] →
      realDirectory tree.view directory ∈ tree.directories := by
    intro directory hlisted
    obtain ⟨name, hname⟩ := List.exists_mem_of_ne_nil _ hlisted
    have hmem := hbuilt.resolve_mem_directories hname
    rwa [(realDirectory_of_mem hmem).2]
  refine exists_walks hplaces _ _ _ ?_
  have hlength : unvisited tree.directories {} ≤ tree.directories.length :=
    List.length_filter_le _ _
  have hextent : tree.view.extent = tree.directories.length + tree.links.size + 2 := rfl
  omega

/-- Every entry that a walk reads in a built tree has a real path, its place. -/
theorem realPath_of_entry (hbuilt : tree.Built) {reads : List String} {entry : String × String}
    (h : entry ∈ entries tree.view reads) :
    tree.realPath entry.1 = some (tree.resolve entry.1) ∧
      realDirectory tree.view entry.1 = tree.resolve entry.1 :=
  realDirectory_of_mem (hbuilt.resolve_mem_directories_of_file (mem_entries.1 h).2)

/-- No file of a real directory is found twice. -/
theorem nodup_realPaths (hbuilt : tree.Built) {reads : List String}
    (h : (reads.map (realDirectory tree.view)).Nodup) :
    ((entries tree.view reads).map fun entry => (tree.realPath entry.1, entry.2)).Nodup := by
  have hsame : ((entries tree.view reads).map fun entry => (tree.realPath entry.1, entry.2)) =
      ((entries tree.view reads).map fun entry => (realDirectory tree.view entry.1, entry.2)).map
        (Prod.map some id) := by
    rw [List.map_map]
    refine List.map_congr_left fun entry hentry => ?_
    obtain ⟨hreal, hdirectory⟩ := realPath_of_entry hbuilt hentry
    rw [hreal, Function.comp_apply, hdirectory]
    rfl
  rw [hsame]
  refine (nodup_entries (fun path => tree.nodup_fileNames path) h).map ?_
  intro first second heq
  obtain ⟨hreal, hname⟩ := Prod.ext_iff.1 heq
  exact Prod.ext (Option.some.inj hreal) hname

/-- Where a visited directory is stored, one that leads to the same place was read. -/
theorem exists_read_of_visited (hbuilt : tree.Built) (hlinks : tree.links.keys = [])
    {pending reads : List String} {walked : Walk} (h : Walks tree.view pending {} reads walked)
    {directory : String} (hmem : tree.resolve directory ∈ tree.directories)
    (hvisited : realDirectory tree.view directory ∈ walked.visited) :
    ∃ other ∈ reads, tree.resolve other = tree.resolve directory := by
  rw [h.visited_eq, List.append_nil, List.mem_reverse, (realDirectory_of_mem hmem).2] at hvisited
  obtain ⟨other, hother, hreal⟩ := List.mem_map.1 hvisited
  refine ⟨other, hother, ?_⟩
  by_cases hstored : tree.resolve other ∈ tree.files.keys ∨ tree.resolve other ∈ tree.directories
  · rw [← hreal]
    unfold realDirectory
    have hsome : tree.view.realPath other = some (tree.resolve other) := by
      refine if_pos (hstored.imp_left fun hfile => ?_)
      exact (tree.files.contains_iff_mem_keys _).2 hfile
    rw [hsome]
    rfl
  · -- Nothing is there, so the path is spelled as the directory is stored.
    have hnone : tree.view.realPath other = none := by
      refine if_neg fun hthere => hstored (hthere.imp_left fun hfile => ?_)
      exact (tree.files.contains_iff_mem_keys _).1 hfile
    have hspelled : realDirectory tree.view other = other := by
      unfold realDirectory
      rw [hnone]
      rfl
    rw [hspelled] at hreal
    rw [hreal, MemoryTree.resolve_of_no_links hlinks]
    exact hbuilt.key_directory _ hmem

/-! ## Walks without links -/

section Plain

variable {segments : List Chars}

/-- The directories that names below a directory lead to, outside of installed packages. -/
def IsBelow (tree : MemoryTree) (segments : List Chars) (directory : String) : Prop :=
  ∃ names, directory = below (segments ++ names) ∧
    (∀ name ∈ names, Chars.IsSegment name ∧ Chars.folded tree.caseSensitive name = name) ∧
    packagesName.toList ∉ names

variable (hbuilt : tree.Built) (hlinks : tree.links.keys = []) (hdrive : tree.NamesNoDrive)
  (hsegments : ∀ segment ∈ segments, Chars.IsSegment segment)

include hlinks hsegments

/-- Names that are folded already stay as they are below a resolved directory. -/
theorem resolve_below {names : List Chars}
    (hnames : ∀ name ∈ names, Chars.IsSegment name ∧ Chars.folded tree.caseSensitive name = name) :
    tree.resolve (below (segments ++ names)) =
      below (segments.map (Chars.folded tree.caseSensitive) ++ names) := by
  have hsmall : names.map (Chars.folded tree.caseSensitive) = names :=
    (List.map_congr_left fun name hname => (hnames name hname).2).trans (List.map_id names)
  rw [MemoryTree.resolve_of_no_links hlinks, MemoryTree.key_below, List.map_append, hsmall]
  exact List.forall_mem_append.2 ⟨hsegments, fun name hname => (hnames name hname).1⟩

/-- What is stored in a directory is reached by its name. -/
theorem join_baseName {names : List Chars} {key : String}
    (hnames : ∀ name ∈ names, Chars.IsSegment name ∧ Chars.folded tree.caseSensitive name = name)
    (hkey : tree.key key = key) (hrooted : Path.isRooted (Path.baseName key) = false)
    (hdirectory : Path.directory key = tree.resolve (below (segments ++ names))) :
    tree.key (Path.join (below (segments ++ names)) (Path.baseName key)) = key ∧
      (key = "/" ∨ ∃ last, Chars.IsSegment last ∧ Chars.folded tree.caseSensitive last = last ∧
        Path.baseName key = .ofList last ∧
        Path.join (below (segments ++ names)) (Path.baseName key) =
          below (segments ++ (names ++ [last]))) := by
  have hall : ∀ segment ∈ segments ++ names, Chars.IsSegment segment :=
    List.forall_mem_append.2 ⟨hsegments, fun name hname => (hnames name hname).1⟩
  have hpieces : ∀ piece ∈ segments.map (Chars.folded tree.caseSensitive) ++ names,
      Chars.IsPiece piece :=
    List.forall_mem_append.2 ⟨Chars.isPiece_of_mem_map_folded hsegments,
      fun name hname => (hnames name hname).1.isPiece⟩
  rw [resolve_below hlinks hsegments hnames] at hdirectory
  rcases MemoryTree.key_cases hkey hpieces hdirectory with
    ⟨hnil, rfl⟩ | ⟨last, hlast, hsmall, hbelow, hbase⟩
  · -- A file may be stored at `/`.
    obtain ⟨hnilSegments, rfl⟩ := List.append_eq_nil_iff.1 hnil
    obtain rfl : segments = [] := by simpa using hnilSegments
    have hjoin : Path.join (below []) "" = below [] := by
      unfold Path.join
      rw [Path.toList_below, String.toList_empty, Chars.join_nil (by decide)]
      rfl
    rw [Path.baseName_below_nil, List.append_nil, hjoin]
    exact ⟨hkey, Or.inl rfl⟩
  · have hname : Chars.IsName (Path.baseName key).toList := by
      refine ⟨?_, hrooted⟩
      rw [hbase, String.toList_ofList]
      exact hlast
    have hjoin := Path.join_below_name hall hname
    rw [hbase, String.toList_ofList, List.append_assoc] at hjoin
    have hmore : ∀ name ∈ names ++ [last],
        Chars.IsSegment name ∧ Chars.folded tree.caseSensitive name = name :=
      List.forall_mem_append.2 ⟨hnames, List.forall_mem_singleton.2 ⟨hlast, hsmall⟩⟩
    rw [hbase, hjoin, ← MemoryTree.resolve_of_no_links hlinks, resolve_below hlinks hsegments hmore,
      ← List.append_assoc, ← hbelow]
    exact ⟨rfl, Or.inr ⟨last, hlast, hsmall, rfl, rfl⟩⟩

include hbuilt hdrive

/-- A directory below is left for directories below. -/
theorem isBelow_child {directory child : String} (hdirectory : IsBelow tree segments directory)
    (hchild : child ∈ subdirectories tree.view directory) : IsBelow tree segments child := by
  obtain ⟨names, rfl, hnames, hother⟩ := hdirectory
  obtain ⟨name, hname, rfl⟩ := List.mem_map.1 hchild
  obtain ⟨hlisted, hnamePackages⟩ := List.mem_filter.1 hname
  obtain ⟨key, hkey, hkeyDirectory, rfl⟩ := MemoryTree.exists_key_of_mem_namesIn hlisted
  obtain ⟨hstored, hroot⟩ := List.mem_filter.1 hkey
  rw [hlinks, List.append_nil] at hstored
  obtain ⟨-, hcases⟩ := join_baseName hlinks hsegments hnames (hbuilt.key_directory key hstored)
    (hdrive key (List.mem_append_right _ hstored)) hkeyDirectory
  obtain ⟨last, hlast, hsmall, hbase, hjoin⟩ := hcases.resolve_left (of_decide_eq_true hroot)
  refine ⟨names ++ [last], hjoin, ?_, ?_⟩
  · exact List.forall_mem_append.2 ⟨hnames, List.forall_mem_singleton.2 ⟨hlast, hsmall⟩⟩
  · rw [List.mem_append, List.mem_singleton, not_or]
    refine ⟨hother, fun hsame => of_decide_eq_true hnamePackages ?_⟩
    rw [hbase, ← hsame, String.ofList_toList]

/-- A walk that starts below a directory reads only directories below it. -/
theorem isBelow_of_read {reads : List String} {walked : Walk}
    (h : Walks tree.view [below segments] {} reads walked) :
    ∀ directory ∈ reads, IsBelow tree segments directory := by
  have hstart : IsBelow tree segments (below segments) :=
    ⟨[], by rw [List.append_nil], by simp, List.not_mem_nil⟩
  exact h.forall_mem_reads (List.forall_mem_singleton.2 hstart) fun directory hdirectory child =>
    isBelow_child hbuilt hlinks hdrive hsegments hdirectory

/-- A file that is listed in a directory below is found under its key. -/
theorem key_join_of_file {directory name : String} (hdirectory : IsBelow tree segments directory)
    (hname : name ∈ tree.fileNames directory) :
    ∃ file ∈ tree.files.keys, Path.directory file = tree.resolve directory ∧
      name = Path.baseName file ∧ tree.key (Path.join directory name) = file := by
  obtain ⟨names, rfl, hnames, -⟩ := hdirectory
  obtain ⟨file, hfile, hfileDirectory, rfl⟩ := MemoryTree.exists_key_of_mem_namesIn hname
  obtain ⟨hkey, -⟩ := join_baseName hlinks hsegments hnames (hbuilt.isHierarchy.key file hfile)
    (hdrive file (List.mem_append_left _ hfile)) hfileDirectory
  exact ⟨file, hfile, hfileDirectory, rfl, hkey⟩

/-- A stored directory is a child of the one above it, other than `node_modules`. -/
theorem exists_child {directory place : String} (hdirectory : IsBelow tree segments directory)
    (hmem : place ∈ tree.directories) (hroot : place ≠ "/")
    (habove : Path.directory place = tree.resolve directory)
    (hother : Path.baseName place ≠ packagesName) :
    ∃ child ∈ subdirectories tree.view directory, tree.resolve child = place := by
  obtain ⟨names, rfl, hnames, -⟩ := hdirectory
  obtain ⟨hjoin, -⟩ := join_baseName hlinks hsegments hnames (hbuilt.key_directory place hmem)
    (hdrive place (List.mem_append_right _ hmem)) habove
  rw [← MemoryTree.resolve_of_no_links hlinks] at hjoin
  refine ⟨_, List.mem_map_of_mem (List.mem_filter.2 ⟨?_, decide_eq_true hother⟩), hjoin⟩
  exact MemoryTree.mem_namesIn
    (List.mem_filter.2 ⟨List.mem_append_left _ hmem, decide_eq_true hroot⟩) habove

/-- Every stored directory that names lead to is read. -/
theorem exists_read {reads : List String} {walked : Walk}
    (h : Walks tree.view [below segments] {} reads walked) {names : List Chars}
    (hnames : ∀ name ∈ names, Chars.IsSegment name ∧ Chars.folded tree.caseSensitive name = name)
    (hother : packagesName.toList ∉ names)
    (hmem : tree.resolve (below (segments ++ names)) ∈ tree.directories) :
    ∃ directory ∈ reads, tree.resolve directory = tree.resolve (below (segments ++ names)) := by
  have hbelow := isBelow_of_read hbuilt hlinks hdrive hsegments h
  induction names using List.reverseRecOn with
  | nil =>
    rw [List.append_nil] at hmem ⊢
    exact exists_read_of_visited hbuilt hlinks h hmem (h.mem_visited_of_pending _ (by simp))
  | append_singleton front last ih =>
    have hfront := (List.forall_mem_append.1 hnames).1
    rw [List.mem_append, List.mem_singleton, not_or] at hother
    have hpieces : ∀ piece ∈ segments.map (Chars.folded tree.caseSensitive) ++ front ++ [last],
        Chars.IsPiece piece := by
      rw [List.append_assoc, List.forall_mem_append]
      exact ⟨Chars.isPiece_of_mem_map_folded hsegments,
        fun name hname => (hnames name hname).1.isPiece⟩
    rw [resolve_below hlinks hsegments hnames, ← List.append_assoc] at hmem ⊢
    -- The directory above was read, and this one is its child.
    have habove : tree.resolve (below (segments ++ front)) ∈ tree.directories := by
      rw [resolve_below hlinks hsegments hfront]
      exact hbuilt.isHierarchy.directories _ hmem _
        ((Path.mem_ancestors_below hpieces).2 ⟨_, List.prefix_append _ _, rfl⟩)
    obtain ⟨directory, hread, hresolve⟩ := ih hfront hother.1 habove
    rw [resolve_below hlinks hsegments hfront] at hresolve
    have hnotRoot :
        below (segments.map (Chars.folded tree.caseSensitive) ++ front ++ [last]) ≠ "/" := by
      intro hroot
      have hbase := Path.baseName_below hpieces
      rw [hroot, ← String.toList_inj, String.toList_ofList] at hbase
      exact (hpieces last (by simp)).1 hbase.symm
    obtain ⟨child, hchild, hplace⟩ := exists_child hbuilt hlinks hdrive hsegments
      (hbelow directory hread) hmem hnotRoot ((Path.directory_below hpieces).trans hresolve.symm)
      (fun hsame => hother.2 (by rw [← hsame, Path.baseName_below hpieces, String.toList_ofList]))
    rw [← hplace] at hmem ⊢
    exact exists_read_of_visited hbuilt hlinks h hmem (h.mem_visited_of_read _ hread _ hchild)

/-- The keys of the files that are found are those of the files that names other than `node_modules`
lead to. -/
theorem mem_keys_found {reads : List String} {walked : Walk}
    (h : Walks tree.view [below segments] {} reads walked) {file : String} :
    file ∈ walked.found.map tree.key ↔ file ∈ tree.files.keys ∧
      Path.Within (tree.key (below segments)) (Path.directory file) := by
  have hstart : ∀ piece ∈ segments.map (Chars.folded tree.caseSensitive), Chars.IsPiece piece :=
    Chars.isPiece_of_mem_map_folded hsegments
  have hbelow := isBelow_of_read hbuilt hlinks hdrive hsegments h
  have hfound := h.found_eq
  rw [List.nil_append] at hfound
  rw [hfound, List.map_map, MemoryTree.key_below hsegments]
  constructor
  · intro hmem
    obtain ⟨⟨directory, name⟩, hentry, rfl⟩ := List.mem_map.1 hmem
    obtain ⟨hread, hname⟩ := mem_entries.1 hentry
    obtain ⟨file, hfile, hdirectory, -, hkey⟩ :=
      key_join_of_file hbuilt hlinks hdrive hsegments (hbelow directory hread) hname
    obtain ⟨names, rfl, hnames, hother⟩ := hbelow directory hread
    rw [Function.comp_apply, hkey, hdirectory, resolve_below hlinks hsegments hnames]
    refine ⟨hfile, (Path.within_below_iff hstart ?_).2 ⟨names, rfl, hother⟩⟩
    exact List.forall_mem_append.2 ⟨hstart, fun name hname => (hnames name hname).1.isPiece⟩
  · rintro ⟨hfile, hwithin⟩
    have hkey := hbuilt.isHierarchy.key file hfile
    have hrooted := hdrive file (List.mem_append_left _ hfile)
    have hnormal : Path.IsNormal file := hkey ▸ tree.isNormal_key file
    have hne := Path.directory_ne_empty hnormal hrooted
    have hmem := hbuilt.isHierarchy.files file hfile _ (Path.mem_ancestors_self hne)
    -- The directory is below the start.
    obtain ⟨others, hothers, hdirectory⟩ : ∃ others, (∀ segment ∈ others, Chars.IsSegment segment) ∧
        Path.directory file = below others := by
      refine Path.exists_below ((Path.isNormal_directory hnormal).resolve_left hne) ?_
      refine Chars.head?_of_contains ?_ (by simpa using hne) hwithin.1
      rw [Path.toList_below]
      rfl
    rw [hdirectory] at hwithin hmem
    obtain ⟨names, rfl, hother⟩ :=
      (Path.within_below_iff hstart fun s hs => (hothers s hs).isPiece).1 hwithin
    have hsmall := MemoryTree.map_folded_of_key_below hothers (hbuilt.key_directory _ hmem)
    have hnames : ∀ name ∈ names,
        Chars.IsSegment name ∧ Chars.folded tree.caseSensitive name = name := by
      intro name hname
      have hin := List.mem_append_right (segments.map (Chars.folded tree.caseSensitive)) hname
      exact ⟨hothers name hin, List.map_inj_left.1 (hsmall.trans (List.map_id _).symm) name hin⟩
    -- So it was read, and it lists the file.
    rw [← resolve_below hlinks hsegments hnames] at hmem hdirectory
    obtain ⟨directory, hread, hresolve⟩ :=
      exists_read hbuilt hlinks hdrive hsegments h hnames hother hmem
    rw [← hresolve] at hdirectory
    obtain ⟨spelled, rfl, hspelled, -⟩ := hbelow directory hread
    obtain ⟨hjoin, -⟩ := join_baseName hlinks hsegments hspelled hkey hrooted hdirectory
    have hlisted : Path.baseName file ∈ tree.fileNames (below (segments ++ spelled)) :=
      MemoryTree.mem_namesIn hfile hdirectory
    exact List.mem_map.2 ⟨(_, Path.baseName file), mem_entries.2 ⟨hread, hlisted⟩, hjoin⟩

/-- A key is found once, since it says in which real directory it is stored and under which name. -/
theorem nodup_keys_found {reads : List String} {walked : Walk}
    (h : Walks tree.view [below segments] {} reads walked)
    (hpairs : ((entries tree.view reads).map fun entry => (tree.realPath entry.1, entry.2)).Nodup) :
    (walked.found.map tree.key).Nodup := by
  have hbelow := isBelow_of_read hbuilt hlinks hdrive hsegments h
  have hfound := h.found_eq
  rw [List.nil_append] at hfound
  have hplaces : ((entries tree.view reads).map fun entry => (tree.realPath entry.1, entry.2)) =
      (walked.found.map tree.key).map fun file =>
        (some (Path.directory file), Path.baseName file) := by
    rw [hfound, List.map_map, List.map_map]
    refine List.map_congr_left fun entry hentry => ?_
    obtain ⟨hread, hname⟩ := mem_entries.1 hentry
    obtain ⟨file, -, hdirectory, hbase, hkey⟩ :=
      key_join_of_file hbuilt hlinks hdrive hsegments (hbelow _ hread) hname
    rw [Function.comp_apply, Function.comp_apply, hkey, hdirectory, ← hbase,
      (realPath_of_entry hbuilt hentry).1]
  rw [hplaces] at hpairs
  exact hpairs.of_map

end Plain

/-! ## Files below a directory -/

/-- Take any tree that was built, and any start.  The walk without a bound ends, and what it finds
are the files below the start.  No two of the directories that it reads have the same real
directory, and no two of the files the same real directory and name.

If the tree has no links and no names that begin as drives do, and the start is a normal path that
begins with `/`, the files that are found are those whose directory is the start or lies below it,
with no `node_modules` between them, and each is found once. -/
theorem filesBelow_of_built (hbuilt : tree.Built) (start : String) :
    ∃ reads walked, Walks tree.view [start] {} reads walked ∧
      filesBelow tree.view start = walked.found ∧
      (reads.map (realDirectory tree.view)).Nodup ∧
      walked.found = (entries tree.view reads).map (fun entry => Path.join entry.1 entry.2) ∧
      ((entries tree.view reads).map fun entry => (tree.realPath entry.1, entry.2)).Nodup ∧
      (tree.links.keys = [] → tree.NamesNoDrive → Path.IsNormal start → Path.IsSlashRooted start →
        (walked.found.map tree.key).Nodup ∧
          ∀ file, file ∈ walked.found.map tree.key ↔
            file ∈ tree.files.keys ∧ Path.Within (tree.key start) (Path.directory file)) := by
  obtain ⟨reads, hwalks⟩ := exists_walks_of_built hbuilt start
  have hnodup : (reads.map (realDirectory tree.view)).Nodup := by
    have hvisited := hwalks.nodup List.nodup_nil
    rwa [hwalks.visited_eq, List.append_nil, List.nodup_reverse] at hvisited
  have hfound := hwalks.found_eq
  rw [List.nil_append] at hfound
  have hpairs := nodup_realPaths hbuilt hnodup
  refine ⟨reads, _, hwalks, rfl, hnodup, hfound, hpairs, fun hlinks hdrive hnormal hslash => ?_⟩
  obtain ⟨segments, hsegments, rfl⟩ := Path.exists_below hnormal hslash
  exact ⟨nodup_keys_found hbuilt hlinks hdrive hsegments hwalks hpairs,
    fun file => mem_keys_found hbuilt hlinks hdrive hsegments hwalks⟩

/-- Sources with a package that is installed among them. -/
def sourceTree : MemoryTree :=
  ((MemoryTree.writeFile {} "/p/src/a.ts" "").writeFile "/p/src/lib/b.ts" "").writeFile
    "/p/src/node_modules/c/index.ts" ""

/-- The walk of the example sources ends: each directory is read once, `lib` is entered and
`node_modules` is not. -/
theorem filesBelow_of_built_sources :
    sourceTree.Built ∧ sourceTree.links.keys = [] ∧ sourceTree.NamesNoDrive ∧
      ∃ reads walked, Walks sourceTree.view ["/p/src"] {} reads walked ∧
        filesBelow sourceTree.view "/p/src" = walked.found ∧
        (reads.map (realDirectory sourceTree.view)).Nodup ∧
        (walked.found.map sourceTree.key).Nodup ∧
        "/p/src/lib/b.ts" ∈ walked.found.map sourceTree.key ∧
        "/p/src/node_modules/c/index.ts" ∉ walked.found.map sourceTree.key := by
  have hbuilt : sourceTree.Built := .writeFile _ _ (.writeFile _ _ (.writeFile _ _ (.new true)))
  have hlinks : sourceTree.links.keys = [] := rfl
  have hdrive : sourceTree.NamesNoDrive := by decide +kernel
  obtain ⟨reads, walked, hwalks, hfound, hnodup, -, -, hplain⟩ :=
    filesBelow_of_built hbuilt "/p/src"
  obtain ⟨hkeys, hmem⟩ := hplain hlinks hdrive
    (Path.isNormal_of_normalize_eq (by decide +kernel)) (by decide)
  refine ⟨hbuilt, hlinks, hdrive, reads, walked, hwalks, hfound, hnodup, hkeys, ?_, ?_⟩
  · exact (hmem _).2 (by decide +kernel)
  · exact fun hpackage => absurd ((hmem _).1 hpackage) (by decide +kernel)

end Entrypoints

end AutoImport
