import AutoImport.Files.Memory
import AutoImport.Proofs.Path.AncestorSegments
import AutoImport.Proofs.Path.ExtendedPaths

/-!
# Following links

A tree in memory follows links by text: the deepest link on the way down a path is replaced by its
target, and what comes behind it stays.  So where no link lies on the way from a place to what comes
behind it (`MemoryTree.IsClear`), that stays behind the place, link after link
(`MemoryTree.follow_extend`).

Trees grow from the empty one by writing files, making directories and links, and removing files
(`MemoryTree.Built`).  Their files are stored under keys, in directories that are there
(`MemoryTree.Built.isHierarchy`).
-/

set_option autoImplicit false

namespace AutoImport

namespace Path

/-- The ancestors of a path, one step up at a time. -/
theorem ancestors_cases (path : String) :
    ancestors path = [] ∨ ancestors path = [path] ∨
      (directory path).length < path.length ∧
        ancestors path = path :: ancestors (directory path) := by
  unfold ancestors
  rw [Chars.ancestors]
  split
  · exact Or.inl rfl
  · split
    · rename_i hshorter
      refine Or.inr (Or.inr ⟨?_, ?_⟩)
      · rw [← String.length_toList, ← String.length_toList]
        unfold directory
        rw [String.toList_ofList]
        exact hshorter
      · rw [List.map_cons, String.ofList_toList]
        unfold directory
        rw [String.toList_ofList]
    · refine Or.inr (Or.inl ?_)
      rw [List.map_singleton, String.ofList_toList]

/-- The ancestors of an ancestor are ancestors. -/
theorem ancestors_trans {path ancestor other : String} (h : ancestor ∈ ancestors path)
    (hother : other ∈ ancestors ancestor) : other ∈ ancestors path := by
  induction hlength : path.length using Nat.strongRecOn generalizing path with
  | ind length ih =>
    rcases ancestors_cases path with hnone | hself | ⟨hshorter, hcons⟩
    · simp [hnone] at h
    · rw [hself, List.mem_singleton] at h
      rwa [← h]
    · rw [hcons] at h ⊢
      rcases List.mem_cons.1 h with rfl | habove
      · rwa [hcons] at hother
      · exact List.mem_cons_of_mem path (ih _ (hlength ▸ hshorter) habove rfl)

end Path

namespace MemoryTree

variable {tree : MemoryTree}

/-! ## Trees that were built -/

/-- The trees that the operations make. -/
inductive Built : MemoryTree → Prop where
  | new (caseSensitive : Bool) : Built { caseSensitive }
  | writeFile {tree : MemoryTree} (path text : String) :
    Built tree → Built (tree.writeFile path text)
  | createDirectory {tree : MemoryTree} (path : String) :
      Built tree → Built (tree.createDirectory path)
  | linkDirectory {tree : MemoryTree} (link target : String) :
      Built tree → Built (tree.linkDirectory link target)
  | removeFile {tree : MemoryTree} (path : String) : Built tree → Built (tree.removeFile path).2

/-- Files are stored under keys and in directories, and directories in directories. -/
structure IsHierarchy (tree : MemoryTree) : Prop where
  key : ∀ file ∈ tree.files.keys, tree.key file = file
  files : ∀ file ∈ tree.files.keys, ∀ ancestor ∈ Path.ancestors (Path.directory file),
    ancestor ∈ tree.directories
  directories : ∀ directory ∈ tree.directories, ∀ ancestor ∈ Path.ancestors directory,
    ancestor ∈ tree.directories

section Chains

variable {directories : List String}

/-- A directory stays among those to which a chain is added. -/
theorem mem_addChain_of_mem {directory : String} (h : directory ∈ directories)
    (chain : List String) : directory ∈ addChain directories chain := by
  induction chain generalizing directories with
  | nil => exact h
  | cons ancestor rest ih =>
    rw [addChain]
    split
    · exact h
    · exact ih (List.mem_append_left _ h)

/-- Adding a chain of directories adds only those of the chain. -/
theorem mem_of_mem_addChain {directory : String} {chain : List String}
    (h : directory ∈ addChain directories chain) : directory ∈ directories ∨ directory ∈ chain := by
  induction chain generalizing directories with
  | nil => exact Or.inl h
  | cons ancestor rest ih =>
    rw [addChain] at h
    split at h
    · exact Or.inl h
    · rcases ih h with hmem | hrest
      · rcases List.mem_append.1 hmem with hold | hnew
        · exact Or.inl hold
        · exact Or.inr (List.mem_cons.2 (Or.inl (List.mem_singleton.1 hnew)))
      · exact Or.inr (List.mem_cons_of_mem ancestor hrest)

/-- All ancestors of a path are there after they were added up to the first one known.  The
directories that were added on the way are longer than what is left of the chain. -/
theorem mem_addChain_ancestors {path : String}
    (h : ∀ directory ∈ directories, directory.length ≤ path.length →
      ∀ ancestor ∈ Path.ancestors directory, ancestor ∈ directories) :
    ∀ ancestor ∈ Path.ancestors path, ancestor ∈ addChain directories (Path.ancestors path) := by
  induction hlength : path.length using Nat.strongRecOn generalizing path directories with
  | ind length ih =>
    intro ancestor hancestor
    rcases Path.ancestors_cases path with hnone | hself | ⟨hshorter, hcons⟩
    · simp [hnone] at hancestor
    · rw [hself, List.mem_singleton] at hancestor
      rw [hself, hancestor, addChain]
      split
      · assumption
      · simp [addChain]
    · rw [hcons, addChain]
      split
      · rename_i hknown
        exact h path hknown (Nat.le_refl _) ancestor hancestor
      · rw [hcons] at hancestor
        rcases List.mem_cons.1 hancestor with rfl | habove
        · exact mem_addChain_of_mem (by simp) _
        · refine ih _ (hlength ▸ hshorter) ?_ rfl ancestor habove
          intro directory hdirectory hle other hother
          rcases List.mem_append.1 hdirectory with hold | hnew
          · exact List.mem_append_left _ (h directory hold (by omega) other hother)
          · rw [List.mem_singleton.1 hnew] at hle
            omega

end Chains

/-- The key of a key is that key. -/
theorem key_key (tree : MemoryTree) (path : String) : tree.key (tree.key path) = tree.key path :=
  Path.canonical_canonical path "/" Path.isNormal_root tree.caseSensitive

section Keys

variable {path : String}

/-- Every key is normal. -/
theorem isNormal_key (tree : MemoryTree) (path : String) : Path.IsNormal (tree.key path) := by
  unfold Path.IsNormal key Path.canonical
  rw [String.toList_ofList]
  exact Chars.isNormal_folded _ (Chars.isNormal_normalize _ Path.isNormal_root)

/-- A key has no letter left to fold. -/
theorem folded_of_key_eq (h : tree.key path = path) :
    Chars.folded tree.caseSensitive path.toList = path.toList := by
  have hfolded : (tree.key path).toList = Chars.folded tree.caseSensitive
      (Chars.normalize path.toList "/".toList) := String.toList_ofList
  rw [← h, hfolded, Chars.folded_folded]

/-- A key is a key wherever it is seen from. -/
theorem canonical_of_key_eq (h : tree.key path = path) (base : String) :
    Path.canonical path base tree.caseSensitive = path := by
  have hkey : Path.canonical (tree.key path) base tree.caseSensitive = tree.key path :=
    Path.canonical_canonical path base Path.isNormal_root tree.caseSensitive
  rwa [h] at hkey

/-- A normal path with no letter left to fold is its own key. -/
theorem key_eq_of_isNormal (hnormal : Path.IsNormal path)
    (hfolded : Chars.folded tree.caseSensitive path.toList = path.toList) :
    tree.key path = path := by
  unfold key Path.canonical
  rw [Chars.canonical_eq_folded, Chars.normalize_of_isNormal _ hnormal, hfolded,
    String.ofList_toList]

/-- If a place with pieces behind it is a key, so is the place, and the pieces are in small
letters. -/
theorem key_eq_of_extend {place : String} {pieces : List Chars} (hdeep : Chars.IsDeep place.toList)
    (hpieces : ∀ piece ∈ pieces, Chars.IsPiece piece)
    (h : tree.key (Path.extend place pieces) = Path.extend place pieces) :
    tree.key place = place ∧ pieces.map (Chars.folded tree.caseSensitive) = pieces := by
  have hnormal : Path.IsNormal (Path.extend place pieces) := h ▸ tree.isNormal_key _
  have hfolded := folded_of_key_eq h
  rw [Path.toList_extend, Chars.folded_append_trail] at hfolded
  have hsmall : ∀ piece ∈ pieces.map (Chars.folded tree.caseSensitive), '/' ∉ piece := by
    intro small hsmall
    obtain ⟨piece, hpiece, rfl⟩ := List.mem_map.1 hsmall
    exact (Chars.isPiece_folded _ (hpieces piece hpiece)).2
  obtain ⟨hplace, hsame⟩ :=
    Chars.append_trail_inj hsmall (fun piece hpiece => (hpieces piece hpiece).2)
    (List.length_map _) hfolded
  refine ⟨key_eq_of_isNormal ?_ hplace, hsame⟩
  unfold Path.IsNormal at hnormal ⊢
  rw [Path.toList_extend] at hnormal
  exact Chars.isNormal_of_mem_ancestors (Or.inr hnormal)
    (Chars.mem_ancestors_append_trail hdeep hpieces)

end Keys

namespace IsHierarchy

/-- Adding a directory keeps the hierarchy, and all of its ancestors are there. -/
theorem withDirectories (h : tree.IsHierarchy) (directory : String) :
    (tree.withDirectories directory).IsHierarchy ∧
      ∀ ancestor ∈ Path.ancestors directory,
        ancestor ∈ (tree.withDirectories directory).directories := by
  have hchain : ∀ ancestor ∈ Path.ancestors directory,
      ancestor ∈ (tree.withDirectories directory).directories :=
    mem_addChain_ancestors fun known hknown _ => h.directories known hknown
  refine ⟨⟨h.key, fun file hfile ancestor hancestor => ?_,
      fun known hknown ancestor hancestor => ?_⟩,
    hchain⟩
  · exact mem_addChain_of_mem (h.files file hfile ancestor hancestor) _
  · rcases mem_of_mem_addChain hknown with hold | hnew
    · exact mem_addChain_of_mem (h.directories known hold ancestor hancestor) _
    · exact hchain ancestor (Path.ancestors_trans hnew hancestor)

/-- Writing a file keeps a hierarchy. -/
theorem writeFile (h : tree.IsHierarchy) (path text : String) :
    (tree.writeFile path text).IsHierarchy := by
  obtain ⟨hgrown, hchain⟩ := h.withDirectories (Path.directory (tree.key path))
  have hkeys : ∀ file ∈ (tree.writeFile path text).files.keys,
      file ∈ tree.files.keys ∨ file = tree.key path := by
    intro file hfile
    have hinsert : (tree.writeFile path text).files.keys =
      insertNew tree.files.keys (tree.key path) := Table.keys_insert _ _ _
    rwa [hinsert, mem_insertNew] at hfile
  refine ⟨fun file hfile => ?_, fun file hfile => ?_, hgrown.directories⟩
  · rcases hkeys file hfile with hold | rfl
    · exact h.key file hold
    · exact tree.key_key path
  · rcases hkeys file hfile with hold | rfl
    · exact hgrown.files file hold
    · exact hchain

/-- Removing a file keeps a hierarchy. -/
theorem removeFile (h : tree.IsHierarchy) (path : String) :
    (tree.removeFile path).2.IsHierarchy := by
  have hkeys : ∀ file ∈ (tree.removeFile path).2.files.keys, file ∈ tree.files.keys := by
    intro file hfile
    obtain ⟨entry, hentry, rfl⟩ := List.mem_map.1 hfile
    exact List.mem_map_of_mem (List.mem_filter.1 hentry).1
  exact ⟨fun file hfile => h.key file (hkeys file hfile),
    fun file hfile => h.files file (hkeys file hfile), h.directories⟩

end IsHierarchy

/-- Every tree that was built is a hierarchy. -/
theorem Built.isHierarchy (h : tree.Built) : tree.IsHierarchy := by
  induction h with
  | new caseSensitive =>
    refine ⟨by simp [Table.keys], by simp [Table.keys], fun directory hdirectory => ?_⟩
    obtain rfl : directory = "/" := List.mem_singleton.1 hdirectory
    have hroot : Path.ancestors "/" = ["/"] := congrArg (List.map String.ofList)
      (Chars.ancestors_root .slash)
    rw [hroot]
    exact fun ancestor hancestor => hancestor
  | writeFile path text _ ih => exact ih.writeFile path text
  | createDirectory path _ ih => exact (ih.withDirectories _).1
  | linkDirectory link target _ ih =>
    obtain ⟨hgrown, -⟩ := ih.withDirectories (Path.directory (MemoryTree.key _ link))
    exact ⟨hgrown.key, hgrown.files, hgrown.directories⟩
  | removeFile path _ ih => exact ih.removeFile path

/-! ## Places without links behind them -/

/-- A place below a root, and no link lies at the pieces behind it, nor on the way to them. -/
structure IsClear (tree : MemoryTree) (place : String) (pieces : List Chars) : Prop where
  deep : Chars.IsDeep place.toList
  noLink : ∀ front, front <+: pieces → front ≠ [] →
    tree.links.get? (Path.extend place front) = none

/-- What is clear is clear part of the way. -/
theorem IsClear.mono {place : String} {front pieces : List Chars}
    (h : tree.IsClear place pieces) (hfront : front <+: pieces) : tree.IsClear place front :=
  ⟨h.deep, fun part hpart => h.noLink part (hpart.trans hfront)⟩

/-- Where the pieces behind a place are clear, the deepest link on the way to them is on the way to
the place. -/
theorem hop?_extend {place : String} {pieces : List Chars} (h : tree.IsClear place pieces)
    (hpieces : ∀ piece ∈ pieces, Chars.IsPiece piece) :
    tree.hop? (Path.extend place pieces) = (tree.hop? place).map (Path.extend · pieces) := by
  obtain ⟨between, hancestors, hbetween⟩ := Chars.ancestors_append_trail h.deep hpieces
  unfold hop? Path.ancestors
  rw [Path.toList_extend, hancestors, List.map_append, List.findSome?_append]
  have hskip : (between.map String.ofList).findSome? (fun ancestor =>
      (tree.links.get? ancestor).map fun target =>
        target ++ .ofList ((place.toList ++ Chars.trail pieces).drop ancestor.length)) = none := by
    rw [List.findSome?_eq_none_iff]
    intro ancestor hancestor
    obtain ⟨chars, hchars, rfl⟩ := List.mem_map.1 hancestor
    obtain ⟨front, hfront, hne, rfl⟩ := hbetween chars hchars
    have hnone : tree.links.get? (.ofList (place.toList ++ Chars.trail front)) = none :=
      h.noLink front hfront hne
    rw [hnone]
    rfl
  rw [hskip, Option.none_or, List.map_findSome?, ← List.head?_filterMap, ← List.head?_filterMap]
  refine congrArg List.head? (List.filterMap_congr fun ancestor hancestor => ?_)
  obtain ⟨chars, hchars, rfl⟩ := List.mem_map.1 hancestor
  have hlength : (String.ofList chars).length ≤ place.toList.length := by
    rw [← String.length_toList, String.toList_ofList]
    exact Chars.length_le_of_mem_ancestors hchars
  rw [Function.comp_apply, Option.map_map]
  congr 1
  funext target
  rw [Function.comp_apply, ← String.toList_inj, Path.toList_extend, String.toList_append,
    String.toList_append, String.toList_ofList, String.toList_ofList,
    List.drop_append_of_le_length hlength, List.append_assoc]

section Following

variable {place : String}

/-- Following a link goes on at the place it leads to. -/
theorem follow_of_hop? {next : String} (h : tree.hop? place = some next) (hops : Nat) :
    tree.follow (hops + 1) place = tree.follow hops next := by
  rw [follow, h]

/-- A place with no link on its way stays where it is. -/
theorem follow_of_no_hop (h : tree.hop? place = none) (hops : Nat) :
    tree.follow hops place = place := by
  cases hops with
  | zero => rfl
  | succ hops => rw [follow, h]

/-- Following links for a number of hops can be done in two parts. -/
theorem follow_add (first second : Nat) :
    tree.follow (first + second) place = tree.follow second (tree.follow first place) := by
  induction first generalizing place with
  | zero => rw [Nat.zero_add]; rfl
  | succ first ih =>
    cases hhop : tree.hop? place with
    | none => rw [follow_of_no_hop hhop, follow_of_no_hop hhop, follow_of_no_hop hhop]
    | some next =>
      rw [Nat.add_right_comm, follow_of_hop? hhop, follow_of_hop? hhop, ih]

/-- What comes behind a place stays behind it, link after link, as long as it is clear wherever the
place leads. -/
theorem follow_extend {pieces : List Chars}
    (h : ∀ hops, tree.IsClear (tree.follow hops place) pieces)
    (hpieces : ∀ piece ∈ pieces, Chars.IsPiece piece) (hops : Nat) :
    tree.follow hops (Path.extend place pieces) = Path.extend (tree.follow hops place) pieces := by
  induction hops generalizing place with
  | zero => rfl
  | succ hops ih =>
    have hhop : tree.hop? (Path.extend place pieces) =
        (tree.hop? place).map (Path.extend · pieces) := hop?_extend (h 0) hpieces
    cases hplace : tree.hop? place with
    | none =>
      rw [hplace] at hhop
      rw [follow_of_no_hop hplace, follow_of_no_hop hhop]
    | some next =>
      rw [hplace] at hhop
      rw [follow_of_hop? hplace, follow_of_hop? hhop]
      refine ih fun hops => ?_
      rw [← follow_of_hop? hplace]
      exact h (hops + 1)

end Following

/-! ## Paths below a directory -/

section Below

variable {directory : String} {more : List Chars}

/-- A directory with a deep key has a name. -/
theorem ne_empty_of_deep_key (h : Chars.IsDeep (tree.key directory).toList) : directory ≠ "" := by
  rintro rfl
  have hroot : (tree.key "").toList = ['/'] := by
    unfold key Path.canonical
    rw [String.toList_ofList]
    cases tree.caseSensitive <;> rfl
  rw [hroot] at h
  exact Chars.not_isDeep_of_isRoot .slash h

/-- A path below a directory leads below the place that the directory leads to, as long as it is
clear wherever the directory leads. -/
theorem resolve_extend
    (h : ∀ hops, tree.IsClear (tree.follow hops (tree.key directory))
      (more.map (Chars.folded tree.caseSensitive)))
    (hmore : ∀ segment ∈ more, Chars.IsSegment segment) :
    tree.resolve (Path.extend directory more) =
      Path.extend (tree.resolve directory) (more.map (Chars.folded tree.caseSensitive)) := by
  have hdeep : Chars.IsDeep (tree.key directory).toList := (h 0).deep
  have hkey : tree.key (Path.extend directory more) =
      Path.extend (tree.key directory) (more.map (Chars.folded tree.caseSensitive)) :=
    Path.canonical_extend (ne_empty_of_deep_key hdeep) hmore hdeep
  unfold resolve
  rw [hkey, follow_extend h (Chars.isPiece_of_mem_map_folded hmore)]

/-- The place above a file is a directory. -/
theorem IsHierarchy.mem_directories (htree : tree.IsHierarchy) {place : String}
    (hdeep : Chars.IsDeep place.toList) {pieces : List Chars} (hne : pieces ≠ [])
    (hpieces : ∀ piece ∈ pieces, Chars.IsPiece piece)
    (hfile : Path.extend place pieces ∈ tree.files.keys) : place ∈ tree.directories := by
  obtain ⟨start, last, rfl⟩ := (List.eq_nil_or_concat pieces).resolve_left hne
  rw [List.concat_eq_append] at hpieces hfile
  have hstart : ∀ piece ∈ start, Chars.IsPiece piece := fun piece hpiece =>
    hpieces piece (List.mem_append_left _ hpiece)
  obtain ⟨-, hdirectory, -⟩ := (hdeep.append_trail hstart).append (hpieces last (by simp))
  refine htree.files _ hfile place ?_
  unfold Path.directory Path.ancestors
  rw [Path.toList_extend, Chars.trail_concat, ← List.append_assoc, hdirectory, String.toList_ofList]
  exact List.mem_map.2 ⟨place.toList, Chars.mem_ancestors_append_trail hdeep hstart,
    String.ofList_toList⟩

end Below

end MemoryTree

end AutoImport
