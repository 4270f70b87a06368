import AutoImport.Proofs.Files.FollowedLinks
import AutoImport.Proofs.Path.StableForms

/-!
# Keys that a tree stores

What a tree that was built stores are keys, and all of it lies in directories that are there: its
files (`MemoryTree.Built.isHierarchy`), its links with their targets
(`MemoryTree.Built.linksInPlace`) and its directories (`MemoryTree.Built.key_directory`).  So where
a name is listed, the path leads to a directory (`MemoryTree.Built.resolve_mem_directories`).

A key in a directory below `/` is the path of that directory with one segment more
(`MemoryTree.key_cases`).
-/

set_option autoImplicit false

namespace AutoImport

/-! ## What lies above a key -/

namespace Chars

variable {path : Chars} {caseSensitive : Bool}

/-- The directory of a path in small letters is in small letters. -/
theorem folded_directory (h : IsNormal path) (hfolded : folded caseSensitive path = path) :
    folded caseSensitive (directory path) = directory path := by
  obtain ⟨root, segments, hroot, hsegments, rfl⟩ := h
  rcases List.eq_nil_or_concat segments with rfl | ⟨start, last, rfl⟩
  · rw [build_nil] at hfolded ⊢
    rwa [directory_root hroot]
  · rw [List.concat_eq_append] at *
    have hpieces : ∀ piece ∈ start ++ [last], IsPiece piece := fun s hs => (hsegments s hs).isPiece
    have hlast : IsPiece last := hpieces last (by simp)
    -- What stands before the last `/` is in small letters.
    have hbefore : ∀ before, build root (start ++ [last]) = before ++ '/' :: last →
        folded caseSensitive before = before := by
      intro before hsplit
      rw [hsplit, folded_append_slash] at hfolded
      exact (append_slash_inj (isPiece_folded caseSensitive hlast).2 hlast.2 hfolded).1
    rw [directory_build hroot hpieces]
    split
    · rename_i hnil
      subst hnil
      split
      · rename_i hopen
        obtain ⟨before, rfl, -⟩ := hroot.ends.resolve_right fun hbare => hbare hopen
        rw [folded_append_slash, folded_nil, hbefore before (List.append_assoc _ _ _)]
      · exact folded_nil caseSensitive
    · rename_i hstart
      exact hbefore _ (build_concat root hstart last)

/-- The ancestors of a folded path are folded. -/
theorem folded_of_mem_ancestors (h : path = [] ∨ IsNormal path)
    (hfolded : folded caseSensitive path = path) {ancestor : Chars}
    (hmem : ancestor ∈ ancestors path) :
    folded caseSensitive ancestor = ancestor := by
  fun_induction ancestors path with
  | case1 path hempty => simp at hmem
  | case2 path hempty hshorter ih =>
    have hnormal : IsNormal path := h.resolve_left (by simpa using hempty)
    rcases List.mem_cons.1 hmem with rfl | hmem
    · exact hfolded
    · exact ih (isNormal_directory hnormal) (folded_directory hnormal hfolded) hmem
  | case3 path hempty hshorter => rwa [List.mem_singleton.1 hmem]

/-- The directory of a path is the path or shorter. -/
theorem directory_cases (h : IsNormal path) :
    directory path = path ∨ (directory path).length < path.length := by
  obtain ⟨root, segments, hroot, hsegments, rfl⟩ := h
  rcases List.eq_nil_or_concat segments with rfl | ⟨start, last, rfl⟩
  · rw [build_nil, directory_root hroot]
    exact Or.inl rfl
  · rw [List.concat_eq_append] at *
    have hpieces : ∀ piece ∈ start ++ [last], IsPiece piece := fun s hs => (hsegments s hs).isPiece
    have hroot' := length_lt_build root start (hpieces last (by simp))
    right
    rw [directory_build hroot hpieces]
    split
    · split
      · exact hroot'
      · exact Nat.lt_of_le_of_lt (Nat.zero_le _) hroot'
    · exact length_build_lt_concat hpieces

end Chars

namespace Path

variable {path : String}

/-- A path that is not empty is one of its own ancestors. -/
theorem mem_ancestors_self (hne : path ≠ "") : path ∈ ancestors path := by
  unfold ancestors
  exact List.mem_map.2 ⟨path.toList, Chars.mem_ancestors_self (by simpa using hne),
    String.ofList_toList⟩

/-- The directory of a path is among its ancestors, unless it is a file on a bare drive. -/
theorem directory_mem_ancestors (h : IsNormal path) (hne : directory path ≠ "") :
    directory path ∈ ancestors path := by
  rcases Chars.directory_cases h with hsame | hshorter
  · have hself : directory path = path := by
      unfold directory
      rw [hsame, String.ofList_toList]
    rw [hself] at hne ⊢
    exact mem_ancestors_self hne
  · have hcons : ancestors path = path :: ancestors (directory path) := by
      have hnormal : path.toList ≠ [] := h.isTidy.ne_nil
      unfold ancestors directory
      rw [Chars.ancestors, if_neg (by simpa using hnormal), if_pos hshorter, List.map_cons,
        String.ofList_toList, String.toList_ofList]
    rw [hcons]
    exact List.mem_cons_of_mem _ (mem_ancestors_self hne)

section Below

variable {front segments : List Chars}

/-- Paths below the root are equal only when their segments are. -/
theorem below_injective (hfront : ∀ piece ∈ front, Chars.IsPiece piece)
    (h : ∀ piece ∈ segments, Chars.IsPiece piece) (hsame : below front = below segments) :
    front = segments := by
  have hchars := congrArg (fun path => Chars.parts path.toList) hsame
  simp only [toList_below] at hchars
  rwa [Chars.parts_build .slash hfront, Chars.parts_build .slash h] at hchars

/-- A path in a directory below `/` is below `/`. -/
theorem exists_below_of_directory {path : String} (h : IsNormal path)
    (hdirectory : IsSlashRooted (directory path)) :
    ∃ segments, (∀ segment ∈ segments, Chars.IsSegment segment) ∧ path = below segments := by
  have hne : directory path ≠ "" := by
    intro hempty
    rw [hempty] at hdirectory
    exact absurd hdirectory (by decide)
  obtain ⟨chars, hchars, hsame⟩ := List.mem_map.1 (directory_mem_ancestors h hne)
  unfold IsSlashRooted at hdirectory
  rw [← hsame, String.toList_ofList] at hdirectory
  have hcontains := Chars.contains_folded_of_mem_ancestors true h hchars
  exact exists_below h (Chars.head?_of_contains hdirectory h.isTidy.ne_nil hcontains)

/-- Only on a bare drive a path has no directory, and then its base name begins as a drive does. -/
theorem directory_ne_empty {path : String} (h : IsNormal path)
    (hbase : isRooted (baseName path) = false) : directory path ≠ "" := by
  intro hempty
  obtain ⟨root, segments, hroot, hsegments, hpath⟩ := h
  unfold directory at hempty
  unfold isRooted baseName at hbase
  rw [← String.toList_inj, String.toList_ofList, hpath, String.toList_empty] at hempty
  rw [String.toList_ofList, hpath] at hbase
  rcases List.eq_nil_or_concat segments with rfl | ⟨start, last, rfl⟩
  · rw [Chars.build_nil, Chars.directory_root hroot] at hempty
    exact hroot.ne_nil hempty
  · rw [List.concat_eq_append] at *
    have hpieces : ∀ piece ∈ start ++ [last], Chars.IsPiece piece :=
      fun s hs => (hsegments s hs).isPiece
    rw [Chars.directory_build hroot hpieces] at hempty
    split at hempty
    · split at hempty
      · exact hroot.ne_nil hempty
      · rename_i hstart hbare
        rw [Chars.baseName_build hroot hpieces, if_pos ⟨hstart, hbare⟩,
          Chars.isRooted_append hroot] at hbase
        exact absurd hbase (by decide)
    · exact hroot.ne_nil (List.append_eq_nil_iff.1 hempty).1

end Below

end Path

namespace MemoryTree

variable {tree : MemoryTree}

/-! ## Keys below the root -/

section Below

open AutoImport.Path (below)

variable {segments : List Chars}

/-- The key of a path below the root folds each of its segments. -/
theorem key_below (hsegments : ∀ segment ∈ segments, Chars.IsSegment segment) :
    tree.key (below segments) = below (segments.map (Chars.folded tree.caseSensitive)) := by
  have hnormal : Chars.IsNormal (Chars.build ['/'] segments) :=
    ⟨['/'], segments, .slash, hsegments, rfl⟩
  apply String.toList_inj.1
  unfold key Path.canonical
  rw [String.toList_ofList, Path.toList_below, Path.toList_below, Chars.canonical_eq_folded,
    Chars.normalize_of_isNormal _ hnormal]
  by_cases hnil : segments = []
  · subst hnil
    cases tree.caseSensitive <;> rfl
  · have htrail : ∀ more : List Chars,
        more ≠ [] → Chars.build ['/'] more = [] ++ Chars.trail more :=
      fun more hmore => (Chars.trail_eq hmore).symm
    rw [htrail _ hnil, htrail _ (by simpa using hnil), Chars.folded_append_trail, Chars.folded_nil]

/-- The segments of a path that is its own key are folded. -/
theorem map_folded_of_key_below (hsegments : ∀ segment ∈ segments, Chars.IsSegment segment)
    (hkey : tree.key (below segments) = below segments) :
    segments.map (Chars.folded tree.caseSensitive) = segments := by
  rw [key_below hsegments] at hkey
  exact Path.below_injective (Chars.isPiece_of_mem_map_folded hsegments)
    (fun s hs => (hsegments s hs).isPiece) hkey

/-- A key in a directory below `/` is that directory with one segment more, or is `/` itself. -/
theorem key_cases {key : String} (hkey : tree.key key = key)
    (hsegments : ∀ piece ∈ segments, Chars.IsPiece piece)
    (hdirectory : Path.directory key = below segments) :
    (segments = [] ∧ key = below []) ∨
      ∃ last, Chars.IsSegment last ∧ Chars.folded tree.caseSensitive last = last ∧
        key = below (segments ++ [last]) ∧ Path.baseName key = .ofList last := by
  have hslash : Path.IsSlashRooted (Path.directory key) := by
    rw [hdirectory]
    unfold Path.IsSlashRooted
    rw [Path.toList_below]
    rfl
  obtain ⟨others, hothers, rfl⟩ :=
    Path.exists_below_of_directory (hkey ▸ tree.isNormal_key key) hslash
  rcases Path.below_cases hothers with rfl | ⟨front, last, rfl, hfront, hlast, hbase, hfrontOf⟩
  · left
    rw [Path.directory_below_nil] at hdirectory
    exact ⟨(Path.below_injective (by simp) hsegments hdirectory).symm, rfl⟩
  · right
    obtain rfl := Path.below_injective (fun s hs => (hfront s hs).isPiece) hsegments
      (hfrontOf.symm.trans hdirectory)
    refine ⟨last, hlast, ?_, rfl, hbase⟩
    have hsame := map_folded_of_key_below hothers hkey
    rw [List.map_append] at hsame
    exact List.singleton_inj.1 (List.append_inj' hsame rfl).2

end Below

/-! ## Links -/

/-- Links and their targets are keys, and links lie in directories. -/
structure LinksInPlace (tree : MemoryTree) : Prop where
  keys : ∀ link target, tree.links.get? link = some target →
    tree.key link = link ∧ tree.key target = target
  directories : ∀ link ∈ tree.links.keys, ∀ ancestor ∈ Path.ancestors (Path.directory link),
    ancestor ∈ tree.directories

/-- Making directories keeps the links in their places. -/
theorem LinksInPlace.withDirectories (h : tree.LinksInPlace) (directory : String) :
    (tree.withDirectories directory).LinksInPlace where
  keys := h.keys
  directories link hlink ancestor hancestor :=
    mem_addChain_of_mem (h.directories link hlink ancestor hancestor) _

/-- Making a link keeps the links in their places. -/
theorem LinksInPlace.linkDirectory (h : tree.LinksInPlace) (htree : tree.IsHierarchy)
    (link target : String) : (tree.linkDirectory link target).LinksInPlace := by
  obtain ⟨-, hchain⟩ := htree.withDirectories (Path.directory (tree.key link))
  have hgrown := h.withDirectories (Path.directory (tree.key link))
  have hget : ∀ other, (tree.linkDirectory link target).links.get? other =
      if tree.key link = other then some (tree.key target) else tree.links.get? other :=
    fun other => Table.get?_insert _ _ _ _
  have hkeys : (tree.linkDirectory link target).links.keys =
      insertNew tree.links.keys (tree.key link) := Table.keys_insert _ _ _
  refine ⟨fun other place hplace => ?_, fun other hother => ?_⟩
  · rw [hget] at hplace
    split at hplace
    · rename_i hsame
      rw [← hsame, ← Option.some.inj hplace]
      exact ⟨tree.key_key link, tree.key_key target⟩
    · exact h.keys other place hplace
  · rw [hkeys, mem_insertNew] at hother
    rcases hother with hold | rfl
    · exact hgrown.directories other hold
    · exact hchain

/-- In a built tree the links are in their places. -/
theorem Built.linksInPlace (h : tree.Built) : tree.LinksInPlace := by
  induction h with
  | new caseSensitive =>
    refine ⟨fun link target hlink => ?_, by simp [Table.keys]⟩
    exact absurd hlink (Option.some_ne_none target).symm
  | writeFile path text _ ih =>
    obtain ⟨hkeys, hdirectories⟩ := ih.withDirectories (Path.directory (MemoryTree.key _ path))
    exact ⟨hkeys, hdirectories⟩
  | createDirectory path _ ih => exact ih.withDirectories _
  | linkDirectory link target hbuilt ih => exact ih.linkDirectory hbuilt.isHierarchy link target
  | removeFile path _ ih => exact ⟨ih.keys, ih.directories⟩

/-- Following links ends nowhere but at a path. -/
theorem LinksInPlace.follow_ne_empty (h : tree.LinksInPlace) (hops : Nat) {place : String}
    (hne : place ≠ "") : tree.follow hops place ≠ "" := by
  induction hops generalizing place with
  | zero => exact hne
  | succ hops ih =>
    cases hhop : tree.hop? place with
    | none => rwa [follow_of_no_hop hhop]
    | some next =>
      rw [follow_of_hop? hhop]
      refine ih ?_
      unfold hop? at hhop
      obtain ⟨ancestor, -, hlink⟩ := List.exists_of_findSome?_eq_some hhop
      obtain ⟨target, htarget, rfl⟩ := Option.map_eq_some_iff.1 hlink
      have hnormal : Path.IsNormal target :=
        (h.keys ancestor target htarget).2 ▸ tree.isNormal_key _
      intro hnil
      have hempty := congrArg String.toList hnil
      rw [String.toList_append] at hempty
      exact hnormal.isTidy.ne_nil (List.append_eq_nil_iff.1 hempty).1

/-- No path resolves to the empty place. -/
theorem LinksInPlace.resolve_ne_empty (h : tree.LinksInPlace) (path : String) :
    tree.resolve path ≠ "" := by
  refine h.follow_ne_empty hopLimit fun hempty => ?_
  have hnormal := tree.isNormal_key path
  rw [hempty] at hnormal
  exact hnormal.isTidy.ne_nil rfl

/-! ## Directories -/

/-- The ancestors of a normal, folded path are keys. -/
theorem key_of_mem_ancestors {path ancestor : String} (hnormal : path = "" ∨ Path.IsNormal path)
    (hfolded : Chars.folded tree.caseSensitive path.toList = path.toList)
    (hmem : ancestor ∈ Path.ancestors path) : tree.key ancestor = ancestor := by
  refine key_eq_of_isNormal (Path.isNormal_of_mem_ancestors hnormal hmem) ?_
  obtain ⟨chars, hchars, rfl⟩ := List.mem_map.1 hmem
  rw [String.toList_ofList]
  refine Chars.folded_of_mem_ancestors (hnormal.imp_left fun hempty => ?_) hfolded hchars
  rw [hempty]
  rfl

/-- The directories above a key are keys. -/
theorem key_of_mem_ancestors_directory {path ancestor : String} (h : tree.key path = path)
    (hmem : ancestor ∈ Path.ancestors (Path.directory path)) : tree.key ancestor = ancestor := by
  have hnormal : Path.IsNormal path := h ▸ tree.isNormal_key path
  refine key_of_mem_ancestors (Path.isNormal_directory hnormal) ?_ hmem
  unfold Path.directory
  rw [String.toList_ofList]
  exact Chars.folded_directory hnormal (folded_of_key_eq h)

/-- Directories are keys. -/
theorem Built.key_directory (h : tree.Built) :
    ∀ directory ∈ tree.directories, tree.key directory = directory := by
  induction h with
  | new caseSensitive =>
    intro directory hdirectory
    rw [List.mem_singleton.1 hdirectory]
    cases caseSensitive <;> decide +kernel
  | @writeFile tree path text _ ih =>
    intro directory hdirectory
    rcases mem_of_mem_addChain hdirectory with hold | hnew
    · exact ih directory hold
    · exact key_of_mem_ancestors_directory (tree.key_key path) hnew
  | @createDirectory tree path _ ih =>
    intro directory hdirectory
    rcases mem_of_mem_addChain hdirectory with hold | hnew
    · exact ih directory hold
    · exact key_of_mem_ancestors (Or.inr (tree.isNormal_key path))
        (folded_of_key_eq (tree.key_key path)) hnew
  | @linkDirectory tree link target _ ih =>
    intro directory hdirectory
    rcases mem_of_mem_addChain hdirectory with hold | hnew
    · exact ih directory hold
    · exact key_of_mem_ancestors_directory (tree.key_key link) hnew
  | removeFile path _ ih => exact ih

/-! ## Where names are listed -/

/-- Every name listed in a directory is the base name of a stored key in it. -/
theorem exists_key_of_mem_namesIn {directory name : String} {keys : List String}
    (h : name ∈ namesIn directory keys) :
    ∃ key ∈ keys, Path.directory key = directory ∧ name = Path.baseName key := by
  unfold namesIn sortedNames at h
  rw [List.mem_eraseDups, List.mem_mergeSort] at h
  obtain ⟨key, hkey, rfl⟩ := List.mem_map.1 h
  obtain ⟨hmem, hdirectory⟩ := List.mem_filter.1 hkey
  exact ⟨key, hmem, of_decide_eq_true hdirectory, rfl⟩

/-- Every stored key in a directory gives a name there. -/
theorem mem_namesIn {directory key : String} {keys : List String} (hkey : key ∈ keys)
    (hdirectory : Path.directory key = directory) : Path.baseName key ∈ namesIn directory keys := by
  unfold namesIn sortedNames
  rw [List.mem_eraseDups, List.mem_mergeSort]
  exact List.mem_map_of_mem (List.mem_filter.2 ⟨hkey, decide_eq_true hdirectory⟩)

/-- Erasing repetitions leaves none. -/
theorem nodup_eraseDups (names : List String) : names.eraseDups.Nodup := by
  induction hlength : names.length using Nat.strongRecOn generalizing names with
  | ind length ih =>
    cases names with
    | nil => simp
    | cons name rest =>
      rw [List.eraseDups_cons, List.nodup_cons, List.mem_eraseDups]
      refine ⟨by simp, ih _ ?_ _ rfl⟩
      rw [← hlength]
      exact Nat.lt_succ_of_le (List.length_filter_le _ _)

/-- No file is listed twice in a directory. -/
theorem nodup_fileNames (tree : MemoryTree) (path : String) : (tree.fileNames path).Nodup :=
  nodup_eraseDups _

/-- A path where directories are listed leads to a directory. -/
theorem Built.resolve_mem_directories (h : tree.Built) {path name : String}
    (hname : name ∈ tree.directoryNames path) : tree.resolve path ∈ tree.directories := by
  obtain ⟨key, hkey, hdirectory, -⟩ := exists_key_of_mem_namesIn hname
  have hne : Path.directory key ≠ "" := hdirectory ▸ h.linksInPlace.resolve_ne_empty path
  rw [← hdirectory]
  rcases List.mem_append.1 (List.mem_filter.1 hkey).1 with hstored | hlink
  · have hnormal : Path.IsNormal key := h.key_directory key hstored ▸ tree.isNormal_key key
    exact h.isHierarchy.directories key hstored _ (Path.directory_mem_ancestors hnormal hne)
  · exact h.linksInPlace.directories key hlink _ (Path.mem_ancestors_self hne)

/-- And so does one where files are listed. -/
theorem Built.resolve_mem_directories_of_file (h : tree.Built) {path name : String}
    (hname : name ∈ tree.fileNames path) : tree.resolve path ∈ tree.directories := by
  obtain ⟨key, hkey, hdirectory, -⟩ := exists_key_of_mem_namesIn hname
  have hne : Path.directory key ≠ "" := hdirectory ▸ h.linksInPlace.resolve_ne_empty path
  rw [← hdirectory]
  exact h.isHierarchy.files key hkey _ (Path.mem_ancestors_self hne)

end MemoryTree

end AutoImport
