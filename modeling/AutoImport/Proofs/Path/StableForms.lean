import AutoImport.Proofs.Path.RelativePaths

/-!
# Stable normal forms

A path is the root that it begins with (`Path.rootOf`) and the parts between the slashes behind it
(`Path.parts`).  Normalizing keeps the root and leaves parts that stand for something: none is
empty, `.` or `..`.  What it gives is its own normal form, from wherever it is seen.

A file may be seen from a directory or from the normal form of the directory.  That is the same as
long as the root of the directory ends in a slash (`Chars.normalForm_join_relative`): the parts of
the file are then pushed behind those that remain of the directory, and these remain if they are
pushed once more.  Behind a bare drive it is not: `x` seen from `c:a/..` is `c:x`, but from `c:` it
is `c:/x`.
-/

set_option autoImplicit false

namespace AutoImport

namespace Chars

/-- The root that a path begins with, empty for a relative one. -/
def rootOf (path : Chars) : Chars :=
  path.take (rootLength path)

/-- The texts between the slashes behind the root; none if nothing stands there. -/
def parts (path : Chars) : List Chars :=
  if path.drop (rootLength path) = [] then [] else Text.splitOn '/' (path.drop (rootLength path))

section Build

variable {root : Chars} {pieces : List Chars}

/-- The root of a path built on a root is that root. -/
theorem rootOf_build (hroot : IsRoot root) (h : ∀ piece ∈ pieces, IsPiece piece) :
    rootOf (build root pieces) = root := by
  unfold rootOf
  rw [rootLength_build hroot h]
  exact List.take_left

/-- The parts of a path built on a root are its pieces. -/
theorem parts_build (hroot : IsRoot root) (h : ∀ piece ∈ pieces, IsPiece piece) :
    parts (build root pieces) = pieces := by
  have hdrop : (build root pieces).drop root.length = Text.joinWith '/' pieces := List.drop_left
  unfold parts
  rw [rootLength_build hroot h, hdrop]
  by_cases hnil : pieces = []
  · rw [hnil]
    rfl
  · have hsplit : Text.splitOn '/' (Text.joinWith '/' pieces) = pieces :=
      Text.splitOn_joinWith hnil fun piece hpiece => (h piece hpiece).2
    rw [hsplit, if_neg]
    intro hempty
    rw [hempty] at hsplit
    have hpiece := h [] (hsplit ▸ List.mem_singleton_self [])
    exact hpiece.1 rfl

end Build

/-- A normal path is its root and its parts, and these are segments. -/
theorem IsNormal.eq_build {path : Chars} (h : IsNormal path) :
    IsRoot (rootOf path) ∧ (∀ part ∈ parts path, IsSegment part) ∧
      path = build (rootOf path) (parts path) := by
  obtain ⟨root, segments, hroot, hsegments, rfl⟩ := h
  have hpieces : ∀ segment ∈ segments, IsPiece segment := fun s hs => (hsegments s hs).isPiece
  rw [rootOf_build hroot hpieces, parts_build hroot hpieces]
  exact ⟨hroot, hsegments, rfl⟩

/-- The normal form of a rooted path has its root. -/
theorem rootOf_normalForm {path : Chars} (hrooted : isRooted path = true) (hback : '\\' ∉ path) :
    rootOf (normalForm path) = rootOf path := by
  have hpieces : ∀ piece ∈ collapse true (Text.splitOn '/' (path.drop (rootLength path))),
      IsPiece piece := by
    intro piece hpiece
    refine (collapse_isSegment (fun other hother => ?_) piece hpiece).isPiece
    refine ⟨Text.not_mem_of_mem_splitOn hother, fun hmem => hback ?_⟩
    exact List.mem_of_mem_drop (Text.mem_of_mem_splitOn hother hmem).1
  have hform : normalForm path =
      build (rootOf path) (collapse true (Text.splitOn '/' (path.drop (rootLength path)))) := by
    unfold isRooted at hrooted
    unfold normalForm build rootOf
    dsimp only
    rw [hrooted]
  have hroot : IsRoot (rootOf path) := isRoot_take_rootLength hrooted
  rw [hform, rootOf_build hroot hpieces]

/-! ## Roots that end in a slash -/

section Open

variable {root rest relative : Chars} (hroot : IsRoot root) (hopen : '/' ∈ root)

include hroot hopen

/-- The root of a path that begins with an open root is that one. -/
theorem rootLength_append_open (rest : Chars) : rootLength (root ++ rest) = root.length := by
  cases hroot with
  | slash => rfl
  | drive c hc =>
    show rootLength (c :: ':' :: '/' :: rest) = 3
    rw [rootLength.eq_2 c _ (ne_slash_of_isAlpha hc), if_pos hc]
  | bare c hc => simp [(ne_slash_of_isAlpha hc).symm] at hopen

/-- Behind an open root the normal form collapses the rest by itself. -/
theorem normalForm_append_open (rest : Chars) :
    normalForm (root ++ rest) = build root (collapse true (Text.splitOn '/' rest)) := by
  have hpos : decide (0 < root.length) = true :=
    decide_eq_true (List.length_pos_iff.2 hroot.ne_nil)
  unfold normalForm
  dsimp only
  rw [rootLength_append_open hroot hopen, List.take_left, List.drop_left, hpos]
  rfl

/-- The parts of a file that is seen from a directory are pushed behind those of the directory. -/
theorem normalForm_join_relative (hback : '\\' ∉ root ++ rest) (hbackRelative : '\\' ∉ relative)
    (hunrooted : isRooted relative = false) :
    normalForm (join (root ++ rest) relative) =
      build root (collapse true (Text.splitOn '/' rest ++ Text.splitOn '/' relative)) := by
  have hne : root ++ rest ≠ [] := List.append_ne_nil_of_left_ne_nil hroot.ne_nil rest
  by_cases hempty : relative = []
  · -- Nothing is joined, and the empty text leaves an empty part.
    have hjoin : join (root ++ rest) [] = root ++ rest := by
      unfold join
      dsimp only
      rw [slashed_of_not_mem hback, List.isEmpty_eq_false_iff.2 hne]
      rfl
    rw [hempty, hjoin, normalForm_append_open hroot hopen]
    exact congrArg (build root) (collapse_concat_nil true _).symm
  · rw [join_relative hne hback hempty hbackRelative hunrooted]
    split
    · rename_i hlast
      rw [List.append_assoc, normalForm_append_open hroot hopen]
      rcases List.eq_nil_or_concat rest with rfl | ⟨start, last, rfl⟩
      · rfl
      · -- The slash at the end leaves an empty part, which is dropped.
        rw [List.concat_eq_append, ← List.append_assoc, List.getLast?_concat,
          Option.some.injEq] at hlast
        rw [hlast, List.concat_eq_append, List.append_assoc, List.singleton_append,
          Text.splitOn_append_separator, Text.splitOn_concat_separator]
        unfold collapse
        rw [List.foldl_append, List.foldl_append, List.foldl_append]
        rfl
    · rw [List.append_assoc, normalForm_append_open hroot hopen, Text.splitOn_append_separator]

end Open

/-- What remains of some pieces remains if it is pushed once more. -/
theorem collapse_collapse_append {pieces : List Chars}
    (h : ∀ piece ∈ pieces, '/' ∉ piece ∧ '\\' ∉ piece) (more : List Chars) :
    collapse true (collapse true pieces ++ more) = collapse true (pieces ++ more) := by
  have hagain : (collapse true pieces).foldl (pushSegment true) [] =
      pieces.foldl (pushSegment true) [] := by
    have hsame := collapse_of_segments true (collapse_isSegment h)
    rw [collapse, List.reverse_eq_iff] at hsame
    rw [hsame, collapse, List.reverse_reverse]
  unfold collapse at hagain ⊢
  rw [List.foldl_append, List.foldl_append, hagain]

/-- A file is seen from the normal form of a directory as from the directory. -/
theorem normalize_normalForm {file directory : Chars} (hback : '\\' ∉ directory)
    (hopen : '/' ∈ rootOf directory) :
    normalize file (normalForm directory) = normalize file directory := by
  have hrooted : isRooted directory = true := by
    unfold isRooted
    refine decide_eq_true (Nat.pos_of_ne_zero fun hzero => ?_)
    rw [rootOf, hzero] at hopen
    simp at hopen
  have hroot : IsRoot (rootOf directory) := isRoot_take_rootLength hrooted
  obtain ⟨rest, hrest⟩ : ∃ rest, directory = rootOf directory ++ rest :=
    ⟨_, (List.take_append_drop (rootLength directory) directory).symm⟩
  generalize rootOf directory = root at *
  subst hrest
  unfold normalize
  rw [← join_slashed_right, ← join_slashed_right (root ++ rest)]
  by_cases hfile : isRooted (slashed file) = true
  · rw [join_of_isRooted _ hfile (not_mem_slashed file),
      join_of_isRooted _ hfile (not_mem_slashed file)]
  · have hrelative : isRooted (slashed file) = false := Bool.eq_false_iff.2 hfile
    have hpieces : ∀ piece ∈ Text.splitOn '/' rest, '/' ∉ piece ∧ '\\' ∉ piece := by
      intro piece hpiece
      refine ⟨Text.not_mem_of_mem_splitOn hpiece, fun hmem => hback ?_⟩
      exact List.mem_append_right root (Text.mem_of_mem_splitOn hpiece hmem).1
    have hnormal : IsNormal (build root (collapse true (Text.splitOn '/' rest))) :=
      ⟨root, _, hroot, collapse_isSegment hpieces, rfl⟩
    rw [normalForm_append_open hroot hopen]
    rw [normalForm_join_relative hroot hopen hback (not_mem_slashed file) hrelative]
    unfold build at hnormal ⊢
    rw [normalForm_join_relative hroot hopen hnormal.noBackslash (not_mem_slashed file) hrelative]
    by_cases hnil : collapse true (Text.splitOn '/' rest) = []
    · rw [← collapse_collapse_append hpieces, hnil]
      rfl
    · rw [Text.splitOn_joinWith hnil fun s hs => (collapse_isSegment hpieces s hs).isPiece.2,
        collapse_collapse_append hpieces]
      rfl

/-! ## Rooted files and directories -/

/-- A file is rooted where it is seen from a rooted directory, if it is not rooted itself. -/
theorem isRooted_join {file directory : Chars}
    (h : isRooted (slashed file) = true ∨ isRooted (slashed directory) = true) :
    isRooted (join directory file) = true ∧ '\\' ∉ join directory file := by
  have hback := not_mem_slashed file
  by_cases hfile : isRooted (slashed file) = true
  · rw [← join_slashed_right, join_of_isRooted directory hfile hback]
    exact ⟨hfile, hback⟩
  · have hdirectory : isRooted (slashed directory) = true := h.resolve_left hfile
    have hmore : ∀ more : Chars, '\\' ∉ more →
        isRooted (slashed directory ++ more) = true ∧ '\\' ∉ slashed directory ++ more := by
      intro more hmore
      refine ⟨?_, fun hmem => (List.mem_append.1 hmem).elim (not_mem_slashed directory) hmore⟩
      rw [← List.take_append_drop (rootLength (slashed directory)) (slashed directory),
        List.append_assoc]
      exact isRooted_append (isRoot_take_rootLength hdirectory) _
    have hne : directory.isEmpty = false := by
      rw [← isEmpty_slashed, List.isEmpty_eq_false_iff]
      intro hnil
      rw [hnil] at hdirectory
      exact absurd hdirectory (by decide)
    unfold join
    dsimp only
    rw [hne, Bool.false_or, if_neg hfile]
    split
    · simpa using hmore [] (by simp)
    · split
      · exact hmore _ hback
      · exact hmore _ (by simpa using hback)

end Chars

namespace Path

/-- The root that a path begins with, empty for a relative one. -/
def rootOf (path : String) : String :=
  .ofList (Chars.rootOf path.toList)

/-- The texts between the slashes behind the root; none if nothing stands there. -/
def parts (path : String) : List String :=
  (Chars.parts path.toList).map .ofList

/-- The path begins with `/` or with a drive root `c:/`, so its root ends in a slash. -/
def HasOpenRoot (path : String) : Prop :=
  '/' ∈ (rootOf path).toList
  deriving Decidable

/-- Take a file and a directory of which one is rooted, with slashes of either kind.  The normal
form of the file seen from the directory holds no backslash.  Its root is that of the file seen from
there, and no part behind it is empty, `.` or `..`.  It is its own normal form, wherever it is seen
from.  And a directory whose root is `/` or a drive root may be put into its normal form first. -/
theorem normalize_stable (file directory : String)
    (h : isRooted (slashed file) = true ∨ isRooted (slashed directory) = true) :
    '\\' ∉ (normalize file directory).toList ∧
      rootOf (normalize file directory) = rootOf (join directory file) ∧
      (∀ part ∈ parts (normalize file directory), part ≠ "" ∧ part ≠ "." ∧ part ≠ "..") ∧
      (∀ other, normalize (normalize file directory) other = normalize file directory) ∧
      (HasOpenRoot (slashed directory) →
        normalize file (normalize directory "") = normalize file directory) := by
  unfold isRooted slashed at h
  rw [String.toList_ofList, String.toList_ofList] at h
  obtain ⟨hrooted, hback⟩ := Chars.isRooted_join h
  have hchars : Chars.IsNormal (Chars.normalize file.toList directory.toList) :=
    Chars.isNormal_normalForm hrooted hback
  have hnormal : IsNormal (normalize file directory) := by
    unfold IsNormal normalize
    rwa [String.toList_ofList]
  obtain ⟨-, hparts, -⟩ := Chars.IsNormal.eq_build hnormal
  refine ⟨hnormal.noBackslash, ?_, ?_, fun other => normalize_of_isNormal other hnormal, ?_⟩
  · unfold rootOf normalize join
    rw [String.toList_ofList, String.toList_ofList]
    exact congrArg String.ofList (Chars.rootOf_normalForm hrooted hback)
  · intro part hpart
    obtain ⟨chars, hmem, rfl⟩ := List.mem_map.1 hpart
    have hsegment := hparts chars hmem
    simp only [ne_eq, ← String.toList_inj, String.toList_ofList]
    exact ⟨hsegment.isPiece.1, hsegment.notHere, hsegment.notUp⟩
  · intro hopen
    unfold HasOpenRoot rootOf slashed at hopen
    rw [String.toList_ofList, String.toList_ofList] at hopen
    have hform : Chars.normalize file.toList (Chars.normalForm (Chars.slashed directory.toList)) =
        Chars.normalize file.toList (Chars.slashed directory.toList) :=
      Chars.normalize_normalForm (Chars.not_mem_slashed directory.toList) hopen
    have hbase : Chars.normalize directory.toList [] =
        Chars.normalForm (Chars.slashed directory.toList) := rfl
    unfold normalize
    rw [String.toList_ofList]
    show String.ofList (Chars.normalize file.toList (Chars.normalize directory.toList [])) = _
    rw [hbase, hform]
    unfold Chars.normalize
    rw [Chars.join_slashed_left]

/-- A file is seen from a directory on a drive as from its normal form. -/
theorem normalize_stable_drive :
    isRooted (slashed "C:\\work\\.\\app\\") = true ∧ HasOpenRoot (slashed "C:\\work\\.\\app\\") ∧
      normalize "..\\lib//a.ts" "C:\\work\\.\\app\\" = "C:/work/lib/a.ts" ∧
      parts "C:/work/lib/a.ts" = ["work", "lib", "a.ts"] ∧
      (∀ other, normalize "C:/work/lib/a.ts" other = "C:/work/lib/a.ts") ∧
      normalize "..\\lib//a.ts" (normalize "C:\\work\\.\\app\\" "") = "C:/work/lib/a.ts" := by
  have hrooted : isRooted (slashed "C:\\work\\.\\app\\") = true := by decide +kernel
  have hopen : HasOpenRoot (slashed "C:\\work\\.\\app\\") := by decide +kernel
  have hform : normalize "..\\lib//a.ts" "C:\\work\\.\\app\\" = "C:/work/lib/a.ts" := by
    decide +kernel
  obtain ⟨-, -, -, hagain, hdirectory⟩ :=
    normalize_stable "..\\lib//a.ts" "C:\\work\\.\\app\\" (Or.inr hrooted)
  rw [hform] at hagain hdirectory
  exact ⟨hrooted, hopen, hform, by decide +kernel, hagain, hdirectory hopen⟩

end Path

end AutoImport
