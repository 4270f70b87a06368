import AutoImport.Proofs.Path.RelativePaths
import Mathlib.Data.List.Induction

/-!
# Ancestors and containment by segments

Below a root that ends in `/` a path is a list of segments.  The paths above it are then those of
the segments that its own begin with (`Chars.mem_ancestors_build`), and so are the paths that
contain it (`Chars.contains_build_iff`), although the one is found by cutting a path at its last `/`
again and again, and the other by comparing two texts.  `Path.below` is the path of segments below
`/`, with what base names, directories, ancestors, containment and `join` do to the
segments. -/

set_option autoImplicit false

namespace AutoImport

namespace Chars

variable {root : Chars} {segments : List Chars}

/-- A root is its own only ancestor. -/
theorem ancestors_root (hroot : IsRoot root) : ancestors root = [root] := by
  rw [ancestors, directory_root hroot, if_neg (by simpa using hroot.ne_nil),
    if_neg (Nat.lt_irrefl _)]

/-- The directory of a path below an open root drops the last segment. -/
theorem directory_build_concat (hroot : IsRoot root) (hopen : '/' ∈ root) {last : Chars}
    (hpieces : ∀ piece ∈ segments ++ [last], IsPiece piece) :
    directory (build root (segments ++ [last])) = build root segments := by
  rw [directory_build hroot hpieces, if_pos hopen]
  split
  · rename_i hnil
    rw [hnil, build_nil]
  · rfl

/-- The base name of a path is its last piece. -/
theorem baseName_build_concat (hroot : IsRoot root) (hopen : '/' ∈ root) {last : Chars}
    (hpieces : ∀ piece ∈ segments ++ [last], IsPiece piece) :
    baseName (build root (segments ++ [last])) = last := by
  rw [baseName_build hroot hpieces, if_neg fun h => h.2 hopen]

/-- A path with one more piece is longer. -/
theorem length_build_lt_concat {last : Chars}
    (hpieces : ∀ piece ∈ segments ++ [last], IsPiece piece) :
    (build root segments).length < (build root (segments ++ [last])).length := by
  have hlast := hpieces last (by simp)
  by_cases hnil : segments = []
  · subst hnil
    rw [build_nil]
    exact length_lt_build root [] hlast
  · rw [build_concat root hnil, List.length_append, List.length_cons]
    omega

/-- The ancestors of a path are the path and those of the path one piece shorter. -/
theorem ancestors_build_concat (hroot : IsRoot root) (hopen : '/' ∈ root) {last : Chars}
    (hpieces : ∀ piece ∈ segments ++ [last], IsPiece piece) :
    ancestors (build root (segments ++ [last])) =
      build root (segments ++ [last]) :: ancestors (build root segments) := by
  have hdirectory := directory_build_concat hroot hopen hpieces
  have hne : build root (segments ++ [last]) ≠ [] :=
    List.append_ne_nil_of_left_ne_nil hroot.ne_nil _
  rw [ancestors, if_neg (by simpa using hne), hdirectory,
    if_pos (length_build_lt_concat hpieces)]

/-- The ancestors of a path are the paths of the segments that its own begin with. -/
theorem mem_ancestors_build (hroot : IsRoot root) (hopen : '/' ∈ root)
    (hsegments : ∀ segment ∈ segments, IsPiece segment) {path : Chars} :
    path ∈ ancestors (build root segments) ↔
      ∃ front, front <+: segments ∧ path = build root front := by
  induction segments using List.reverseRecOn with
  | nil =>
    rw [build_nil, ancestors_root hroot, List.mem_singleton]
    constructor
    · rintro rfl
      exact ⟨[], List.prefix_refl _, (build_nil path).symm⟩
    · rintro ⟨front, hfront, rfl⟩
      rw [List.prefix_nil.1 hfront, build_nil]
  | append_singleton start last ih =>
    rw [ancestors_build_concat hroot hopen hsegments, List.mem_cons,
      ih fun segment hsegment => hsegments segment (by simp [hsegment])]
    constructor
    · rintro (rfl | ⟨front, hfront, rfl⟩)
      · exact ⟨_, List.prefix_refl _, rfl⟩
      · exact ⟨front, hfront.trans (List.prefix_append _ _), rfl⟩
    · rintro ⟨front, hfront, rfl⟩
      rcases List.prefix_concat_iff.1 hfront with rfl | hfront
      · exact Or.inl rfl
      · exact Or.inr ⟨front, hfront, rfl⟩

/-- A text that goes on behind the segments of a path has these segments first. -/
theorem isPrefix_of_joinWith {front : List Chars} {rest : Chars} (hne : front ≠ [])
    (hfront : ∀ segment ∈ front, IsPiece segment)
    (hsegments : ∀ segment ∈ segments, IsPiece segment)
    (hrest : rest.head? = none ∨ rest.head? = some '/')
    (h : Text.joinWith '/' segments = Text.joinWith '/' front ++ rest) : front <+: segments := by
  have hsplit : Text.splitOn '/' (Text.joinWith '/' front) = front :=
    Text.splitOn_joinWith hne fun s hs => (hfront s hs).2
  have hsegmentsNe : segments ≠ [] := by
    rintro rfl
    obtain ⟨first, others, rfl⟩ := List.exists_cons_of_ne_nil hne
    have hfirst : IsPiece first := hfront first (by simp)
    have hnil := (List.append_eq_nil_iff.1 h.symm).1
    obtain ⟨c, cs, rfl⟩ := List.exists_cons_of_ne_nil hfirst.1
    cases others <;> simp [Text.joinWith] at hnil
  have hwhole : Text.splitOn '/' (Text.joinWith '/' segments) = segments :=
    Text.splitOn_joinWith hsegmentsNe fun s hs => (hsegments s hs).2
  cases rest with
  | nil =>
    rw [List.append_nil] at h
    have hsame : front = segments := by rw [← hwhole, h, hsplit]
    exact hsame ▸ List.prefix_refl front
  | cons c more =>
    have hc : c = '/' := by simpa using hrest
    subst hc
    rw [← hwhole, h, Text.splitOn_append_separator, hsplit]
    exact List.prefix_append _ _

/-- A path contains the paths that have its segments first. -/
theorem contains_build_iff (hroot : IsRoot root) (hopen : '/' ∈ root) {front : List Chars}
    (hfront : ∀ segment ∈ front, IsPiece segment)
    (hsegments : ∀ segment ∈ segments, IsPiece segment) :
    contains (build root front) (build root segments) = true ↔ front <+: segments := by
  constructor
  · intro h
    rcases List.eq_nil_or_concat front with rfl | ⟨start, last, rfl⟩
    · exact List.nil_prefix
    · rw [List.concat_eq_append] at *
      have hlast := hfront last (by simp)
      have htrimmed := dropTrailingSlash_build root start hlast
      have hends := getLast?_build_concat root start hlast
      -- What stands behind the one text in the other is nothing or begins with `/`.
      rcases contains_cases (by rwa [htrimmed]) h with hsame | ⟨rest, hmore⟩
      · rw [htrimmed] at hsame
        have hjoined := List.append_cancel_left hsame
        rw [← List.append_nil (Text.joinWith '/' (start ++ [last]))] at hjoined
        exact isPrefix_of_joinWith (by simp) hfront hsegments (Or.inl rfl) hjoined
      · rw [htrimmed] at hmore
        unfold build at hmore
        rw [List.append_assoc, List.append_cancel_left_eq] at hmore
        exact isPrefix_of_joinWith (by simp) hfront hsegments (Or.inr rfl) hmore
  · rintro ⟨more, rfl⟩
    exact contains_build hroot hopen front more hfront

/-- A name put behind a path, with a slash unless there is one, is one more piece. -/
theorem dropTrailingSlash_build_append
    (hsegments : ∀ segment ∈ segments, IsPiece segment) (name : Chars) :
    Text.dropTrailingSlash (build ['/'] segments) ++ '/' :: name =
      build ['/'] (segments ++ [name]) := by
  rcases List.eq_nil_or_concat segments with rfl | ⟨start, last, rfl⟩
  · rfl
  · rw [List.concat_eq_append] at *
    rw [dropTrailingSlash_build ['/'] start (hsegments last (by simp)),
      build_concat ['/'] (by simp) name]

/-- A path of at least one piece is deep. -/
theorem isDeep_build (hsegments : ∀ segment ∈ segments, IsPiece segment)
    (hne : segments ≠ []) : IsDeep (build ['/'] segments) :=
  ⟨['/'], segments, .slash, hsegments, hne, rfl⟩

end Chars

namespace Path

open Chars (IsSegment build)

/-- The path of segments below `/`. -/
def below (segments : List Chars) : String :=
  .ofList (build ['/'] segments)

section Below

variable {segments : List Chars}

/-- The characters of a path below the root are `/` and its segments. -/
@[simp] theorem toList_below (segments : List Chars) :
    (below segments).toList = build ['/'] segments :=
  String.toList_ofList

/-- A normal path that begins with `/` lies below the root by segments. -/
theorem exists_below {path : String} (hnormal : IsNormal path) (hslash : IsSlashRooted path) :
    ∃ segments, (∀ segment ∈ segments, IsSegment segment) ∧ path = below segments := by
  obtain ⟨segments, hsegments, hpath⟩ := Chars.exists_segments hnormal hslash
  refine ⟨segments, hsegments, ?_⟩
  rw [← String.toList_inj, toList_below, hpath]

/-- The root has no base name. -/
theorem baseName_below_nil : baseName (below []) = "" := by
  unfold baseName
  rw [toList_below, Chars.build_nil, Chars.baseName_root .slash]

/-- The root is its own directory. -/
theorem directory_below_nil : directory (below []) = below [] := by
  unfold directory
  rw [toList_below, Chars.build_nil, Chars.directory_root .slash]
  rfl

/-- The base name below the root is the last piece. -/
theorem baseName_below {last : Chars} (h : ∀ piece ∈ segments ++ [last], Chars.IsPiece piece) :
    baseName (below (segments ++ [last])) = .ofList last := by
  unfold baseName
  rw [toList_below, Chars.baseName_build_concat .slash (by simp) h]

/-- The directory below the root has one piece less. -/
theorem directory_below {last : Chars} (h : ∀ piece ∈ segments ++ [last], Chars.IsPiece piece) :
    directory (below (segments ++ [last])) = below segments := by
  unfold directory
  rw [toList_below, Chars.directory_build_concat .slash (by simp) h]
  rfl

/-- A path below the root is the root, or has a last segment and a directory. -/
theorem below_cases (h : ∀ segment ∈ segments, IsSegment segment) :
    segments = [] ∨ ∃ front last, segments = front ++ [last] ∧
      (∀ segment ∈ front, IsSegment segment) ∧ IsSegment last ∧
      baseName (below segments) = .ofList last ∧ directory (below segments) = below front := by
  rcases List.eq_nil_or_concat segments with rfl | ⟨front, last, rfl⟩
  · exact Or.inl rfl
  · rw [List.concat_eq_append] at *
    have hpieces : ∀ piece ∈ front ++ [last], Chars.IsPiece piece := fun s hs => (h s hs).isPiece
    exact Or.inr ⟨front, last, rfl, fun s hs => h s (List.mem_append_left _ hs), h last (by simp),
      baseName_below hpieces, directory_below hpieces⟩

/-- The base name is the last segment. -/
theorem exists_concat_of_baseName (h : ∀ segment ∈ segments, IsSegment segment) {name : String}
    (hname : name ≠ "") (hbase : baseName (below segments) = name) :
    ∃ front, segments = front ++ [name.toList] ∧ (∀ segment ∈ front, IsSegment segment) ∧
      directory (below segments) = below front := by
  rcases below_cases h with rfl | ⟨front, last, hsplit, hfront, -, hlast, hdirectory⟩
  · rw [baseName_below_nil] at hbase
    exact absurd hbase.symm hname
  · refine ⟨front, ?_, hfront, hdirectory⟩
    rw [← hbase, hlast, String.toList_ofList]
    exact hsplit

/-- What stands behind a directory and a `/` are the segments below it. -/
theorem drop_below {names : List Chars} (hsegments : segments ≠ []) (hnames : names ≠ []) :
    (below (segments ++ names)).toList.drop ((below segments).length + 1) =
      Text.joinWith '/' names := by
  rw [← String.length_toList, toList_below, toList_below, Chars.build_append hsegments hnames,
    List.drop_length_add_append]
  rfl

/-- The ancestors of a path below the root are the paths of the beginnings of its segments. -/
theorem mem_ancestors_below (h : ∀ piece ∈ segments, Chars.IsPiece piece) {ancestor : String} :
    ancestor ∈ ancestors (below segments) ↔
      ∃ front, front <+: segments ∧ ancestor = below front := by
  unfold ancestors
  rw [toList_below, List.mem_map]
  constructor
  · rintro ⟨path, hpath, rfl⟩
    obtain ⟨front, hfront, rfl⟩ := (Chars.mem_ancestors_build .slash (by simp) h).1 hpath
    exact ⟨front, hfront, rfl⟩
  · rintro ⟨front, hfront, rfl⟩
    exact ⟨_, (Chars.mem_ancestors_build .slash (by simp) h).2 ⟨front, hfront, rfl⟩, rfl⟩

/-- One path contains another when its segments are a beginning of the other's. -/
theorem contains_below_iff {front : List Chars} (hfront : ∀ piece ∈ front, Chars.IsPiece piece)
    (h : ∀ piece ∈ segments, Chars.IsPiece piece) :
    contains (below front) (below segments) = true ↔ front <+: segments := by
  unfold contains
  rw [toList_below, toList_below]
  exact Chars.contains_build_iff .slash (by simp) hfront h

/-- Within a directory lie exactly the paths that segments other than `node_modules` lead to. -/
theorem within_below_iff {front : List Chars} (hfront : ∀ piece ∈ front, Chars.IsPiece piece)
    (h : ∀ piece ∈ segments, Chars.IsPiece piece) :
    Within (below front) (below segments) ↔
      ∃ more, segments = front ++ more ∧ packagesName.toList ∉ more := by
  constructor
  · rintro ⟨hcontains, hinside⟩
    obtain ⟨more, rfl⟩ := (contains_below_iff hfront h).1 hcontains
    rw [toList_below, ← String.length_toList, toList_below,
      insideNodeModules_drop_build fun s hs => h s (List.mem_append_right _ hs)] at hinside
    exact ⟨more, rfl, hinside⟩
  · rintro ⟨more, rfl, hother⟩
    exact within_of_segments hfront (fun s hs => h s (List.mem_append_right _ hs)) hother
      (toList_below front) (toList_below _)

/-- A relative text of segments goes on behind the segments of a directory. -/
theorem join_below {names : List Chars} (hsegments : ∀ segment ∈ segments, IsSegment segment)
    (hnames : ∀ segment ∈ names, IsSegment segment) (hne : names ≠ [])
    (hrelative : isRooted (.ofList (Text.joinWith '/' names)) = false) :
    join (below segments) (.ofList (Text.joinWith '/' names)) = below (segments ++ names) := by
  have hnormal : Chars.IsNormal (build ['/'] segments) := ⟨['/'], segments, .slash, hsegments, rfl⟩
  have hback : '\\' ∉ Text.joinWith '/' names := by
    have hnames : Chars.IsNormal (build ['/'] names) := ⟨['/'], names, .slash, hnames, rfl⟩
    exact fun hmem => hnames.noBackslash (List.mem_append_right _ hmem)
  have hnil : Text.joinWith '/' names ≠ [] := by
    intro hnil
    have hlength := Text.splitOn_joinWith hne fun s hs => (hnames s hs).isPiece.2
    rw [hnil] at hlength
    obtain ⟨hpiece, -⟩ := hnames [] (hlength ▸ List.mem_singleton_self _)
    exact hpiece.1 rfl
  unfold isRooted at hrelative
  rw [String.toList_ofList] at hrelative
  apply String.toList_inj.1
  unfold join
  rw [String.toList_ofList, String.toList_ofList, toList_below, toList_below,
    Chars.join_relative hnormal.isTidy.ne_nil hnormal.noBackslash hnil hback hrelative]
  rcases List.eq_nil_or_concat segments with rfl | ⟨start, last, rfl⟩
  · rfl
  · rw [List.concat_eq_append] at *
    rw [if_neg (Chars.getLast?_build_concat ['/'] start (hsegments last (by simp)).isPiece),
      Chars.build_append (by simp) hne]

/-- Joining a name to a path below the root adds it as a segment. -/
theorem join_below_name (hsegments : ∀ segment ∈ segments, IsSegment segment)
    {name : String} (hname : Chars.IsName name.toList) :
    join (below segments) name = below (segments ++ [name.toList]) := by
  have hsingle : String.ofList (Text.joinWith '/' [name.toList]) = name := String.ofList_toList
  have hrelative : isRooted name = false := hname.notRooted
  have hjoin := join_below hsegments (List.forall_mem_singleton.2 hname.isSegment)
    (List.cons_ne_nil _ [])
  rw [hsingle] at hjoin
  exact hjoin hrelative

end Below

end Path

end AutoImport
