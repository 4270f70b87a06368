import AutoImport.Proofs.Path.PackageScope
import AutoImport.Proofs.Path.SlashRootedPaths

/-!
# Relative paths below a directory

A normal path that begins with `/` is a list of segments, and a relative text without `..` adds its
own segments to them, less the empty ones and `.` (`Chars.normalize_join_relative`).  So the result
lies below the directory.  `Path.Within` says that a path is a directory or lies below it and that
no segment on the way down is `node_modules`; segments that are added to those of the directory and
are other than `node_modules` stay within it (`Path.within_of_segments`).

A path *descends* from a directory when it is the text of the directory followed by segments.  Then
the key of the directory contains its key (`Path.contains_canonical_of_descends`), also where the
directory is a root and the text has two slashes in a row.
-/

set_option autoImplicit false

namespace AutoImport

namespace Text

/-- Texts with a separator between them split into the pieces of both. -/
theorem splitOn_append_separator (sep : Char) (first second : Chars) :
    splitOn sep (first ++ sep :: second) = splitOn sep first ++ splitOn sep second := by
  induction first with
  | nil => simp [splitOn]
  | cons c cs ih =>
    rw [List.cons_append, splitOn, splitOn, ih]
    split
    · rfl
    · cases hpieces : splitOn sep cs with
      | nil => exact absurd hpieces (splitOn_ne_nil sep cs)
      | cons piece pieces => rfl

/-- The pieces of a text put together are the text. -/
theorem joinWith_splitOn (sep : Char) (text : Chars) : joinWith sep (splitOn sep text) = text := by
  induction text with
  | nil => rfl
  | cons c cs ih =>
    rw [splitOn]
    split
    · rename_i hc
      rw [joinWith_cons [] (splitOn_ne_nil sep cs), ih, hc]
      rfl
    · cases hpieces : splitOn sep cs with
      | nil => exact absurd hpieces (splitOn_ne_nil sep cs)
      | cons piece pieces =>
        rw [hpieces] at ih
        dsimp only
        cases pieces with
        | nil =>
          rw [joinWith] at ih ⊢
          rw [ih]
        | cons other others =>
          rw [joinWith_cons _ (by simp)] at ih ⊢
          rw [List.cons_append, ih]

/-- Two lists put together have a separator between them. -/
theorem joinWith_append {sep : Char} {first second : List Chars} (hfirst : first ≠ [])
    (hsecond : second ≠ []) :
    joinWith sep (first ++ second) = joinWith sep first ++ sep :: joinWith sep second := by
  induction first with
  | nil => exact absurd rfl hfirst
  | cons piece rest ih =>
    by_cases hrest : rest = []
    · subst hrest
      exact joinWith_cons piece hsecond
    · rw [List.cons_append, joinWith_cons piece (by simp [hrest]), ih hrest,
        joinWith_cons piece hrest, List.append_assoc, List.cons_append]

end Text

namespace Chars

/-- The segments of a relative text that its normal form keeps, if none is `..`. -/
def keptSegments (relative : Chars) : List Chars :=
  (Text.splitOn '/' relative).filter fun piece => piece ≠ [] ∧ piece ≠ ['.']

/-- A kept segment is one of the pieces, and is not empty. -/
theorem mem_keptSegments {relative piece : Chars} (h : piece ∈ keptSegments relative) :
    piece ∈ Text.splitOn '/' relative ∧ IsPiece piece := by
  obtain ⟨hmem, hkept⟩ := List.mem_filter.1 h
  exact ⟨hmem, (of_decide_eq_true hkept).1, Text.not_mem_of_mem_splitOn hmem⟩

/-- Pieces without `..` stay behind what was collapsed before them, but for the empty ones and
`.`. -/
theorem collapse_append (rooted : Bool) (first : List Chars) {second : List Chars}
    (h : ['.', '.'] ∉ second) :
    collapse rooted (first ++ second) =
      collapse rooted first ++ second.filter fun piece => piece ≠ [] ∧ piece ≠ ['.'] := by
  have hfold : ∀ kept, second.foldl (pushSegment rooted) kept =
      (second.filter fun piece => piece ≠ [] ∧ piece ≠ ['.']).reverse ++ kept := by
    induction second with
    | nil => exact fun kept => rfl
    | cons piece rest ih =>
      intro kept
      obtain ⟨hpiece, hrest⟩ := not_or.1 (mt List.mem_cons.2 h)
      rw [List.foldl_cons, ih hrest]
      unfold pushSegment
      by_cases hskip : piece = [] ∨ piece = ['.']
      · rw [if_pos hskip, List.filter_cons_of_neg (by simp only [decide_eq_true_eq]; tauto)]
      · rw [if_neg hskip, if_neg (Ne.symm hpiece),
          List.filter_cons_of_pos (by simpa only [decide_eq_true_eq, not_or] using hskip),
          List.reverse_cons, List.append_assoc]
        rfl
  unfold collapse
  rw [List.foldl_append, hfold, List.reverse_append, List.reverse_reverse]

/-- A normal path that begins with `/` is a list of segments. -/
theorem exists_segments {path : Chars} (h : IsNormal path) (hslash : path.head? = some '/') :
    ∃ segments, (∀ segment ∈ segments, IsSegment segment) ∧ path = build ['/'] segments := by
  obtain ⟨root, segments, hroot, hsegments, rfl⟩ := h
  cases hroot with
  | slash => exact ⟨segments, hsegments, rfl⟩
  | drive c hc => exact absurd (Option.some.inj hslash) (ne_slash_of_isAlpha hc)
  | bare c hc => exact absurd (Option.some.inj hslash) (ne_slash_of_isAlpha hc)

/-- More pieces follow a path behind a slash. -/
theorem build_append {root : Chars} {first second : List Chars} (hfirst : first ≠ [])
    (hsecond : second ≠ []) :
    build root (first ++ second) = build root first ++ '/' :: Text.joinWith '/' second := by
  unfold build
  rw [Text.joinWith_append hfirst hsecond, List.append_assoc]

/-- The pieces of what follows `/` in a directory that something is put behind. -/
theorem join_build_relative {segments : List Chars} (hsegments : ∀ s ∈ segments, IsSegment s)
    {relative : Chars} (hback : '\\' ∉ relative) (hunrooted : isRooted relative = false) :
    ∃ rest, join (build ['/'] segments) relative = '/' :: rest ∧ '\\' ∉ rest ∧
      collapse true (Text.splitOn '/' rest) =
        collapse true (segments ++ Text.splitOn '/' relative) := by
  have hbackBuild : '\\' ∉ build ['/'] segments :=
    IsNormal.noBackslash ⟨['/'], segments, .slash, hsegments, rfl⟩
  have hbackJoined : '\\' ∉ Text.joinWith '/' segments := fun hmem =>
    hbackBuild (List.mem_append_right _ hmem)
  rcases List.eq_nil_or_concat segments with rfl | ⟨start, last, rfl⟩
  · refine ⟨relative, ?_, hback, rfl⟩
    cases relative with
    | nil => rfl
    | cons c cs => exact join_relative (by simp [build]) hbackBuild (by simp) hback hunrooted
  · rw [List.concat_eq_append] at *
    have hlast := (hsegments last (by simp)).isPiece
    have hsplit : Text.splitOn '/' (Text.joinWith '/' (start ++ [last])) = start ++ [last] :=
      Text.splitOn_joinWith (by simp) fun s hs => (hsegments s hs).isPiece.2
    cases relative with
    | nil =>
      refine ⟨Text.joinWith '/' (start ++ [last]), ?_, hbackJoined, ?_⟩
      · unfold join
        dsimp only
        rw [slashed_of_not_mem hbackBuild]
        rfl
      · rw [hsplit]
        exact (collapse_concat_nil true _).symm
    | cons c cs =>
      refine ⟨Text.joinWith '/' (start ++ [last]) ++ '/' :: c :: cs, ?_, ?_, ?_⟩
      · rw [join_relative (by simp [build]) hbackBuild (by simp) hback hunrooted,
          if_neg (getLast?_build_concat ['/'] start hlast)]
        rfl
      · rw [List.mem_append, List.mem_cons]
        rintro (hmem | hmem | hmem)
        · exact hbackJoined hmem
        · exact absurd hmem (by decide)
        · exact hback hmem
      · rw [Text.splitOn_append_separator, hsplit]

/-- A relative text without `..` adds its segments to those of the directory. -/
theorem normalize_join_relative {segments : List Chars} (hsegments : ∀ s ∈ segments, IsSegment s)
    {relative : Chars} (hback : '\\' ∉ relative) (hunrooted : isRooted relative = false)
    (hup : ['.', '.'] ∉ Text.splitOn '/' relative) :
    normalize (join (build ['/'] segments) relative) ['/'] =
      build ['/'] (segments ++ keptSegments relative) := by
  obtain ⟨rest, hjoin, hbackRest, hcollapse⟩ := join_build_relative hsegments hback hunrooted
  have hrooted : isRooted ('/' :: rest) = true := rfl
  unfold normalize
  rw [hjoin, join_of_isRooted _ hrooted (by simpa using hbackRest), normalForm_slash, hcollapse,
    collapse_append true segments hup, collapse_of_segments true hsegments]
  rfl

/-! ## Staying within a directory -/

/-- A path with an open root contains every path of more pieces. -/
theorem contains_build {root : Chars} (hroot : IsRoot root) (hopen : '/' ∈ root)
    (segments more : List Chars) (hsegments : ∀ s ∈ segments, IsPiece s) :
    contains (build root segments) (build root (segments ++ more)) = true := by
  rcases List.eq_nil_or_concat segments with rfl | ⟨start, last, rfl⟩
  · obtain ⟨start, rfl, -⟩ := hroot.ends.resolve_right fun hbare => hbare hopen
    have hcontains := contains_append_slash (start ++ ['/']) (Text.joinWith '/' more)
    rw [Text.dropTrailingSlash_concat] at hcontains
    simpa [build, Text.joinWith] using hcontains
  · rw [List.concat_eq_append] at *
    by_cases hmore : more = []
    · rw [hmore, List.append_nil]
      exact contains_self _
    · have hcontains := contains_append_slash (build root (start ++ [last]))
        (Text.joinWith '/' more)
      rwa [dropTrailingSlash_build root start (hsegments last (by simp)),
        ← build_append (by simp) hmore] at hcontains

/-- Behind a directory stand the segments that were added to it, after an empty one at most. -/
theorem mem_splitOn_drop_build {segments more : List Chars} (hmore : ∀ s ∈ more, IsPiece s)
    {piece : Chars} (hpiece : piece ≠ []) :
    piece ∈ Text.splitOn '/' ((build ['/'] (segments ++ more)).drop (build ['/'] segments).length) ↔
      piece ∈ more := by
  by_cases hnil : more = []
  · have hempty : Text.splitOn '/' [] = [[]] := rfl
    rw [hnil, List.append_nil, List.drop_length, hempty, List.mem_singleton]
    exact iff_of_false hpiece List.not_mem_nil
  · have hsplit : Text.splitOn '/' (Text.joinWith '/' more) = more :=
      Text.splitOn_joinWith hnil fun s hs => (hmore s hs).2
    by_cases hsegments : segments = []
    · have hdrop : (build ['/'] ([] ++ more)).drop (build ['/'] []).length =
          Text.joinWith '/' more := rfl
      rw [hsegments, hdrop, hsplit]
    · have hcut : Text.splitOn '/' ('/' :: Text.joinWith '/' more) = [] :: more := by
        rw [Text.splitOn, if_pos rfl, hsplit]
      rw [build_append hsegments hnil, List.drop_left, hcut, List.mem_cons, or_iff_right hpiece]

/-! ## Descending from a directory -/

/-- The segments with a `/` before each of them. -/
def trail (segments : List Chars) : Chars :=
  segments.flatMap ('/' :: ·)

/-- A trail is a slash and the segments put together. -/
theorem trail_eq {segments : List Chars} (h : segments ≠ []) :
    trail segments = '/' :: Text.joinWith '/' segments := by
  induction segments with
  | nil => exact absurd rfl h
  | cons segment rest ih =>
    by_cases hrest : rest = []
    · subst hrest
      simp [trail, Text.joinWith]
    · have hcons : trail (segment :: rest) = '/' :: segment ++ trail rest := rfl
      rw [hcons, ih hrest, Text.joinWith_cons segment hrest]
      rfl

/-- More pieces follow a path as a trail. -/
theorem build_append_trail {root : Chars} {segments : List Chars} (h : segments ≠ [])
    (more : List Chars) : build root (segments ++ more) = build root segments ++ trail more := by
  by_cases hmore : more = []
  · subst hmore
    simp [trail]
  · rw [build_append h hmore, trail_eq hmore]

/-- A second `/` behind a root is dropped. -/
theorem normalForm_root_slash {root : Chars} {more : List Chars}
    (hlength : rootLength (root ++ '/' :: Text.joinWith '/' more) = root.length)
    (hroot : root ≠ []) (hmore : ∀ segment ∈ more, IsSegment segment) (hne : more ≠ []) :
    normalForm (root ++ '/' :: Text.joinWith '/' more) = build root more := by
  have hpieces : Text.splitOn '/' ('/' :: Text.joinWith '/' more) = [] :: more := by
    rw [Text.splitOn, if_pos rfl, Text.splitOn_joinWith hne fun s hs => (hmore s hs).isPiece.2]
  have hrooted : decide (0 < root.length) = true := decide_eq_true (List.length_pos_iff.2 hroot)
  unfold normalForm
  dsimp only
  rw [hlength, List.take_left, List.drop_left, hpieces, hrooted]
  show root ++ Text.joinWith '/' (collapse true more) = _
  rw [collapse_of_segments true hmore]
  rfl

/-- Segments behind a normal path come behind it in its normal form, less a `/` at its end. -/
theorem normalize_append_trail {path : Chars} (h : IsNormal path) {more : List Chars}
    (hmore : ∀ segment ∈ more, IsSegment segment) (hne : more ≠ []) (base : Chars) :
    normalize (path ++ trail more) base = Text.dropTrailingSlash path ++ trail more := by
  obtain ⟨root, segments, hroot, hsegments, rfl⟩ := h
  rcases List.eq_nil_or_concat segments with rfl | ⟨start, last, rfl⟩
  · -- Behind a root, `c:` is a drive root by now, and `/` and `c:/` have one slash too many.
    rw [build_nil, trail_eq hne]
    cases hroot with
    | slash =>
      have hnormal : IsNormal (build ['/'] more) := ⟨_, _, .slash, hmore, rfl⟩
      have hback : '\\' ∉ '/' :: '/' :: Text.joinWith '/' more := by
        simpa [build] using hnormal.noBackslash
      unfold normalize
      rw [join_of_isRooted base (isRooted_append .slash _) hback]
      exact normalForm_root_slash rfl (by simp) hmore hne
    | drive c hc =>
      have hnormal : IsNormal (build [c, ':', '/'] more) := ⟨_, _, .drive c hc, hmore, rfl⟩
      have hback : '\\' ∉ [c, ':', '/'] ++ '/' :: Text.joinWith '/' more := by
        simpa [build] using hnormal.noBackslash
      have hlength : rootLength (c :: ':' :: '/' :: '/' :: Text.joinWith '/' more) = 3 := by
        rw [rootLength.eq_2 c _ (ne_slash_of_isAlpha hc), if_pos hc]
      have hdrop : Text.dropTrailingSlash [c, ':', '/'] = [c, ':'] :=
        Text.dropTrailingSlash_concat [c, ':']
      unfold normalize
      rw [join_of_isRooted base (isRooted_append (.drive c hc) _) hback, hdrop]
      exact normalForm_root_slash hlength (by simp) hmore hne
    | bare c hc =>
      have hdrop : Text.dropTrailingSlash [c, ':'] = [c, ':'] :=
        Text.dropTrailingSlash_of_getLast? (by simp)
      rw [hdrop]
      exact normalize_of_isNormal base ⟨_, _, .drive c hc, hmore, rfl⟩
  · rw [List.concat_eq_append] at hsegments ⊢
    rw [dropTrailingSlash_build root start (hsegments last (by simp)).isPiece,
      ← build_append_trail (by simp)]
    exact normalize_of_isNormal base
      ⟨root, _, hroot, List.forall_mem_append.2 ⟨hsegments, hmore⟩, rfl⟩

/-- The key of a normal path contains the key of every path that follows it by segments. -/
theorem contains_canonical_append_trail {path : Chars} (h : IsNormal path) {more : List Chars}
    (hmore : ∀ segment ∈ more, IsSegment segment) (base : Chars) (caseSensitive : Bool) :
    contains (canonical path base caseSensitive)
      (canonical (path ++ trail more) base caseSensitive) = true := by
  by_cases hne : more = []
  · subst hne
    rw [trail, List.flatMap_nil, List.append_nil]
    exact contains_self _
  · rw [canonical_eq_folded, canonical_eq_folded, normalize_of_isNormal base h,
      normalize_append_trail h hmore hne, trail_eq hne, folded_append_slash,
      ← dropTrailingSlash_folded]
    exact contains_append_slash _ _

end Chars

namespace Path

/-- A path that is its own normal form is normal. -/
theorem isNormal_of_normalize_eq {path : String} (h : normalize path "/" = path) :
    IsNormal path := by
  rw [← h]
  exact isNormal_normalize path isNormal_root

/-- The path is the directory or lies below it, outside of packages that are installed there. -/
def Within (directory path : String) : Prop :=
  contains directory path = true ∧
    insideNodeModules (.ofList (path.toList.drop directory.length)) = false
  deriving Decidable

/-- What stands behind a directory is not inside `node_modules` if no such segment was added. -/
theorem insideNodeModules_drop_build {segments more : List Chars}
    (hmore : ∀ s ∈ more, Chars.IsPiece s) :
    insideNodeModules (.ofList ((Chars.build ['/'] (segments ++ more)).drop
      (Chars.build ['/'] segments).length)) = false ↔ packagesName.toList ∉ more := by
  have hinjective : Function.Injective String.ofList := fun _ _ => String.ofList_injective
  have hname : "node_modules" = String.ofList packagesName.toList := String.ofList_toList.symm
  unfold insideNodeModules Path.segments
  rw [String.toList_ofList, List.contains_eq_mem, decide_eq_false_iff_not, hname,
    List.mem_map_of_injective hinjective, Chars.mem_splitOn_drop_build hmore (by decide)]

/-- Segments other than `node_modules` lead from a directory to a path within it. -/
theorem within_of_segments {segments more : List Chars}
    (hsegments : ∀ s ∈ segments, Chars.IsPiece s)
    (hmore : ∀ s ∈ more, Chars.IsPiece s) (hother : packagesName.toList ∉ more)
    {directory path : String} (hdirectory : directory.toList = Chars.build ['/'] segments)
    (hpath : path.toList = Chars.build ['/'] (segments ++ more)) : Within directory path := by
  refine ⟨?_, ?_⟩
  · unfold contains
    rw [hdirectory, hpath]
    exact Chars.contains_build .slash (by simp) segments more hsegments
  · rw [hpath, ← String.length_toList, hdirectory]
    exact (insideNodeModules_drop_build hmore).2 hother

/-- The path is the directory followed by segments. -/
def Descends (directory path : String) : Prop :=
  ∃ more : List Chars, (∀ segment ∈ more, Chars.IsSegment segment) ∧
    path.toList = directory.toList ++ Chars.trail more

/-- The key of a directory contains the key of every path that descends from it. -/
theorem contains_canonical_of_descends {directory path : String} (hnormal : IsNormal directory)
    (h : Descends directory path) (base : String) (caseSensitive : Bool) :
    contains (canonical directory base caseSensitive) (canonical path base caseSensitive) =
      true := by
  obtain ⟨more, hmore, hpath⟩ := h
  unfold contains canonical
  rw [String.toList_ofList, String.toList_ofList, hpath]
  exact Chars.contains_canonical_append_trail hnormal hmore _ _

end Path

end AutoImport
