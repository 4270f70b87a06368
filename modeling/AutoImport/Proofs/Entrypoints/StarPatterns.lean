import AutoImport.Proofs.Entrypoints.TargetPaths
import AutoImport.Proofs.Text.WordPieces

/-!
# Patterns of an export map

A target `./start*ending` is a pattern.  It takes every accepted file below its root whose path is
the package directory, then `start`, then anything at all: the text behind the `*` is never read, so
two patterns with one text before the `*` add the same files (`Entrypoints.loadTarget_pattern`).  A
pattern for declarations thus adds sources as well
(`Entrypoints.loadTarget_pattern_unmatched`). -/

set_option autoImplicit false

namespace AutoImport

/-- Segments behind a directory are put behind its stem. -/
theorem Chars.build_append_eq_stem {segments more : List Chars}
    (hsegments : ∀ segment ∈ segments, IsSegment segment) (hmore : more ≠ []) :
    build ['/'] (segments ++ more) = stem (build ['/'] segments) ++ Text.joinWith '/' more := by
  have hback : '\\' ∉ build ['/'] segments :=
    IsNormal.noBackslash ⟨['/'], segments, .slash, hsegments, rfl⟩
  unfold stem
  rw [slashed_of_not_mem hback]
  rcases List.eq_nil_or_concat segments with rfl | ⟨start, last, rfl⟩
  · rfl
  · rw [List.concat_eq_append] at hsegments ⊢
    rw [if_neg (getLast?_build_concat ['/'] start (hsegments last (by simp)).isPiece),
      build_append (by simp) hmore, List.append_assoc]
    rfl

namespace Entrypoints

/-- The target with a text before and a text behind its `*`. -/
def pattern (start ending : Chars) : String :=
  .ofList ('.' :: '/' :: start ++ '*' :: ending)

/-- What may stand between `./` and `*`: segments with a name, and at the end a `/` or a part of a
name.  A text that begins with a drive is left out, for it does not lie below the package. -/
structure IsPatternStart (start : Chars) : Prop where
  plain : ∀ c ∈ start, c ≠ '*' ∧ c ≠ '\\' ∧ Text.isBlank c = false
  goesDown : GoesDown start
  named : [] ∉ (Text.splitOn '/' start).dropLast
  unrooted : Chars.isRooted start = false

/-- What may stand before the `*` is written plainly. -/
theorem IsPatternStart.plainlyWritten {start : Chars} (h : IsPatternStart start) :
    PlainlyWritten ('.' :: '/' :: start) := by
  refine ⟨?_, Text.trim_of_forall ?_, h.unrooted⟩
  · simp only [List.mem_cons, not_or]
    exact ⟨by decide, by decide, fun hmem => (h.plain _ hmem).2.1 rfl⟩
  · simp only [List.mem_cons]
    rintro c (rfl | rfl | hc)
    · decide
    · decide
    · exact (h.plain c hc).2.2

/-- The kept segments spell the text, up to a `/` at its end. -/
theorem IsPatternStart.keptSegments_cases {start : Chars} (h : IsPatternStart start) :
    (Chars.keptSegments start ≠ [] ∧ start = Text.joinWith '/' (Chars.keptSegments start)) ∨
      Text.endsWith "/" (.ofList ('.' :: '/' :: start)) = true ∧
        (Chars.keptSegments start = [] ∧ start = [] ∨ Chars.keptSegments start ≠ [] ∧
          start = Text.joinWith '/' (Chars.keptSegments start) ++ ['/']) := by
  have hjoin := Text.joinWith_splitOn '/' start
  have hnamed := h.named
  have hdown := h.goesDown
  obtain ⟨inner, last, hsplit⟩ :=
    (List.eq_nil_or_concat _).resolve_left (Text.splitOn_ne_nil '/' start)
  rw [List.concat_eq_append] at hsplit
  unfold GoesDown at hdown
  unfold Chars.keptSegments
  rw [hsplit] at hjoin hnamed hdown ⊢
  rw [List.dropLast_concat] at hnamed
  have hinner : inner.filter (fun piece => piece ≠ [] ∧ piece ≠ ['.']) = inner := by
    rw [List.filter_eq_self]
    intro piece hpiece
    exact decide_eq_true ⟨fun hnil => hnamed (hnil ▸ hpiece), (hdown piece (by simp [hpiece])).1⟩
  rw [List.filter_append, hinner]
  by_cases hlast : last = []
  · -- The text ends in a `/`, or there is none.
    subst hlast
    have hnone : [[]].filter (fun piece : Chars => piece ≠ [] ∧ piece ≠ ['.']) = [] := rfl
    rw [hnone, List.append_nil]
    right
    by_cases hnil : inner = []
    · subst hnil
      subst hjoin
      exact ⟨by decide, Or.inl ⟨rfl, rfl⟩⟩
    · rw [Text.joinWith_concat hnil] at hjoin
      refine ⟨?_, Or.inr ⟨hnil, hjoin.symm⟩⟩
      unfold Text.endsWith
      rw [String.toList_ofList, ← hjoin]
      exact List.isSuffixOf_iff_suffix.2 ⟨'.' :: '/' :: Text.joinWith '/' inner, by simp⟩
  · have hkept : [last].filter (fun piece => piece ≠ [] ∧ piece ≠ ['.']) = [last] := by
      rw [List.filter_eq_self]
      intro piece hpiece
      rw [List.mem_singleton.1 hpiece]
      exact decide_eq_true ⟨hlast, (hdown last (by simp)).1⟩
    rw [hkept]
    exact Or.inl ⟨by simp, hjoin.symm⟩

/-! ## What a pattern adds -/

section Patterns

variable {context : Context}

/-- What follows a pattern's `*` takes no part in following it. -/
theorem Context.loadTarget_eq {start ending : Chars} (hstart : '*' ∉ start)
    (hending : '*' ∉ ending) (surface : Surface) :
    context.loadTarget (pattern start ending) surface =
      pure (true, (context.patternFiles (.ofList ('.' :: '/' :: start))).foldl
        (Surface.addMatch context.view) surface) := by
  have hrelative : Text.startsWith "./" (pattern start ending) = true := by
    simp [Text.startsWith, pattern]
  have hsplit : Text.splitOn '*' (pattern start ending).toList =
      ['.' :: '/' :: start, ending] := by
    have hnone : '*' ∉ '.' :: '/' :: start := by simpa using hstart
    unfold pattern
    rw [String.toList_ofList, Text.splitOn_append hnone, Text.splitOn_of_not_mem hending]
  unfold loadTarget
  rw [hrelative, hsplit]
  rfl

/-- Adding a match keeps the files matched so far. -/
theorem matched_subset_addMatch (view : FileView) (surface : Surface) (file : String) :
    surface.matched ⊆ (surface.addMatch view file).matched := by
  unfold Surface.addMatch
  dsimp only
  split
  · exact List.Subset.refl _
  · exact List.subset_append_left _ _

/-- The real path of an added match counts as matched. -/
theorem realPath_mem_matched_addMatch (view : FileView) (surface : Surface) (file : String) :
    (view.realPath file).getD file ∈ (surface.addMatch view file).matched := by
  unfold Surface.addMatch
  dsimp only
  split
  · assumption
  · exact List.mem_append_right _ (List.mem_singleton_self _)

/-- Adding many matches keeps the files matched so far. -/
theorem matched_subset_foldl_addMatch (view : FileView) (files : List String) (surface : Surface) :
    surface.matched ⊆ (files.foldl (Surface.addMatch view) surface).matched := by
  induction files generalizing surface with
  | nil => exact List.Subset.refl _
  | cons file rest ih => exact List.Subset.trans (matched_subset_addMatch view surface file) (ih _)

/-- Every file of a pattern is matched, by this pattern or by an earlier one. -/
theorem realPath_mem_matched_foldl {view : FileView} {files : List String} {file : String}
    (h : file ∈ files) (surface : Surface) :
    (view.realPath file).getD file ∈ (files.foldl (Surface.addMatch view) surface).matched := by
  induction files generalizing surface with
  | nil => simp at h
  | cons other rest ih =>
    rcases List.mem_cons.1 h with rfl | h
    · exact matched_subset_foldl_addMatch view rest _
        (realPath_mem_matched_addMatch view surface file)
    · exact ih h _

variable {start : Chars} (hstart : IsPatternStart start)
  (hnormal : Path.IsNormal context.directory) (hslash : Path.IsSlashRooted context.directory)

include hstart hnormal hslash

/-- A file of a pattern is the package directory, the text before the `*`, and something more. -/
theorem exists_middle_of_mem_patternFiles (hview : context.view.ListsNames) {file : String}
    (h : file ∈ context.patternFiles (.ofList ('.' :: '/' :: start))) :
    context.kind.accepts file = true ∧
      ∃ middle, file.toList = Chars.stem context.directory.toList ++ start ++ middle := by
  obtain ⟨segments, hsegments, hdirectory⟩ := Chars.exists_segments hnormal hslash
  have hplain := hstart.plainlyWritten
  have hdown := hstart.goesDown
  obtain ⟨hfound, hmatch⟩ := List.mem_filter.1 h
  rw [Bool.and_eq_true] at hmatch
  obtain ⟨hbegins, haccepts⟩ := hmatch
  refine ⟨haccepts, ?_⟩
  rw [hdirectory]
  rcases hstart.keptSegments_cases with ⟨hne, hspelled⟩ | ⟨hends, hcases⟩
  · -- The `*` follows a part of a name, and the file begins with the path up to there.
    obtain ⟨middle, hmiddle⟩ := List.isPrefixOf_iff_prefix.1 hbegins
    rw [toList_packagePath hsegments hdirectory hplain hdown,
      Chars.build_append_eq_stem hsegments hne, ← hspelled] at hmiddle
    exact ⟨middle, hmiddle.symm⟩
  · -- The `*` follows a `/`, and the file was found below the path in front of it.
    have hrooted := isSlashRooted_of_startsWith_packagePath hsegments hdirectory hplain hdown
      hbegins
    obtain ⟨names, hnames, -, -, hfile⟩ := exists_names_of_mem_filesBelow
      (isSegment_of_mem_append hsegments hplain hdown) hview
      (reached_patternRoot_of_slash hsegments hdirectory hplain hdown hends) hfound haccepts hrooted
    refine ⟨Text.joinWith '/' names, ?_⟩
    rw [hfile, List.append_assoc segments, Chars.build_append_eq_stem hsegments (by simp [hnames]),
      List.append_assoc]
    rcases hcases with ⟨hkept, hnil⟩ | ⟨hkept, hspelled⟩
    · rw [hkept, hnil]
      rfl
    · rw [Text.joinWith_append hkept hnames]
      have hmore : start ++ Text.joinWith '/' names =
          Text.joinWith '/' (Chars.keptSegments start) ++ '/' :: Text.joinWith '/' names := by
        calc start ++ Text.joinWith '/' names
            = Text.joinWith '/' (Chars.keptSegments start) ++ ['/'] ++ Text.joinWith '/' names :=
              congrArg (· ++ Text.joinWith '/' names) hspelled
          _ = _ := List.append_assoc _ _ _
      rw [hmore]

/-- The path that a pattern looks for is what its files begin with. -/
theorem packagePath_prefix_of_start :
    (packagePath context.directory (.ofList ('.' :: '/' :: start))).toList <+:
      Chars.stem context.directory.toList ++ start := by
  obtain ⟨segments, hsegments, hdirectory⟩ := Chars.exists_segments hnormal hslash
  rw [toList_packagePath hsegments hdirectory hstart.plainlyWritten hstart.goesDown, hdirectory]
  rcases hstart.keptSegments_cases with ⟨hne, hspelled⟩ | ⟨-, ⟨hkept, hnil⟩ | ⟨hne, hspelled⟩⟩
  · have hpath : Chars.build ['/'] (segments ++ Chars.keptSegments start) =
        Chars.stem (Chars.build ['/'] segments) ++ start := by
      rw [Chars.build_append_eq_stem hsegments hne, ← hspelled]
    exact ⟨[], by rw [List.append_nil, hpath]⟩
  · rw [hkept, hnil, List.append_nil, List.append_nil]
    have hback : '\\' ∉ Chars.build ['/'] segments :=
      Chars.IsNormal.noBackslash ⟨['/'], segments, .slash, hsegments, rfl⟩
    unfold Chars.stem
    rw [Chars.slashed_of_not_mem hback]
    split
    · exact List.prefix_refl _
    · exact List.prefix_append _ _
  · rw [Chars.build_append_eq_stem hsegments hne, List.prefix_append_right_inj]
    exact ⟨['/'], hspelled.symm⟩

/-- Whatever stands behind its `*`, a pattern adds only accepted files that begin with the package
directory and the text before the `*`, and it leaves none of those below its root unmatched. -/
theorem loadTarget_pattern (hview : context.view.ListsNames) (surface : Surface) :
    ∃ after, (∀ ending, '*' ∉ ending →
        context.loadTarget (pattern start ending) surface = pure (true, after)) ∧
      (∀ file ∈ after.files, file ∈ surface.files ∨ context.kind.accepts file = true ∧
        ∃ middle, file.toList = Chars.stem context.directory.toList ++ start ++ middle) ∧
      ∀ file ∈ filesBelow context.view
          (patternRoot context.directory (.ofList ('.' :: '/' :: start))),
        context.kind.accepts file = true →
          Chars.stem context.directory.toList ++ start <+: file.toList →
            (context.view.realPath file).getD file ∈ after.matched := by
  refine ⟨_, fun ending hending => Context.loadTarget_eq
    (fun hmem => (hstart.plain _ hmem).1 rfl) hending surface, ?_, ?_⟩
  · intro file hfile
    exact (mem_files_foldl_addMatch _ hfile).imp_right
      (exists_middle_of_mem_patternFiles hstart hnormal hslash hview)
  · intro file hfound haccepts hbegins
    apply realPath_mem_matched_foldl
    refine List.mem_filter.2 ⟨hfound, ?_⟩
    rw [haccepts, Bool.and_true]
    exact List.isPrefixOf_iff_prefix.2
      ((packagePath_prefix_of_start hstart hnormal hslash).trans hbegins)

end Patterns

/-- The package in `/w/a`, which holds one file. -/
def oneFile (file : String) : Context where
  view := (MemoryTree.writeFile {} file "").view
  kind := .typed
  directory := "/w/a"
  conditions := []

/-- The file that the example pattern adds lies in `lib`, where the text before the `*` says. -/
theorem loadTarget_pattern_library :
    ((oneFile "/w/a/lib/b.d.ts").loadTarget "./lib/*.d.ts" {}).val.2.files = ["/w/a/lib/b.d.ts"] ∧
      ∃ middle, "/w/a/lib/b.d.ts".toList = Chars.stem "/w/a".toList ++ "lib/".toList ++ middle := by
  have hfiles : ((oneFile "/w/a/lib/b.d.ts").loadTarget "./lib/*.d.ts" {}).val.2.files =
      ["/w/a/lib/b.d.ts"] := by decide +kernel
  have hnormal : Path.IsNormal "/w/a" := Path.isNormal_of_normalize_eq (by decide +kernel)
  have hview : (oneFile "/w/a/lib/b.d.ts").view.ListsNames :=
    MemoryTree.listsNames_view (by decide +kernel) (by decide +kernel)
  have hstart : IsPatternStart "lib/".toList := by
    refine ⟨?_, by decide, by decide, by decide⟩
    intro c hc
    have hmem : c ∈ ['l', 'i', 'b', '/'] := hc
    simp only [List.mem_cons, List.not_mem_nil, or_false] at hmem
    rcases hmem with rfl | rfl | rfl | rfl <;> decide
  obtain ⟨after, hafter, hadded, -⟩ := @loadTarget_pattern (oneFile "/w/a/lib/b.d.ts") _ hstart
    hnormal (by decide) hview {}
  have hload : (oneFile "/w/a/lib/b.d.ts").loadTarget "./lib/*.d.ts" {} = pure (true, after) :=
    hafter ".d.ts".toList (by decide)
  refine ⟨hfiles, ?_⟩
  have hmem : "/w/a/lib/b.d.ts" ∈ after.files := by
    rw [hload, Probed.val_pure] at hfiles
    rw [hfiles]
    exact List.mem_singleton_self _
  exact ((hadded _ hmem).resolve_left (by simp)).2

/-- A pattern for declarations adds a file that does not end as the pattern does. -/
theorem loadTarget_pattern_unmatched :
    ((oneFile "/w/a/lib/b.ts").loadTarget "./lib/*.d.ts" {}).val.2.files = ["/w/a/lib/b.ts"] ∧
      ¬∃ middle, "/w/a/lib/b.ts".toList = "/w/a/lib/".toList ++ middle ++ ".d.ts".toList := by
  refine ⟨by decide +kernel, ?_⟩
  rintro ⟨middle, heq⟩
  have hsuffix : ".d.ts".toList <:+ "/w/a/lib/b.ts".toList := ⟨_, heq.symm⟩
  exact absurd (List.isSuffixOf_iff_suffix.2 hsuffix) (by decide)

end Entrypoints

end AutoImport
