import AutoImport.Proofs.Entrypoints.FoundFiles

/-!
# Paths that targets give

A target of a manifest is a text behind `./`, and its path is put together from the package
directory and that text.  When the text is written plainly and goes down only, its segments are
added to those of the directory (`Entrypoints.toList_packagePath`).  A pattern looks for files below
that path if its `*` stands behind a `/`, and else in the directory that holds it.
-/

set_option autoImplicit false

namespace AutoImport

/-- Nothing is dropped from a text that does not end in the character. -/
theorem Text.dropTrailing_of_getLast? {c : Char} {text : Chars} (h : text.getLast? ≠ some c) :
    Text.dropTrailing c text = text := by
  unfold Text.dropTrailing
  rcases List.eq_nil_or_concat text with rfl | ⟨start, last, rfl⟩
  · rfl
  · have hlast : last ≠ c := by simpa using h
    simp [hlast]

namespace Entrypoints

/-- A text behind `./` out of which a path is put together as it is written. -/
def PlainlyWritten (text : Chars) : Prop :=
  '\\' ∉ text ∧ Text.trim text = text ∧ Chars.isRooted (text.drop 2) = false
  deriving Decidable

/-- No segment is `.` or `..`. -/
def GoesDown (relative : Chars) : Prop :=
  ∀ part ∈ Text.splitOn '/' relative, part ≠ ['.'] ∧ part ≠ ['.', '.']
  deriving Decidable

/-- A walk has reached the directory it starts in. -/
theorem Reached.start (segments : List Chars) : Reached segments (Chars.build ['/'] segments) := by
  have hreached : Reached segments (Chars.build ['/'] (segments ++ [])) :=
    .below [] (by simp) (by simp)
  rwa [List.append_nil] at hreached

section Paths

variable {directory : String} {segments : List Chars}
  (hsegments : ∀ segment ∈ segments, Chars.IsSegment segment)
  (hdirectory : directory.toList = Chars.build ['/'] segments)
  {rest : Chars} (hplain : PlainlyWritten ('.' :: '/' :: rest)) (hdown : GoesDown rest)

include hplain hdown

/-- The segments kept of a path that goes down are segments. -/
theorem isSegment_of_mem_keptSegments :
    ∀ segment ∈ Chars.keptSegments rest, Chars.IsSegment segment := by
  intro segment hsegment
  obtain ⟨hmem, hpiece⟩ := Chars.mem_keptSegments hsegment
  obtain ⟨hhere, hup⟩ := hdown segment hmem
  refine ⟨hpiece, fun hback => hplain.1 ?_, hhere, hup⟩
  simp [(Text.mem_of_mem_splitOn hmem hback).1]

/-- A text that names something keeps a segment. -/
theorem keptSegments_ne_nil (hrest : rest ≠ []) : Chars.keptSegments rest ≠ [] := by
  obtain ⟨c, cs, rfl⟩ := List.exists_cons_of_ne_nil hrest
  have hc : c ≠ '/' := by
    rintro rfl
    exact absurd hplain.2.2 (by simp [Chars.isRooted, Chars.rootLength])
  -- The first piece begins with the first character of the text.
  obtain ⟨piece, pieces, hsplit⟩ : ∃ piece pieces,
      Text.splitOn '/' (c :: cs) = (c :: piece) :: pieces := by
    rw [Text.splitOn, if_neg hc]
    split
    · exact ⟨[], [], rfl⟩
    · exact ⟨_, _, rfl⟩
  have hmem : c :: piece ∈ Text.splitOn '/' (c :: cs) := by
    rw [hsplit]
    exact List.mem_cons_self
  have hkept : c :: piece ∈ Chars.keptSegments (c :: cs) :=
    List.mem_filter.2 ⟨hmem, decide_eq_true ⟨by simp, (hdown _ hmem).1⟩⟩
  exact List.ne_nil_of_mem hkept

include hsegments

/-- The directory's segments and those kept behind them are segments. -/
theorem isSegment_of_mem_append :
    ∀ segment ∈ segments ++ Chars.keptSegments rest, Chars.IsSegment segment :=
  List.forall_mem_append.2 ⟨hsegments, isSegment_of_mem_keptSegments hplain hdown⟩

include hdirectory

/-- A plainly written text adds its segments to those of the package directory. -/
theorem toList_packagePath :
    (packagePath directory (.ofList ('.' :: '/' :: rest))).toList =
      Chars.build ['/'] (segments ++ Chars.keptSegments rest) := by
  obtain ⟨hback, htrim, hunrooted⟩ := hplain
  have hstrip : Text.stripPrefix? ['.', '/'] ('.' :: '/' :: rest) = some rest :=
    Text.stripPrefix?_append ['.', '/'] rest
  unfold packagePath Path.normalize Path.join
  simp only [String.toList_ofList]
  rw [htrim, hstrip, hdirectory, Option.getD_some]
  refine Chars.normalize_join_relative hsegments ?_ hunrooted ?_
  · exact fun hmem => hback (by simp [hmem])
  · exact fun hmem => (hdown _ hmem).2 rfl

/-- A file that starts with the package path of such a text is rooted at `/`. -/
theorem isSlashRooted_of_startsWith_packagePath {file : String}
    (h : Text.startsWith (packagePath directory (.ofList ('.' :: '/' :: rest))) file = true) :
    Path.IsSlashRooted file := by
  obtain ⟨ending, hending⟩ := List.isPrefixOf_iff_prefix.1 h
  rw [toList_packagePath hsegments hdirectory hplain hdown] at hending
  unfold Path.IsSlashRooted
  rw [← hending]
  rfl

/-- A pattern whose `*` stands behind a `/` looks below the path in front of that. -/
theorem reached_patternRoot_of_slash
    (hslash : Text.endsWith "/" (.ofList ('.' :: '/' :: rest)) = true) :
    Reached (segments ++ Chars.keptSegments rest)
      (patternRoot directory (.ofList ('.' :: '/' :: rest))).toList := by
  have hpath := toList_packagePath hsegments hdirectory hplain hdown
  have hall := isSegment_of_mem_append hsegments hplain hdown
  unfold patternRoot
  dsimp only
  rw [if_pos hslash, String.toList_ofList, hpath]
  rcases List.eq_nil_or_concat (segments ++ Chars.keptSegments rest) with hnil | ⟨start, last, heq⟩
  · -- Below `/` itself the closing slash is all there is, and it is dropped.
    rw [hnil]
    exact .elsewhere _ (by decide) (by decide)
  · rw [List.concat_eq_append] at heq
    rw [heq] at hall ⊢
    rw [Text.dropTrailing_of_getLast?
      (Chars.getLast?_build_concat ['/'] start (hall last (by simp)).isPiece)]
    exact Reached.start _

/-- A pattern whose `*` stands behind a part of a name looks in the directory of that name. -/
theorem reached_patternRoot_of_name
    (hname : Text.endsWith "/" (.ofList ('.' :: '/' :: rest)) = false) :
    Reached (segments ++ (Chars.keptSegments rest).dropLast)
      (patternRoot directory (.ofList ('.' :: '/' :: rest))).toList := by
  have hpath := toList_packagePath hsegments hdirectory hplain hdown
  have hall := isSegment_of_mem_append hsegments hplain hdown
  have hne : Chars.keptSegments rest ≠ [] := by
    apply keptSegments_ne_nil hplain hdown
    rintro rfl
    exact absurd hname (by decide)
  obtain ⟨start, last, heq⟩ := (List.eq_nil_or_concat _).resolve_left hne
  rw [List.concat_eq_append] at heq
  unfold patternRoot Path.directory
  dsimp only
  rw [hname]
  simp only [Bool.false_eq_true, if_false]
  rw [String.toList_ofList, hpath]
  rw [heq, ← List.append_assoc] at hall ⊢
  rw [List.dropLast_concat, Chars.directory_build .slash fun s hs => (hall s hs).isPiece]
  split
  · rename_i hnil
    rw [hnil, if_pos (List.mem_singleton_self _)]
    exact Reached.start []
  · exact Reached.start _

end Paths

/-! ## Files that a pattern matches -/

/-- Adding a match adds that file or none. -/
theorem mem_files_addMatch {view : FileView} {surface : Surface} {other file : String}
    (h : file ∈ (surface.addMatch view other).files) : file ∈ surface.files ∨ file = other := by
  unfold Surface.addMatch at h
  dsimp only at h
  split at h
  · exact Or.inl h
  · exact (mem_insertNew _ _ _).1 h

/-- Adding matches adds only files out of the list. -/
theorem mem_files_foldl_addMatch {view : FileView} (others : List String) {surface : Surface}
    {file : String} (h : file ∈ (others.foldl (Surface.addMatch view) surface).files) :
    file ∈ surface.files ∨ file ∈ others := by
  induction others generalizing surface with
  | nil => exact Or.inl h
  | cons other rest ih =>
    rcases ih h with h | h
    · rcases mem_files_addMatch h with h | rfl
      · exact Or.inl h
      · exact Or.inr List.mem_cons_self
    · exact Or.inr (List.mem_cons_of_mem _ h)

end Entrypoints

end AutoImport
