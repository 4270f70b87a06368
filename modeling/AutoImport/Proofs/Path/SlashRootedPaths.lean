import AutoImport.Proofs.Path.PackagePaths
import AutoImport.Proofs.Path.PlainDirectories

/-!
# Spellings of paths that begin with a slash

One file has many spellings: backslashes for slashes, `.` and `..`, slashes that are doubled or
stand at the end.  For a path that begins with `/`, none of them matters to the key of a file in it:
that key is the file in the key of the directory (`Path.canonical_join_of_isSlashRooted`), and the
directory of that key is the key of the directory (`Path.directory_canonical_of_isSlashRooted`).
All that lies above such a path begins with `/` too.
-/

set_option autoImplicit false

namespace AutoImport

namespace Text

/-- A piece behind a separator is the last of the pieces. -/
theorem splitOn_append_piece {sep : Char} (text : Chars) {piece : Chars} (h : sep ∉ piece) :
    splitOn sep (text ++ sep :: piece) = splitOn sep text ++ [piece] := by
  induction text with
  | nil => simp [splitOn, splitOn_of_not_mem h]
  | cons c cs ih =>
    rw [List.cons_append, splitOn, splitOn, ih]
    split
    · rfl
    · cases hpieces : splitOn sep cs with
      | nil => exact absurd hpieces (splitOn_ne_nil sep cs)
      | cons first others => rfl

/-- A text split at its last separator is what stands before it, the separator and what stands
behind. -/
theorem splitLast?_eq_some {sep : Char} {text before after : Chars}
    (h : splitLast? sep text = some (before, after)) : text = before ++ sep :: after := by
  induction text generalizing before with
  | nil => simp [splitLast?] at h
  | cons c cs ih =>
    rw [splitLast?] at h
    cases hrest : splitLast? sep cs with
    | some parts =>
      simp only [hrest, Option.some.injEq, Prod.mk.injEq] at h
      obtain ⟨rfl, rfl⟩ := h
      rw [List.cons_append, ← ih hrest]
    | none =>
      simp only [hrest, Option.ite_none_right_eq_some, Option.some.injEq, Prod.mk.injEq] at h
      obtain ⟨rfl, rfl, rfl⟩ := h
      rfl

end Text

namespace Chars

/-- A segment at the end of a path stays at the end when the path is collapsed. -/
theorem collapse_concat_segment (rooted : Bool) (segments : List Chars) {segment : Chars}
    (h : IsSegment segment) :
    collapse rooted (segments ++ [segment]) = collapse rooted segments ++ [segment] := by
  unfold collapse
  rw [List.foldl_append, List.foldl_cons, List.foldl_nil, pushSegment_of_isSegment rooted _ h,
    List.reverse_cons]

/-- An empty piece at the end of a path is collapsed away. -/
theorem collapse_concat_nil (rooted : Bool) (segments : List Chars) :
    collapse rooted (segments ++ [[]]) = collapse rooted segments := by
  unfold collapse
  rw [List.foldl_append]
  rfl

/-- The normal form of a path that begins with `/` is built on `/`. -/
theorem normalForm_slash (rest : Chars) :
    normalForm ('/' :: rest) = build ['/'] (collapse true (Text.splitOn '/' rest)) := rfl

/-- What remains of a path that begins with `/` are segments below `/`. -/
theorem isSegment_of_mem_collapse {rest : Chars} (hback : '\\' ∉ rest) :
    ∀ segment ∈ collapse true (Text.splitOn '/' rest), IsSegment segment := by
  apply collapse_isSegment
  intro piece hpiece
  refine ⟨Text.not_mem_of_mem_splitOn hpiece, ?_⟩
  intro hmem
  exact hback (Text.mem_of_mem_splitOn hpiece hmem).1

/-- A name behind a closing slash is one more segment of the normal form. -/
theorem normalForm_append_name {rest name : Chars} (hback : '\\' ∉ rest)
    (hlast : ('/' :: rest).getLast? = some '/') (hname : IsName name) :
    normalForm ('/' :: rest ++ name) = join (normalForm ('/' :: rest)) name := by
  have hpieces : ∀ piece ∈ collapse true (Text.splitOn '/' rest), IsPiece piece :=
    fun piece hpiece => (isSegment_of_mem_collapse hback piece hpiece).isPiece
  have hbuilt : '\\' ∉ build ['/'] (collapse true (Text.splitOn '/' rest)) :=
    IsNormal.noBackslash ⟨['/'], _, .slash, isSegment_of_mem_collapse hback, rfl⟩
  have hjoin : join (normalForm ('/' :: rest)) name =
      build ['/'] (collapse true (Text.splitOn '/' rest) ++ [name]) := by
    rw [normalForm_slash]
    rcases join_build .slash hpieces hbuilt hname with ⟨-, hjoin⟩ | ⟨-, hbare, -⟩
    · exact hjoin
    · exact absurd (List.mem_singleton.2 rfl) hbare
  have hsplit : Text.splitOn '/' name = [] ++ [name] :=
    Text.splitOn_of_not_mem hname.isSegment.isPiece.2
  rw [hjoin, List.cons_append, normalForm_slash]
  -- The slash at the end is the root, or leaves an empty piece, which is dropped.
  rcases List.eq_nil_or_concat rest with rfl | ⟨start, last, rfl⟩
  · rw [List.nil_append, hsplit, collapse_concat_segment true [] hname.isSegment]
    rfl
  · rw [List.concat_eq_append] at hlast ⊢
    rw [← List.cons_append, List.getLast?_concat, Option.some.injEq] at hlast
    subst hlast
    rw [List.append_assoc, List.singleton_append,
      Text.splitOn_append_piece start hname.isSegment.isPiece.2,
      Text.splitOn_concat_separator, collapse_concat_segment true _ hname.isSegment,
      collapse_concat_nil]

/-- The stem of a path that begins with `/` begins and ends with `/` and has no backslash. -/
theorem stem_slash (rest : Chars) :
    ∃ after, stem ('/' :: rest) = '/' :: after ∧ '\\' ∉ after ∧
      ('/' :: after).getLast? = some '/' := by
  have hback : '\\' ∉ slashed rest := not_mem_slashed rest
  have hslashed : slashed ('/' :: rest) = '/' :: slashed rest := rfl
  unfold stem
  rw [hslashed]
  split
  · rename_i hlast
    exact ⟨slashed rest, rfl, hback, hlast⟩
  · refine ⟨slashed rest ++ ['/'], rfl, by simpa using hback, ?_⟩
    rw [← List.cons_append, List.getLast?_concat]

/-- The normal form of a name in a directory that begins with `/` is the name in the normal form of
the directory. -/
theorem normalize_join_slash (rest : Chars) {name : Chars} (hname : IsName name) :
    normalize (join ('/' :: rest) name) ['/'] = join (normalize ('/' :: rest) ['/']) name := by
  obtain ⟨after, hafter, hback, hlast⟩ := stem_slash rest
  have hdrive : ∀ c : Char, c.isAlpha = true → stem ('/' :: rest) ≠ [c, ':', '/'] := by
    intro c hc hstem
    rw [hafter] at hstem
    exact ne_slash_of_isAlpha hc (List.cons.inj hstem).1.symm
  have hrooted : ∀ path : Chars, isRooted ('/' :: path) = true := fun _ => rfl
  have hbackName : '\\' ∉ '/' :: (after ++ name) := by
    simp [hback, hname.isSegment.noBackslash]
  rw [join_eq_stem (by simp) hname, ← normalize_stem (by simp) hdrive, hafter]
  unfold normalize
  rw [List.cons_append, join_of_isRooted _ (hrooted _) hbackName,
    join_of_isRooted _ (hrooted _) (by simpa using hback)]
  exact normalForm_append_name hback hlast hname

/-- The normal form of a path that begins with `/` is plain. -/
theorem isPlain_normalize_slash (rest : Chars) : IsPlain (normalize ('/' :: rest) ['/']) := by
  have hslashed : normalize ('/' :: rest) ['/'] = normalForm ('/' :: slashed rest) := rfl
  have hsegments := isSegment_of_mem_collapse (not_mem_slashed rest)
  rw [hslashed, normalForm_slash]
  exact ⟨['/'], _, .slash, fun piece hpiece => (hsegments piece hpiece).isPiece, by simp, rfl⟩

/-- The directory of a path that begins with `/` begins with `/`. -/
theorem directory_slash (rest : Chars) : ∃ above, directory ('/' :: rest) = '/' :: above := by
  unfold directory
  dsimp only
  split
  · exact ⟨rest, rfl⟩
  · have htake : ('/' :: rest).take (rootLength ('/' :: rest)) = ['/'] := rfl
    have hlength : rootLength ('/' :: rest) = 1 := rfl
    have htrimmed : ∃ inner, Text.dropTrailingSlash ('/' :: rest) = '/' :: inner := by
      rename_i hlong
      rw [hlength, List.length_cons] at hlong
      rcases List.eq_nil_or_concat rest with rfl | ⟨start, last, rfl⟩
      · simp at hlong
      · rw [List.concat_eq_append, ← List.cons_append]
        by_cases hlast : last = '/'
        · subst hlast
          exact ⟨start, Text.dropTrailingSlash_concat ('/' :: start)⟩
        · refine ⟨start ++ [last], Text.dropTrailingSlash_of_getLast? ?_⟩
          rw [List.getLast?_concat]
          simpa using hlast
    obtain ⟨inner, hinner⟩ := htrimmed
    rw [hinner, htake, hlength]
    cases hsplit : Text.splitLast? '/' ('/' :: inner) with
    | none =>
      rw [Text.splitLast?] at hsplit
      split at hsplit
      · simp at hsplit
      · simp at hsplit
    | some parts =>
      dsimp only
      split
      · rename_i hbefore
        have hparts := Text.splitLast?_eq_some hsplit
        cases hfirst : parts.1 with
        | nil =>
          rw [hfirst] at hbefore
          simp at hbefore
        | cons c above =>
          rw [hfirst, List.cons_append] at hparts
          exact ⟨above, by rw [← (List.cons.inj hparts).1]⟩
      · exact ⟨[], rfl⟩

/-- The ancestors of a path that begins with `/` begin with `/`. -/
theorem head?_of_mem_ancestors {path ancestor : Chars} (h : path.head? = some '/')
    (hmem : ancestor ∈ ancestors path) : ancestor.head? = some '/' := by
  fun_induction ancestors path with
  | case1 path hempty => simp at hmem
  | case2 path hempty hshorter ih =>
    rcases List.mem_cons.1 hmem with rfl | hmem
    · exact h
    · obtain ⟨rest, rfl⟩ := List.head?_eq_some_iff.1 h
      obtain ⟨above, habove⟩ := directory_slash rest
      apply ih _ hmem
      rw [habove]
      rfl
  | case3 path hempty hshorter =>
    rw [List.mem_singleton.1 hmem]
    exact h

end Chars

namespace Path

/-- The path begins with `/`. -/
def IsSlashRooted (path : String) : Prop :=
  path.toList.head? = some '/'
  deriving Decidable

variable {path : String}

/-- A path that begins with `/` is `/` and a rest. -/
theorem IsSlashRooted.toList_eq (h : IsSlashRooted path) : ∃ rest, path.toList = '/' :: rest :=
  List.head?_eq_some_iff.1 h

/-- The directory of a path that begins with `/` begins with `/`. -/
theorem isSlashRooted_directory (h : IsSlashRooted path) : IsSlashRooted (directory path) := by
  obtain ⟨rest, hrest⟩ := h.toList_eq
  obtain ⟨above, habove⟩ := Chars.directory_slash rest
  unfold IsSlashRooted directory
  rw [hrest, habove, String.toList_ofList]
  rfl

/-- Everything above a path that begins with `/` begins with `/`. -/
theorem isSlashRooted_of_mem_ancestors {ancestor : String} (h : IsSlashRooted path)
    (hmem : ancestor ∈ ancestors path) : IsSlashRooted ancestor := by
  obtain ⟨chars, hchars, rfl⟩ := List.mem_map.1 hmem
  unfold IsSlashRooted
  rw [String.toList_ofList]
  exact Chars.head?_of_mem_ancestors h hchars

/-- The key of the manifest in a directory is the manifest in the key of the directory, in whatever
way the directory is spelled. -/
theorem canonical_join_of_isSlashRooted (h : IsSlashRooted path) (caseSensitive : Bool) :
    canonical (join path manifestName) "/" caseSensitive =
      join (canonical path "/" caseSensitive) manifestName := by
  obtain ⟨rest, hrest⟩ := h.toList_eq
  have hnormal : Chars.IsNormal (Chars.normalize ('/' :: rest) ['/']) :=
    Chars.isNormal_normalize _ isNormal_root
  unfold canonical join
  rw [String.toList_ofList, String.toList_ofList, hrest, Chars.canonical_eq_folded,
    Chars.canonical_eq_folded]
  show String.ofList (Chars.folded caseSensitive
    (Chars.normalize (Chars.join ('/' :: rest) manifestName.toList) ['/'])) = _
  rw [Chars.normalize_join_slash rest isName_manifestName,
    Chars.folded_join caseSensitive hnormal.isTidy.ne_nil hnormal.noBackslash isName_manifestName
      (by decide), String.toList_ofList]

/-- The directory of the key of a manifest is the key of the directory, in whatever way that is
spelled. -/
theorem directory_canonical_of_isSlashRooted (h : IsSlashRooted path) (caseSensitive : Bool) :
    directory (canonical (join path manifestName) "/" caseSensitive) =
      canonical path "/" caseSensitive := by
  rw [canonical_join_of_isSlashRooted h]
  obtain ⟨rest, hrest⟩ := h.toList_eq
  have hplain := Chars.isPlain_folded caseSensitive (Chars.isPlain_normalize_slash rest)
  have hback := Chars.noBackslash_folded caseSensitive
    (Chars.IsNormal.noBackslash (Chars.isNormal_normalize ('/' :: rest) isNormal_root))
  unfold directory join canonical
  rw [String.toList_ofList, String.toList_ofList, hrest, Chars.canonical_eq_folded]
  exact congrArg String.ofList (Chars.directory_join hplain hback isName_manifestName)

end Path

end AutoImport
