import AutoImport.Proofs.Path.PathKeys

/-!
# Directories that hold what is joined to them

A name joined to a tidy path gives a path whose directory is the tidy path again, except at a bare
drive: the directory of `c:/name` is `c:/`.  A path is *plain* when it is no bare drive.  All that
lies above a file is plain, since going up from a file either ends at `/` or `c:/`, or leaves
nothing at all.  Keys of plain directories are plain, so the key of a directory can be read off the
key of its manifest (`Path.directory_canonical_join`).
-/

set_option autoImplicit false

namespace AutoImport

namespace Chars

/-- A tidy path other than a bare drive. -/
def IsPlain (path : Chars) : Prop :=
  ∃ root pieces, IsRoot root ∧ (∀ piece ∈ pieces, IsPiece piece) ∧
    ¬(pieces = [] ∧ '/' ∉ root) ∧ path = build root pieces

/-- A root with no pieces is the root. -/
theorem build_nil (root : Chars) : build root [] = root :=
  List.append_nil root

/-- A name at the end of pieces is one more piece. -/
theorem isPiece_of_mem_concat {pieces : List Chars} (h : ∀ piece ∈ pieces, IsPiece piece)
    {name : Chars} (hname : IsName name) : ∀ piece ∈ pieces ++ [name], IsPiece piece := by
  intro piece hpiece
  rcases List.mem_append.1 hpiece with hpiece | hpiece
  · exact h piece hpiece
  · rw [List.mem_singleton.1 hpiece]
    exact hname.isSegment.isPiece

/-- The directory of a name joined to a plain path is the path. -/
theorem directory_join {path name : Chars} (h : IsPlain path) (hback : '\\' ∉ path)
    (hname : IsName name) : directory (join path name) = path := by
  obtain ⟨root, pieces, hroot, hpieces, hopen, rfl⟩ := h
  rcases join_build hroot hpieces hback hname with ⟨-, hjoin⟩ | ⟨hnil, hbare, -⟩
  · rw [hjoin, directory_build hroot (isPiece_of_mem_concat hpieces hname)]
    by_cases hnil : pieces = []
    · have hslash : '/' ∈ root := by
        by_contra hbare
        exact hopen ⟨hnil, hbare⟩
      rw [if_pos hnil, if_pos hslash, hnil, build_nil]
    · rw [if_neg hnil]
  · exact absurd ⟨hnil, hbare⟩ hopen

/-! ## Going up -/

/-- Whatever stands above the last piece of a path is plain, or nothing. -/
theorem isPlain_directory_build {root : Chars} (hroot : IsRoot root) {pieces : List Chars}
    {last : Chars} (hpieces : ∀ piece ∈ pieces ++ [last], IsPiece piece) :
    directory (build root (pieces ++ [last])) = [] ∨
      IsPlain (directory (build root (pieces ++ [last]))) := by
  rw [directory_build hroot hpieces]
  split
  · split
    · rename_i hslash
      exact Or.inr ⟨root, [], hroot, by simp, fun h => h.2 hslash, (build_nil root).symm⟩
    · exact Or.inl rfl
  · rename_i hne
    exact Or.inr ⟨root, pieces, hroot, fun piece hpiece => hpieces piece (by simp [hpiece]),
      fun h => hne h.1, rfl⟩

/-- The directory of a plain path is plain, unless it is empty. -/
theorem isPlain_directory {path : Chars} (h : IsPlain path) :
    directory path = [] ∨ IsPlain (directory path) := by
  obtain ⟨root, pieces, hroot, hpieces, hopen, rfl⟩ := h
  rcases List.eq_nil_or_concat pieces with rfl | ⟨start, last, rfl⟩
  · rw [build_nil, directory_root hroot]
    exact Or.inr ⟨root, [], hroot, hpieces, hopen, (build_nil root).symm⟩
  · rw [List.concat_eq_append] at hpieces ⊢
    exact isPlain_directory_build hroot hpieces

/-- The directory of a name joined to a normal path is plain, unless it is empty. -/
theorem isPlain_directory_join {base name : Chars} (h : IsNormal base) (hname : IsName name) :
    directory (join base name) = [] ∨ IsPlain (directory (join base name)) := by
  have hback := h.noBackslash
  obtain ⟨root, segments, hroot, hsegments, rfl⟩ := h
  have hpieces : ∀ piece ∈ segments, IsPiece piece := fun s hs => (hsegments s hs).isPiece
  rcases join_build hroot hpieces hback hname with ⟨-, hjoin⟩ | ⟨-, -, hdrive, hjoin⟩
  · rw [hjoin]
    exact isPlain_directory_build hroot (isPiece_of_mem_concat hpieces hname)
  · rw [hjoin, ← List.nil_append [name]]
    exact isPlain_directory_build hdrive (isPiece_of_mem_concat (by simp) hname)

/-- The ancestors of a plain path are plain. -/
theorem isPlain_of_mem_ancestors {path ancestor : Chars} (h : path = [] ∨ IsPlain path)
    (hmem : ancestor ∈ ancestors path) : IsPlain ancestor := by
  fun_induction ancestors path with
  | case1 path hempty => simp at hmem
  | case2 path hempty hshorter ih =>
    have hplain : IsPlain path := by
      rcases h with rfl | h
      · simp at hempty
      · exact h
    rcases List.mem_cons.1 hmem with rfl | hmem
    · exact hplain
    · exact ih (isPlain_directory hplain) hmem
  | case3 path hempty hshorter =>
    rw [List.mem_singleton.1 hmem]
    rcases h with rfl | h
    · simp at hempty
    · exact h

/-! ## Keys -/

/-- A plain path stays plain in small letters. -/
theorem IsPlain.lowercase {path : Chars} (h : IsPlain path) : IsPlain (Text.lowercase path) := by
  obtain ⟨root, pieces, hroot, hpieces, hopen, rfl⟩ := h
  obtain ⟨small, smallPieces, hsmall, hsmallPieces, heq⟩ :=
    IsTidy.lowercase ⟨root, pieces, hroot, hpieces, rfl⟩
  refine ⟨small, smallPieces, hsmall, hsmallPieces, ?_, heq⟩
  rintro ⟨rfl, hbare⟩
  rw [build_nil] at heq
  -- Small letters have as many slashes, so there is none; what follows the drive has a small form.
  have hnoSlash : '/' ∉ build root pieces := by
    intro hmem
    rw [← heq] at hbare
    exact hbare ((Text.mem_lowercaseAfter_iff (by decide) [] _).2 hmem)
  have hroot' : '/' ∉ root := fun hmem => hnoSlash (List.mem_append_left _ hmem)
  have hne : pieces ≠ [] := fun hnil => hopen ⟨hnil, hroot'⟩
  cases hroot with
  | slash => exact hroot' (by simp)
  | drive c hc => exact hroot' (by simp)
  | bare c hc =>
    have hjoined : Text.joinWith '/' pieces ≠ [] := by
      intro hnil
      obtain ⟨start, last, rfl⟩ := (List.eq_nil_or_concat pieces).resolve_left hne
      rw [List.concat_eq_append] at hpieces hnil
      have hlength := length_lt_build [c, ':'] start (hpieces last (by simp))
      rw [build, hnil] at hlength
      simp at hlength
    have hsmallForm : Text.lowercase (build [c, ':'] pieces) =
        c.toLower :: ':' :: Text.lowercaseAfter [':', c] (Text.joinWith '/' pieces) := by
      show Text.lowercaseAfter [] (c :: ':' :: Text.joinWith '/' pieces) = _
      rw [Text.lowercaseAfter_cons_ascii [] (toNat_lt_of_isAlpha hc),
        Text.lowercaseAfter_cons_ascii _ (by decide)]
      rfl
    rw [hsmallForm] at heq
    cases hsmall with
    | slash => exact hbare (by simp)
    | drive small hsmall => exact hbare (by simp)
    | bare small hsmall =>
      simp only [List.cons.injEq] at heq
      exact Text.lowercaseAfter_ne_nil _ hjoined heq.2.2

/-- A plain path stays plain when its letters are folded. -/
theorem isPlain_folded (caseSensitive : Bool) {path : Chars} (h : IsPlain path) :
    IsPlain (folded caseSensitive path) := by
  unfold folded
  split
  · exact h
  · exact h.lowercase

end Chars

namespace Path

/-- A normal path other than a bare drive. -/
structure IsPlain (path : String) : Prop where
  isNormal : IsNormal path
  notBare : Chars.IsPlain path.toList

/-- A file in a normal directory has only plain directories above it. -/
theorem isPlain_of_mem_ancestors_directory {base name ancestor : String} (h : IsNormal base)
    (hname : Chars.IsName name.toList) (hmem : ancestor ∈ ancestors (directory (join base name))) :
    IsPlain ancestor := by
  refine ⟨isNormal_of_mem_ancestors (isNormal_directory (isNormal_join h hname)) hmem, ?_⟩
  obtain ⟨chars, hchars, rfl⟩ := List.mem_map.1 hmem
  unfold directory join at hchars
  rw [String.toList_ofList, String.toList_ofList] at hchars
  rw [String.toList_ofList]
  exact Chars.isPlain_of_mem_ancestors (Chars.isPlain_directory_join h hname) hchars

/-- The ancestors of a plain path are plain. -/
theorem isPlain_of_mem_ancestors {path ancestor : String} (h : IsPlain path)
    (hmem : ancestor ∈ ancestors path) : IsPlain ancestor := by
  refine ⟨isNormal_of_mem_ancestors (Or.inr h.isNormal) hmem, ?_⟩
  obtain ⟨chars, hchars, rfl⟩ := List.mem_map.1 hmem
  rw [String.toList_ofList]
  exact Chars.isPlain_of_mem_ancestors (Or.inr h.notBare) hchars

/-- The directory of the key of a plain directory's manifest is the key of the directory. -/
theorem directory_canonical_join {path : String} (h : IsPlain path) (base : String)
    (caseSensitive : Bool) :
    directory (canonical (join path manifestName) base caseSensitive) =
      canonical path base caseSensitive := by
  have hkey : Chars.canonical path.toList base.toList caseSensitive =
      Chars.folded caseSensitive path.toList := by
    rw [Chars.canonical_eq_folded, Chars.normalize_of_isNormal base.toList h.isNormal]
  rw [canonical_join_manifestName h.isNormal]
  unfold directory join canonical
  rw [String.toList_ofList, String.toList_ofList, hkey,
    Chars.directory_join (Chars.isPlain_folded caseSensitive h.notBare)
      (Chars.noBackslash_folded caseSensitive h.isNormal.noBackslash) isName_manifestName]

end Path

end AutoImport
