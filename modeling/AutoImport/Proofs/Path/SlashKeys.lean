import AutoImport.Proofs.Path.AncestorLists
import AutoImport.Proofs.Path.ExtendedPaths
import AutoImport.Proofs.Path.SlashRootedPaths

/-!
# Keys that begin with a slash

A path need not begin with `/` for its key to do so: relative paths are seen from `/`, and
backslashes count as slashes.  But such a path is another spelling of one that begins with `/`
(`Chars.exists_slash_spelling`), so what is known of the spellings of those holds of it
(`Path.canonical_join_of_slashKey`).

A key that begins with `/` is a list of segments.  Hence for such keys to contain a path and to be
among its ancestors is the same (`Path.contains_iff_mem_ancestors`).
-/

set_option autoImplicit false

namespace AutoImport

namespace Chars

/-- A relative path joined to `/` follows it. -/
theorem join_slash_of_relative {path : Chars} (h : isRooted (slashed path) = false) :
    join ['/'] path = '/' :: slashed path := by
  unfold join
  dsimp only
  rw [h]
  cases slashed path <;> rfl

/-- The normal form of a rooted path begins as the path does. -/
theorem head?_normalForm {path : Chars} (h : isRooted path = true) :
    (normalForm path).head? = path.head? := by
  have hne := (isRoot_take_rootLength h).ne_nil
  have htake : (path.take (rootLength path)).head? = path.head? := by
    cases path with
    | nil => rfl
    | cons c rest =>
      cases hlength : rootLength (c :: rest) with
      | zero => simp [hlength] at hne
      | succ n => rfl
  obtain ⟨c, rest, hroot⟩ := List.exists_cons_of_ne_nil hne
  unfold normalForm
  dsimp only
  rw [hroot] at htake ⊢
  exact htake

/-- A slash in front of a path stands in front of its stem. -/
theorem stem_cons_slash {path : Chars} (hne : path ≠ []) :
    stem ('/' :: path) = '/' :: stem path := by
  have hslashed : slashed ('/' :: path) = '/' :: slashed path := rfl
  have hslashedNe : slashed path ≠ [] := by
    rwa [← List.isEmpty_eq_false_iff, isEmpty_slashed, List.isEmpty_eq_false_iff]
  obtain ⟨c, rest, hrest⟩ := List.exists_cons_of_ne_nil hslashedNe
  unfold stem
  rw [hslashed, hrest, List.getLast?_cons_cons]
  split <;> rfl

/-- A name in a relative directory is relative. -/
theorem isRooted_slashed_join {path name : Chars} (h : isRooted (slashed path) = false)
    (hname : IsName name) : isRooted (slashed (join path name)) = false := by
  by_cases hnil : path = []
  · have hjoin : join [] name = slashed name := rfl
    rw [hnil, hjoin, slashed_slashed, slashed_of_not_mem hname.isSegment.noBackslash]
    exact hname.notRooted
  · obtain ⟨start, hstem, hstart⟩ := exists_stem path
    have hslashedStem : slashed (stem path ++ name) = stem path ++ name := by
      apply slashed_of_not_mem
      rw [List.mem_append, not_or]
      refine ⟨?_, hname.isSegment.noBackslash⟩
      unfold stem
      split
      · exact not_mem_slashed path
      · simpa using not_mem_slashed path
    have hne : start ≠ [] := by
      rintro rfl
      rcases hstart with hstart | hstart
      · have hempty := isEmpty_slashed path
        rw [hstart] at hempty
        exact hnil (List.isEmpty_iff.1 hempty.symm)
      · rw [hstart] at h
        exact absurd h (by decide)
    have hrelative : isRooted start = false := by
      rcases hstart with hstart | hstart
      · rwa [← hstart]
      · rw [hstart] at h
        rwa [← isRooted_append_slash hne []]
    rw [join_eq_stem hnil hname, hslashedStem, hstem, List.append_assoc]
    exact (isRooted_append_slash hne name).trans hrelative

/-- A path whose normal form begins with `/` is another spelling of one that does so itself. -/
theorem exists_slash_spelling {path : Chars} (h : (normalize path ['/']).head? = some '/') :
    ∃ rest, normalize ('/' :: rest) ['/'] = normalize path ['/'] ∧
      ∀ name, IsName name →
        normalize (join ('/' :: rest) name) ['/'] = normalize (join path name) ['/'] := by
  by_cases hrooted : isRooted (slashed path) = true
  · have hnormal : normalize path ['/'] = normalForm (slashed path) := by
      unfold normalize
      rw [← join_slashed_right, join_of_isRooted _ hrooted (not_mem_slashed path)]
    rw [hnormal, head?_normalForm hrooted] at h
    obtain ⟨rest, hrest⟩ := List.head?_eq_some_iff.1 h
    refine ⟨rest, ?_, ?_⟩
    · rw [← hrest]
      unfold normalize
      rw [join_slashed_right]
    · intro name _
      rw [← hrest, join_slashed_left]
  · -- A relative path is seen from `/`, and so is what is joined to it.
    have hrelative : isRooted (slashed path) = false := Bool.eq_false_iff.2 hrooted
    have habove : ∀ other : Chars, isRooted (slashed other) = false →
        normalize ('/' :: other) ['/'] = normalize other ['/'] := by
      intro other hother
      unfold normalize
      rw [join_slash_of_relative hother]
      rfl
    refine ⟨path, habove path hrelative, ?_⟩
    intro name hname
    have hjoin : join ('/' :: path) name = '/' :: join path name := by
      by_cases hnil : path = []
      · rw [hnil]
        apply join_slash_of_relative
        rw [slashed_of_not_mem hname.isSegment.noBackslash]
        exact hname.notRooted
      · rw [join_eq_stem (by simp) hname, join_eq_stem hnil hname, stem_cons_slash hnil]
        rfl
    rw [hjoin]
    exact habove _ (isRooted_slashed_join hrelative hname)

/-- A normal path begins with `/` if its folded form does. -/
theorem head?_of_folded {caseSensitive : Bool} {path : Chars} (h : IsNormal path)
    (hslash : (folded caseSensitive path).head? = some '/') : path.head? = some '/' := by
  cases caseSensitive with
  | true => exact hslash
  | false =>
    obtain ⟨root, segments, hroot, -, rfl⟩ := h
    have hletter : ∀ (c : Char) (rest : Chars), c.isAlpha = true →
        (Text.lowercase (c :: rest)).head? ≠ some '/' := by
      intro c rest hc hhead
      rw [Text.lowercase, Text.lowercaseAfter_cons_ascii [] (toNat_lt_of_isAlpha hc),
        List.head?_cons, Option.some.injEq] at hhead
      exact ne_slash_of_isAlpha (isAlpha_toLower hc) hhead
    cases hroot with
    | slash => rfl
    | drive c hc => exact absurd hslash (hletter c _ hc)
    | bare c hc => exact absurd hslash (hletter c _ hc)

/-- Folding keeps a slash at the beginning. -/
theorem head?_folded_slash (caseSensitive : Bool) (rest : Chars) :
    (folded caseSensitive ('/' :: rest)).head? = some '/' := by
  cases caseSensitive with
  | true => rfl
  | false =>
    show (Text.lowercase ('/' :: rest)).head? = some '/'
    rw [Text.lowercase, Text.lowercaseAfter_cons_ascii [] (by decide)]
    rfl

end Chars

namespace Path

variable {path base : String} {caseSensitive : Bool}

/-- A key is normal when it is seen from a normal directory. -/
theorem isNormal_canonical (path : String) (h : IsNormal base) (caseSensitive : Bool) :
    IsNormal (canonical path base caseSensitive) := by
  unfold IsNormal canonical
  rw [String.toList_ofList]
  exact Chars.isNormal_folded caseSensitive (Chars.isNormal_normalize path.toList h)

/-- The key of a path that begins with `/` begins with `/`. -/
theorem isSlashRooted_canonical (h : IsSlashRooted path) (caseSensitive : Bool) :
    IsSlashRooted (canonical path "/" caseSensitive) := by
  obtain ⟨rest, hrest⟩ := h.toList_eq
  have hslashed : Chars.normalize ('/' :: rest) ['/'] =
      Chars.normalForm ('/' :: Chars.slashed rest) := rfl
  unfold IsSlashRooted canonical
  rw [String.toList_ofList, hrest, Chars.canonical_eq_folded]
  show (Chars.folded caseSensitive (Chars.normalize ('/' :: rest) ['/'])).head? = some '/'
  rw [hslashed, Chars.normalForm_slash]
  exact Chars.head?_folded_slash caseSensitive _

/-- A normal path that begins with `/` is plain. -/
theorem isPlain_of_isSlashRooted (h : IsNormal path) (hslash : IsSlashRooted path) :
    IsPlain path := by
  refine ⟨h, ?_⟩
  obtain ⟨segments, hsegments, rfl⟩ := exists_below h hslash
  exact ⟨['/'], segments, .slash, fun piece hpiece => (hsegments piece hpiece).isPiece, by simp,
    toList_below segments⟩

/-- The directory of a normal path that begins with `/` is plain. -/
theorem isPlain_directory_of_isSlashRooted (h : IsNormal path) (hslash : IsSlashRooted path) :
    IsPlain (directory path) := by
  have habove := isSlashRooted_directory hslash
  rcases isNormal_directory h with hempty | hnormal
  · rw [hempty] at habove
    exact absurd habove (by decide)
  · exact isPlain_of_isSlashRooted hnormal habove

/-- A path whose key begins with `/` is another spelling of one that does so itself; a manifest in
it is too. -/
theorem exists_slashRooted_spelling (h : IsSlashRooted (canonical path "/" caseSensitive)) :
    ∃ spelling, IsSlashRooted spelling ∧
      canonical spelling "/" caseSensitive = canonical path "/" caseSensitive ∧
      canonical (join spelling manifestName) "/" caseSensitive =
        canonical (join path manifestName) "/" caseSensitive := by
  have hnormal : Chars.IsNormal (Chars.normalize path.toList ['/']) :=
    Chars.isNormal_normalize path.toList isNormal_root
  unfold IsSlashRooted canonical at h
  rw [String.toList_ofList] at h
  obtain ⟨rest, hrest, hname⟩ := Chars.exists_slash_spelling (Chars.head?_of_folded hnormal h)
  refine ⟨.ofList ('/' :: rest), ?_, ?_, ?_⟩
  · unfold IsSlashRooted
    rw [String.toList_ofList]
    rfl
  · unfold canonical
    rw [String.toList_ofList, Chars.canonical_eq_folded, Chars.canonical_eq_folded]
    exact congrArg (fun form => String.ofList (Chars.folded caseSensitive form)) hrest
  · unfold canonical join
    simp only [String.toList_ofList, Chars.canonical_eq_folded]
    exact congrArg (fun form => String.ofList (Chars.folded caseSensitive form))
      (hname _ isName_manifestName)

/-- The key of the manifest in a directory is the manifest in the key of the directory, if that
begins with `/`. -/
theorem canonical_join_of_slashKey (h : IsSlashRooted (canonical path "/" caseSensitive)) :
    canonical (join path manifestName) "/" caseSensitive =
      join (canonical path "/" caseSensitive) manifestName := by
  obtain ⟨spelling, hspelling, hkey, hmanifest⟩ := exists_slashRooted_spelling h
  rw [← hmanifest, canonical_join_of_isSlashRooted hspelling, hkey]

/-- To contain a path and to be one of its ancestors is the same for normal paths that begin with
`/`. -/
theorem contains_iff_mem_ancestors {other : String} (hpath : IsNormal path)
    (hslash : IsSlashRooted path) (hother : IsNormal other) (hotherSlash : IsSlashRooted other) :
    contains path other = true ↔ path ∈ ancestors other := by
  rw [contains_iff_parts hpath hslash.hasOpenRoot hother hotherSlash.hasOpenRoot,
    mem_ancestors_iff_parts hpath hslash.hasOpenRoot hother hotherSlash.hasOpenRoot]

end Path

end AutoImport
