import AutoImport.PackageLookup
import AutoImport.Proofs.Path.PathKeys

/-!
# Paths of package directories

A package directory is put together from an ancestor, `node_modules` and the name of a package, and
it is remembered under the path of its manifest.  That path forgets which slashes were backslashes
and whether there was one at the end.  Neither matters to the key of the directory, with one
exception: the drives `c:` and `c:/` are two places with one manifest file
(`Path.canonical_of_manifest_eq`).  Only a package whose name is itself a drive is looked for there
(`PackageLookup.isDriveManifest_of_mem_candidates`).
-/

set_option autoImplicit false

namespace AutoImport

namespace Text

/-- A separator at the end of a text gives one more piece, which is empty. -/
theorem splitOn_concat_separator (sep : Char) (text : Chars) :
    splitOn sep (text ++ [sep]) = splitOn sep text ++ [[]] := by
  induction text with
  | nil => simp [splitOn]
  | cons c cs ih =>
    rw [List.cons_append, splitOn, splitOn, ih]
    split
    · rfl
    · cases hpieces : splitOn sep cs with
      | nil => exact absurd hpieces (splitOn_ne_nil sep cs)
      | cons piece pieces => rfl

end Text

namespace Chars

/-- Slashing twice is slashing once. -/
theorem slashed_slashed (path : Chars) : slashed (slashed path) = slashed path :=
  slashed_of_not_mem (not_mem_slashed path)

/-- Slashing leaves an empty path empty, and no other. -/
theorem isEmpty_slashed (path : Chars) : (slashed path).isEmpty = path.isEmpty := by
  cases path <;> rfl

/-- Joining slashes the base, so slashing it before changes nothing. -/
theorem join_slashed_left (base name : Chars) : join (slashed base) name = join base name := by
  unfold join
  dsimp only
  rw [slashed_slashed, isEmpty_slashed]

/-- Joining slashes the name, so slashing it before changes nothing. -/
theorem join_slashed_right (base name : Chars) : join base (slashed name) = join base name := by
  unfold join
  dsimp only
  rw [slashed_slashed]

/-- A directory as the beginning of the paths below it. -/
def stem (path : Chars) : Chars :=
  if (slashed path).getLast? = some '/' then slashed path else slashed path ++ ['/']

/-- A stem is the slashed path with one slash at its end. -/
theorem exists_stem (path : Chars) :
    ∃ start, stem path = start ++ ['/'] ∧
      (slashed path = start ∨ slashed path = start ++ ['/']) := by
  unfold stem
  split
  · rename_i hlast
    obtain ⟨start, hstart⟩ := List.getLast?_eq_some_iff.1 hlast
    exact ⟨start, hstart, Or.inr hstart⟩
  · exact ⟨slashed path, rfl, Or.inl rfl⟩

/-- A name joined to a path follows its stem. -/
theorem join_eq_stem {base name : Chars} (hbase : base ≠ []) (hname : IsName name) :
    join base name = stem base ++ name := by
  have hne : slashed base ≠ [] := by
    rw [← List.isEmpty_eq_false_iff, isEmpty_slashed, List.isEmpty_eq_false_iff]
    exact hbase
  rw [← join_slashed_left, join_name hne (not_mem_slashed base) hname]
  unfold stem
  split
  · rfl
  · rw [List.append_assoc]
    rfl

/-- The stem of a stem is that stem. -/
theorem stem_stem (path : Chars) : stem (stem path) = stem path := by
  have hback : '\\' ∉ stem path := by
    have hback := not_mem_slashed path
    unfold stem
    split
    · exact hback
    · simpa using hback
  have hlast : (stem path).getLast? = some '/' := by
    unfold stem
    split
    · assumption
    · simp
  rw [stem, slashed_of_not_mem hback, if_pos hlast]

/-- A stem is no shorter than its path. -/
theorem length_le_stem (path : Chars) : path.length ≤ (stem path).length := by
  have hlength : (slashed path).length = path.length := List.length_map _
  unfold stem
  split
  · omega
  · rw [List.length_append]
    omega

/-- A stem has a slash. -/
theorem slash_mem_stem (path : Chars) : '/' ∈ stem path := by
  unfold stem
  split
  · rename_i h
    exact List.mem_of_getLast? h
  · simp

/-! ## A slash at the end -/

/-- The root of a path is no longer than the path. -/
theorem rootLength_le (path : Chars) : rootLength path ≤ path.length := by
  fun_cases rootLength path <;> simp

/-- The root of a path shows in its first three characters. -/
theorem rootLength_append_of_length {path : Chars} (h : 3 ≤ path.length) (rest : Chars) :
    rootLength (path ++ rest) = rootLength path := by
  match path with
  | c :: d :: e :: after =>
    by_cases hc : c = '/'
    · subst hc
      rfl
    by_cases hd : d = ':'
    · subst hd
      by_cases he : e = '/'
      · subst he
        show rootLength (c :: ':' :: '/' :: (after ++ rest)) = _
        rw [rootLength.eq_2 c _ hc, rootLength.eq_2 c _ hc]
      · show rootLength (c :: ':' :: (e :: after ++ rest)) = _
        rw [rootLength.eq_3 c _ hc (by simp [he]), rootLength.eq_3 c _ hc (by simp [he])]
    · show rootLength (c :: d :: (e :: after ++ rest)) = _
      rw [rootLength.eq_4 _ (by simp [hc]) (by simp [hd]),
        rootLength.eq_4 _ (by simp [hc]) (by simp [hd])]

/-- A `/` behind a path belongs to its root only if the path is empty or a bare drive. -/
theorem rootLength_append_slash {path : Chars} (hne : path ≠ [])
    (hbare : ∀ c : Char, c.isAlpha = true → path ≠ [c, ':']) (rest : Chars) :
    rootLength (path ++ '/' :: rest) = rootLength path := by
  match path with
  | [] => exact absurd rfl hne
  | [c] =>
    by_cases hc : c = '/'
    · subst hc
      rfl
    · show rootLength (c :: '/' :: rest) = _
      rw [rootLength.eq_4 _ (by simp [hc]) (by simp), rootLength.eq_4 _ (by simp [hc]) (by simp)]
  | [c, d] =>
    by_cases hc : c = '/'
    · subst hc
      rfl
    by_cases hd : d = ':'
    · subst hd
      have halpha : ¬c.isAlpha = true := fun halpha => hbare c halpha rfl
      show rootLength (c :: ':' :: '/' :: rest) = _
      rw [rootLength.eq_2 c _ hc, rootLength.eq_3 c _ hc (by simp), if_neg halpha, if_neg halpha]
    · show rootLength (c :: d :: '/' :: rest) = _
      rw [rootLength.eq_4 _ (by simp [hc]) (by simp [hd]),
        rootLength.eq_4 _ (by simp [hc]) (by simp [hd])]
  | c :: d :: e :: after => exact rootLength_append_of_length (by simp) _

/-- A `/` at the end does not change the normal form, unless it makes a drive root of a drive. -/
theorem normalForm_concat_slash {path : Chars} (hne : path ≠ [])
    (hbare : ∀ c : Char, c.isAlpha = true → path ≠ [c, ':']) :
    normalForm (path ++ ['/']) = normalForm path := by
  have hroot := rootLength_append_slash hne hbare []
  have hle := rootLength_le path
  unfold normalForm
  dsimp only
  rw [hroot, List.take_append_of_le_length hle, List.drop_append_of_le_length hle,
    Text.splitOn_concat_separator]
  unfold collapse
  rw [List.foldl_append]
  rfl

/-- Only a drive has another normal form with a `/` at its end. -/
theorem normalize_stem {path : Chars} (hne : path ≠ [])
    (hdrive : ∀ c : Char, c.isAlpha = true → stem path ≠ [c, ':', '/']) :
    normalize (stem path) ['/'] = normalize path ['/'] := by
  have hslashed : normalize (slashed path) ['/'] = normalize path ['/'] := by
    unfold normalize
    rw [join_slashed_right]
  rw [← hslashed]
  unfold stem at hdrive ⊢
  split
  · rfl
  · rename_i hlast
    rw [if_neg hlast] at hdrive
    have hback := not_mem_slashed path
    have hne' : slashed path ≠ [] := by
      rw [← List.isEmpty_eq_false_iff, isEmpty_slashed, List.isEmpty_eq_false_iff]
      exact hne
    generalize slashed path = path at *
    have hbare : ∀ c : Char, c.isAlpha = true → path ≠ [c, ':'] := by
      rintro c hc rfl
      exact hdrive c hc rfl
    have hbackSlash : '\\' ∉ path ++ ['/'] := by simpa using hback
    have hrooted : isRooted (path ++ ['/']) = isRooted path := by
      unfold isRooted
      rw [rootLength_append_slash hne' hbare []]
    unfold normalize
    cases hr : isRooted path with
    | true =>
      rw [join_of_isRooted _ (hrooted.trans hr) hbackSlash, join_of_isRooted _ hr hback]
      exact normalForm_concat_slash hne' hbare
    | false =>
      have hjoin : ∀ rest : Chars, rest ≠ [] → '\\' ∉ rest → isRooted rest = false →
          join ['/'] rest = '/' :: rest := by
        intro rest hrest hb hunrooted
        unfold join
        dsimp only
        rw [slashed_of_not_mem hb, hunrooted, List.isEmpty_eq_false_iff.2 hrest]
        rfl
      rw [hjoin _ (by simp) hbackSlash (hrooted.trans hr), hjoin _ hne' hback hr]
      refine @normalForm_concat_slash ('/' :: path) (by simp) ?_
      intro c hc h
      exact ne_slash_of_isAlpha hc (List.cons.inj h).1.symm

/-- A path whose stem is a drive root begins with a root. -/
theorem isRooted_of_stem {path : Chars} {c : Char} (hc : c.isAlpha = true)
    (h : stem path = [c, ':', '/']) : isRooted (slashed path) = true := by
  unfold stem at h
  split at h
  · rw [h]
    exact isRooted_append (.drive c hc) []
  · have hslashed : slashed path = [c, ':'] := by
      have hparts : slashed path ++ ['/'] = [c, ':'] ++ ['/'] := h
      exact List.append_cancel_right hparts
    rw [hslashed]
    exact isRooted_append (.bare c hc) []

/-- Joining a name that is not rooted makes the path no shorter. -/
theorem length_le_join {base name : Chars} (hbase : base ≠ [])
    (hname : isRooted (slashed name) = false) : base.length ≤ (join base name).length := by
  have hlength : (slashed base).length = base.length := List.length_map _
  unfold join
  dsimp only
  rw [hname, List.isEmpty_eq_false_iff.2 hbase]
  simp only [Bool.or_self, Bool.false_eq_true, if_false]
  split
  · omega
  · split
    · rw [List.length_append]
      omega
    · rw [List.length_append]
      omega

end Chars

namespace Path

/-- The path of the manifest of a drive root. -/
def IsDriveManifest (fileName : String) : Prop :=
  ∃ c : Char, c.isAlpha = true ∧ fileName.toList = c :: ':' :: '/' :: manifestName.toList

/-- The manifest of a directory has the directory's stem before its name. -/
theorem toList_join_manifestName {directory : String} (h : directory ≠ "") :
    (join directory manifestName).toList = Chars.stem directory.toList ++ manifestName.toList := by
  unfold join
  rw [String.toList_ofList]
  exact Chars.join_eq_stem (fun hnil => h (String.toList_eq_nil_iff.1 hnil)) isName_manifestName

/-- Joining slashes the directory, so slashing it before changes nothing. -/
theorem join_slashed_left (directory name : String) :
    join (slashed directory) name = join directory name := by
  unfold join slashed
  rw [String.toList_ofList, Chars.join_slashed_left]

/-- A slashed path has the key of the path. -/
theorem canonical_slashed (path base : String) (caseSensitive : Bool) :
    canonical (slashed path) base caseSensitive = canonical path base caseSensitive := by
  unfold canonical slashed Chars.canonical Chars.normalize
  rw [String.toList_ofList, Chars.join_slashed_right]

/-- The stem of a directory whose manifest is a drive's is that drive's root. -/
theorem stem_eq_of_isDriveManifest {directory : String} (hne : directory ≠ "")
    (h : IsDriveManifest (join directory manifestName)) :
    ∃ c : Char, c.isAlpha = true ∧ Chars.stem directory.toList = [c, ':', '/'] := by
  obtain ⟨c, hc, hfile⟩ := h
  rw [toList_join_manifestName hne] at hfile
  have hparts : Chars.stem directory.toList ++ manifestName.toList =
      [c, ':', '/'] ++ manifestName.toList := hfile
  exact ⟨c, hc, List.append_cancel_right hparts⟩

/-- What shares its manifest file with a directory is a directory too. -/
theorem ne_empty_of_manifest_eq {first second : String} (hfirst : first ≠ "")
    (h : join first manifestName = join second manifestName) : second ≠ "" := by
  rintro rfl
  have hfile := toList_join_manifestName hfirst
  have hslash := Chars.slash_mem_stem first.toList
  have hmem : '/' ∈ (join first manifestName).toList := by
    rw [hfile]
    exact List.mem_append_left _ hslash
  rw [h] at hmem
  exact absurd hmem (by decide)

/-- Two directories with one manifest file have one key, unless they are drives. -/
theorem canonical_of_manifest_eq {first second : String} (hfirst : first ≠ "")
    (h : join first manifestName = join second manifestName)
    (hdrive : ¬IsDriveManifest (join first manifestName)) (caseSensitive : Bool) :
    canonical first "/" caseSensitive = canonical second "/" caseSensitive := by
  have hsecond := ne_empty_of_manifest_eq hfirst h
  have hfile := toList_join_manifestName hfirst
  have hstem : Chars.stem first.toList = Chars.stem second.toList := by
    have hfile' := toList_join_manifestName hsecond
    rw [← h, hfile] at hfile'
    exact List.append_cancel_right hfile'
  have hno : ∀ c : Char, c.isAlpha = true → Chars.stem first.toList ≠ [c, ':', '/'] := by
    intro c hc hc'
    refine hdrive ⟨c, hc, ?_⟩
    rw [hfile, hc']
    rfl
  have hnormal : Chars.normalize first.toList ['/'] = Chars.normalize second.toList ['/'] := by
    rw [← Chars.normalize_stem (fun hnil => hfirst (String.toList_eq_nil_iff.1 hnil)) hno,
      ← Chars.normalize_stem (fun hnil => hsecond (String.toList_eq_nil_iff.1 hnil)) (hstem ▸ hno),
      hstem]
  unfold canonical Chars.canonical
  show String.ofList (if caseSensitive then Chars.normalize first.toList ['/']
    else Text.lowercase (Chars.normalize first.toList ['/'])) = _
  rw [hnormal]
  rfl

/-- A directory of more than three characters does not have a drive's manifest. -/
theorem not_isDriveManifest_of_length {directory : String} (hne : directory ≠ "")
    (h : 3 < directory.length) : ¬IsDriveManifest (join directory manifestName) := by
  intro hdrive
  obtain ⟨c, -, hstem⟩ := stem_eq_of_isDriveManifest hne hdrive
  have hlength := Chars.length_le_stem directory.toList
  rw [hstem, String.length_toList] at hlength
  simp only [List.length_cons, List.length_nil] at hlength
  omega

/-- No ancestor is empty. -/
theorem ancestors_ne_empty {path ancestor : String} (h : ancestor ∈ ancestors path) :
    ancestor ≠ "" := by
  obtain ⟨chars, hchars, rfl⟩ := List.mem_map.1 h
  have hne : chars ≠ [] := by
    generalize path.toList = path at hchars
    fun_induction Chars.ancestors path with
    | case1 path hempty => simp at hchars
    | case2 path hempty hshorter ih =>
      rcases List.mem_cons.1 hchars with rfl | hmem
      · rintro rfl
        simp at hempty
      · exact ih hmem
    | case3 path hempty hshorter =>
      rw [List.mem_singleton.1 hchars]
      rintro rfl
      simp at hempty
  intro hempty
  exact hne (String.ofList_eq_empty_iff.1 hempty)

end Path

namespace PackageLookup

/-- A package whose name begins with a root is looked for at that place. -/
theorem eq_slashed_of_mem_candidates {packageName directory candidate : String}
    (hrooted : Path.isRooted (Path.slashed packageName) = true)
    (h : candidate ∈ candidates packageName directory) : candidate = Path.slashed packageName := by
  obtain ⟨ancestor, -, rfl⟩ := List.mem_map.1 h
  unfold Path.isRooted Path.slashed at hrooted
  rw [String.toList_ofList] at hrooted
  unfold Path.join Path.slashed
  rw [← Chars.join_slashed_right,
    Chars.join_of_isRooted _ hrooted (Chars.not_mem_slashed packageName.toList)]

/-- A `node_modules` directory has more characters than a drive. -/
theorem packages_ne_empty {ancestor : String} (h : ancestor ≠ "") :
    3 < (Path.join ancestor packagesName).length := by
  have hname : Chars.IsName packagesName.toList :=
    ⟨⟨⟨by decide, by decide⟩, by decide, by decide, by decide⟩, by decide⟩
  unfold Path.join
  rw [← String.length_toList, String.toList_ofList,
    Chars.join_eq_stem (fun hnil => h (String.toList_eq_nil_iff.1 hnil)) hname, List.length_append]
  have hlength : packagesName.toList.length = 12 := by decide
  omega

/-- Any other package is looked for in a directory with a longer path than that of a drive. -/
theorem length_of_mem_candidates {packageName directory candidate : String}
    (hrooted : Path.isRooted (Path.slashed packageName) = false)
    (h : candidate ∈ candidates packageName directory) : 3 < candidate.length := by
  obtain ⟨ancestor, hancestor, rfl⟩ := List.mem_map.1 h
  have hne := Path.ancestors_ne_empty (List.mem_filter.1 hancestor).1
  have hpackages := packages_ne_empty hne
  generalize Path.join ancestor packagesName = packages at hpackages
  unfold Path.isRooted Path.slashed at hrooted
  rw [String.toList_ofList] at hrooted
  have hbase : packages.toList ≠ [] := by
    intro hnil
    rw [← String.length_toList, hnil] at hpackages
    exact absurd hpackages (by simp)
  have hle := Chars.length_le_join hbase hrooted
  unfold Path.join
  rw [← String.length_toList, String.toList_ofList]
  rw [String.length_toList] at hle
  omega

/-- No candidate directory is empty. -/
theorem ne_empty_of_mem_candidates {packageName directory candidate : String}
    (h : candidate ∈ candidates packageName directory) : candidate ≠ "" := by
  cases hrooted : Path.isRooted (Path.slashed packageName) with
  | true =>
    rw [eq_slashed_of_mem_candidates hrooted h]
    intro hempty
    rw [hempty] at hrooted
    exact absurd hrooted (by decide)
  | false =>
    intro hempty
    have hlength := length_of_mem_candidates hrooted h
    rw [hempty] at hlength
    exact absurd hlength (by decide)

/-- The manifest of a drive root is looked for only if the name of the package is a drive. -/
theorem isDriveManifest_of_mem_candidates {packageName directory candidate : String}
    (h : candidate ∈ candidates packageName directory)
    (hdrive : Path.IsDriveManifest (Path.join candidate manifestName)) :
    candidate = Path.slashed packageName := by
  cases hrooted : Path.isRooted (Path.slashed packageName) with
  | true => exact eq_slashed_of_mem_candidates hrooted h
  | false =>
    have hlength := length_of_mem_candidates hrooted h
    exact absurd hdrive
      (Path.not_isDriveManifest_of_length (ne_empty_of_mem_candidates h) hlength)

end PackageLookup

end AutoImport
