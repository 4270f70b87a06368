import AutoImport.Limits
import AutoImport.Proofs.Path.NormalPaths

/-!
# Keys of paths

The key of a path is its normal form, in small letters where case is ignored.  Keys are tidy, and
taking the key of a file commutes with walking through directories: the key of a file in a normal
directory is the file in the key of the directory (`canonical_join`), and a key with a given base
name is that name in the directory of the key (`join_directory_of_baseName`).  Every ancestor of a
normal path is normal (`isNormal_of_mem_ancestors`).
-/

set_option autoImplicit false

namespace AutoImport

namespace Chars

/-- A segment that does not begin with a drive, so that it can be joined to a directory. -/
structure IsName (name : Chars) : Prop where
  isSegment : IsSegment name
  notRooted : isRooted name = false

/-- The check of the last character asks whether it is a slash. -/
theorem isSuffixOf_slash (path : Chars) :
    ['/'].isSuffixOf path = true ↔ path.getLast? = some '/' := by
  rw [List.isSuffixOf_iff_suffix]
  constructor
  · rintro ⟨start, rfl⟩
    simp
  · intro h
    obtain ⟨start, rfl⟩ := List.getLast?_eq_some_iff.1 h
    exact ⟨start, rfl⟩

/-- A relative path is put behind a directory, with a `/` unless there is one. -/
theorem join_relative {base path : Chars} (hbase : base ≠ []) (hback : '\\' ∉ base)
    (hpath : path ≠ []) (hpathBack : '\\' ∉ path) (hrelative : isRooted path = false) :
    join base path = if base.getLast? = some '/' then base ++ path else base ++ '/' :: path := by
  have hempty : base.isEmpty = false := List.isEmpty_eq_false_iff.2 hbase
  have hsome : path.isEmpty = false := List.isEmpty_eq_false_iff.2 hpath
  unfold join
  dsimp only
  rw [slashed_of_not_mem hpathBack, slashed_of_not_mem hback, hempty, hsome, hrelative]
  simp only [Bool.or_self, Bool.false_eq_true, if_false, isSuffixOf_slash]

/-- A name joined to a path goes behind its last slash, or behind a slash that is added. -/
theorem join_name {base name : Chars} (hbase : base ≠ []) (hback : '\\' ∉ base)
    (hname : IsName name) :
    join base name = if base.getLast? = some '/' then base ++ name else base ++ '/' :: name :=
  join_relative hbase hback hname.isSegment.isPiece.1 hname.isSegment.noBackslash hname.notRooted

/-- Joining a name to a tidy path adds a piece; a bare drive gets its `/` first. -/
theorem join_build {root : Chars} (hroot : IsRoot root) {pieces : List Chars}
    (hpieces : ∀ piece ∈ pieces, IsPiece piece) (hback : '\\' ∉ build root pieces)
    {name : Chars} (hname : IsName name) :
    (¬(pieces = [] ∧ '/' ∉ root) ∧
        join (build root pieces) name = build root (pieces ++ [name])) ∨
      (pieces = [] ∧ '/' ∉ root ∧ IsRoot (root ++ ['/']) ∧
        join (build root pieces) name = build (root ++ ['/']) [name]) := by
  have hne : build root pieces ≠ [] := List.append_ne_nil_of_left_ne_nil hroot.ne_nil _
  rw [join_name hne hback hname]
  rcases List.eq_nil_or_concat pieces with rfl | ⟨start, last, rfl⟩
  · have hbuild : build root [] = root := List.append_nil root
    rw [hbuild]
    cases hroot with
    | slash => exact Or.inl ⟨by simp, rfl⟩
    | drive c hc => exact Or.inl ⟨by simp, rfl⟩
    | bare c hc =>
      refine Or.inr ⟨rfl, ?_, .drive c hc, rfl⟩
      simp [(ne_slash_of_isAlpha hc).symm]
  · rw [List.concat_eq_append] at hpieces ⊢
    rw [if_neg (getLast?_build_concat root start (hpieces last (by simp)))]
    exact Or.inl ⟨by simp, (build_concat root (by simp) name).symm⟩

/-- A name in a normal directory is a normal path. -/
theorem isNormal_join {base name : Chars} (hbase : IsNormal base) (hname : IsName name) :
    IsNormal (join base name) := by
  have hback := hbase.noBackslash
  obtain ⟨root, segments, hroot, hsegments, rfl⟩ := hbase
  rcases join_build hroot (fun s hs => (hsegments s hs).isPiece) hback hname with
    ⟨-, hjoin⟩ | ⟨-, -, hdrive, hjoin⟩
  · refine ⟨root, segments ++ [name], hroot, ?_, hjoin⟩
    intro s hs
    rcases List.mem_append.1 hs with hs | hs
    · exact hsegments s hs
    · rw [List.mem_singleton.1 hs]
      exact hname.isSegment
  · refine ⟨root ++ ['/'], [name], hdrive, ?_, hjoin⟩
    intro s hs
    rw [List.mem_singleton.1 hs]
    exact hname.isSegment

/-- The base name of a name in a directory is the name. -/
theorem baseName_join {path name : Chars} (hpath : IsTidy path) (hback : '\\' ∉ path)
    (hname : IsName name) : baseName (join path name) = name := by
  obtain ⟨root, pieces, hroot, hpieces, rfl⟩ := hpath
  rcases join_build hroot hpieces hback hname with ⟨hopen, hjoin⟩ | ⟨-, -, hdrive, hjoin⟩
  · have hall : ∀ piece ∈ pieces ++ [name], IsPiece piece := by
      intro piece hp
      rcases List.mem_append.1 hp with hp | hp
      · exact hpieces piece hp
      · rw [List.mem_singleton.1 hp]
        exact hname.isSegment.isPiece
    rw [hjoin, baseName_build hroot hall, if_neg hopen]
  · have hall : ∀ piece ∈ [] ++ [name], IsPiece piece := by
      intro piece hp
      rw [List.mem_singleton.1 hp]
      exact hname.isSegment.isPiece
    have hbase := baseName_build hdrive hall
    rw [List.nil_append] at hbase
    rw [hjoin, hbase, if_neg (by simp)]

/-- A tidy path with a given base name is that name in its directory. -/
theorem join_directory_of_baseName {path name : Chars} (hpath : IsTidy path)
    (hback : '\\' ∉ path) (hname : IsName name) (hbase : baseName path = name) :
    join (directory path) name = path := by
  obtain ⟨root, pieces, hroot, hpieces, rfl⟩ := hpath
  rcases List.eq_nil_or_concat pieces with rfl | ⟨start, last, rfl⟩
  · have hbuild : build root [] = root := List.append_nil root
    rw [hbuild, baseName_root hroot] at hbase
    exact absurd hbase.symm hname.isSegment.isPiece.1
  · rw [List.concat_eq_append] at hpieces hback hbase ⊢
    rw [baseName_build hroot hpieces] at hbase
    split at hbase
    · have hrooted := isRooted_append hroot last
      rw [hbase, hname.notRooted] at hrooted
      exact absurd hrooted (by simp)
    · rename_i hopen
      subst hbase
      rw [directory_build hroot hpieces]
      have hstart : ∀ piece ∈ start, IsPiece piece := fun p hp => hpieces p (by simp [hp])
      by_cases hs : start = []
      · subst hs
        have hslash : '/' ∈ root := by simpa using hopen
        have hbackRoot : '\\' ∉ build root [] := by
          rw [build, Text.joinWith, List.append_nil]
          exact hroot.noBackslash
        rw [if_pos rfl, if_pos hslash]
        rcases join_build hroot hstart hbackRoot hname with ⟨-, hjoin⟩ | ⟨-, hbare, -⟩
        · rwa [build, Text.joinWith, List.append_nil] at hjoin
        · exact absurd hslash hbare
      · have hbackStart : '\\' ∉ build root start := by
          rw [build_concat root hs] at hback
          exact fun hm => hback (List.mem_append_left _ hm)
        rw [if_neg hs]
        rcases join_build hroot hstart hbackStart hname with ⟨-, hjoin⟩ | ⟨hnil, -⟩
        · exact hjoin
        · exact absurd hnil hs

/-! ## Ancestors -/

/-- The directory of a normal path is normal, or nothing. -/
theorem isNormal_directory {path : Chars} (h : IsNormal path) :
    directory path = [] ∨ IsNormal (directory path) := by
  obtain ⟨root, segments, hroot, hsegments, rfl⟩ := h
  have hrootNormal : IsNormal root := ⟨root, [], hroot, by simp, (List.append_nil root).symm⟩
  rcases List.eq_nil_or_concat segments with rfl | ⟨start, last, rfl⟩
  · have hbuild : build root [] = root := List.append_nil root
    rw [hbuild, directory_root hroot]
    exact Or.inr hrootNormal
  · rw [List.concat_eq_append] at hsegments ⊢
    rw [directory_build hroot fun s hs => (hsegments s hs).isPiece]
    split
    · split
      · exact Or.inr hrootNormal
      · exact Or.inl rfl
    · exact Or.inr ⟨root, start, hroot, fun s hs => hsegments s (by simp [hs]), rfl⟩

/-- Everything above a normal path is normal. -/
theorem isNormal_of_mem_ancestors {path ancestor : Chars} (h : path = [] ∨ IsNormal path)
    (hmem : ancestor ∈ ancestors path) : IsNormal ancestor := by
  fun_induction ancestors path with
  | case1 path hempty => simp at hmem
  | case2 path hempty hshorter ih =>
    have hnormal : IsNormal path := by
      rcases h with rfl | h
      · simp at hempty
      · exact h
    rcases List.mem_cons.1 hmem with rfl | hmem
    · exact hnormal
    · exact ih (isNormal_directory hnormal) hmem
  | case3 path hempty hshorter =>
    rw [List.mem_singleton.1 hmem]
    rcases h with rfl | h
    · simp at hempty
    · exact h

/-! ## Keys -/

/-- A path as it is compared: as it is, or in small letters. -/
def folded (caseSensitive : Bool) (path : Chars) : Chars :=
  if caseSensitive then path else Text.lowercase path

/-- A key is a normal form with its letters folded. -/
theorem canonical_eq_folded (file base : Chars) (caseSensitive : Bool) :
    canonical file base caseSensitive = folded caseSensitive (normalize file base) := rfl

/-- There is nothing to fold in the empty path. -/
theorem folded_nil (caseSensitive : Bool) : folded caseSensitive [] = [] := by
  cases caseSensitive <;> rfl

/-- A letter of a drive is an ASCII character. -/
theorem toNat_lt_of_isAlpha {c : Char} (h : c.isAlpha = true) : c.toNat < 0x80 := by
  unfold Char.isAlpha Char.isUpper Char.isLower at h
  simp only [Bool.or_eq_true, Bool.and_eq_true, decide_eq_true_eq] at h
  rcases h with ⟨-, h⟩ | ⟨-, h⟩
  · have : c.toNat ≤ 90 := UInt32.le_iff_toNat_le.1 h
    omega
  · have : c.toNat ≤ 122 := UInt32.le_iff_toNat_le.1 h
    omega

/-- The small form of a drive's letter is a letter. -/
theorem isAlpha_toLower {c : Char} (h : c.isAlpha = true) : c.toLower.isAlpha = true := by
  have hascii : ∀ n, n < 0x80 → (Char.ofNat n).isAlpha = true →
      (Char.ofNat n).toLower.isAlpha = true := by decide
  have := hascii c.toNat (toNat_lt_of_isAlpha h)
  rw [Char.ofNat_toNat] at this
  exact this h

/-- Pieces stay pieces in small letters, wherever they stand. -/
theorem isPiece_lowercaseAfter (before : Chars) {piece : Chars} (h : IsPiece piece) :
    IsPiece (Text.lowercaseAfter before piece) :=
  ⟨Text.lowercaseAfter_ne_nil before h.1, fun hm =>
    h.2 ((Text.mem_lowercaseAfter_iff (by decide) before piece).1 hm)⟩

/-- What small letters keep of a piece, they keep of joined pieces. -/
theorem lowercaseAfter_joinWith_pieces {P : Chars → Prop}
    (hP : ∀ before piece, P piece → P (Text.lowercaseAfter before piece)) (before : Chars)
    {pieces : List Chars} (h : ∀ piece ∈ pieces, P piece) :
    ∃ small : List Chars, (∀ piece ∈ small, P piece) ∧
      Text.lowercaseAfter before (Text.joinWith '/' pieces) = Text.joinWith '/' small := by
  cases pieces with
  | nil => exact ⟨[], by simp, rfl⟩
  | cons piece rest =>
    refine ⟨Text.lowercaseAfter before piece :: rest.map Text.lowercase, ?_,
      Text.lowercaseAfter_joinWith before piece rest⟩
    intro small hsmall
    rcases List.mem_cons.1 hsmall with rfl | hsmall
    · exact hP before piece (h piece List.mem_cons_self)
    · obtain ⟨other, hother, rfl⟩ := List.mem_map.1 hsmall
      exact hP [] other (h other (List.mem_cons_of_mem piece hother))

/-- In small letters a root is followed by as good pieces as before. -/
theorem exists_lowercase_build {P : Chars → Prop}
    (hP : ∀ before piece, P piece → P (Text.lowercaseAfter before piece)) {root : Chars}
    (hroot : IsRoot root) {pieces : List Chars} (h : ∀ piece ∈ pieces, P piece) :
    ∃ smallRoot small, IsRoot smallRoot ∧ (∀ piece ∈ small, P piece) ∧
      Text.lowercase (build root pieces) = build smallRoot small := by
  have hcolon : (':' : Char).toNat < 0x80 := by decide
  cases hroot with
  | slash =>
    obtain ⟨small, hsmall, heq⟩ := lowercaseAfter_joinWith_pieces hP [] h
    refine ⟨['/'], small, .slash, hsmall, ?_⟩
    show Text.lowercaseAfter [] ('/' :: Text.joinWith '/' pieces) = _
    rw [Text.lowercaseAfter_slash_cons, Text.lowercase, heq]
    rfl
  | drive c hc =>
    obtain ⟨small, hsmall, heq⟩ := lowercaseAfter_joinWith_pieces hP [] h
    refine ⟨[c.toLower, ':', '/'], small, .drive _ (isAlpha_toLower hc), hsmall, ?_⟩
    show Text.lowercaseAfter [] (c :: ':' :: '/' :: Text.joinWith '/' pieces) = _
    rw [Text.lowercaseAfter_cons_ascii [] (toNat_lt_of_isAlpha hc),
      Text.lowercaseAfter_cons_ascii _ hcolon, Text.lowercaseAfter_slash_cons, Text.lowercase, heq]
    rfl
  | bare c hc =>
    obtain ⟨small, hsmall, heq⟩ := lowercaseAfter_joinWith_pieces hP [':', c] h
    refine ⟨[c.toLower, ':'], small, .bare _ (isAlpha_toLower hc), hsmall, ?_⟩
    show Text.lowercaseAfter [] (c :: ':' :: Text.joinWith '/' pieces) = _
    rw [Text.lowercaseAfter_cons_ascii [] (toNat_lt_of_isAlpha hc),
      Text.lowercaseAfter_cons_ascii _ hcolon, heq]
    rfl

/-- A tidy path is tidy in small letters. -/
theorem IsTidy.lowercase {path : Chars} (h : IsTidy path) : IsTidy (Text.lowercase path) := by
  obtain ⟨root, pieces, hroot, hpieces, rfl⟩ := h
  obtain ⟨smallRoot, small, hsmallRoot, hsmall, heq⟩ := exists_lowercase_build
    (fun before piece => isPiece_lowercaseAfter before) hroot hpieces
  exact ⟨smallRoot, small, hsmallRoot, hsmall, heq⟩

/-- A normal path stays tidy when its letters are folded. -/
theorem isTidy_folded (caseSensitive : Bool) {path : Chars} (h : IsNormal path) :
    IsTidy (folded caseSensitive path) := by
  unfold folded
  split
  · exact h.isTidy
  · exact h.isTidy.lowercase

/-- Folding letters adds no backslash. -/
theorem noBackslash_folded (caseSensitive : Bool) {path : Chars} (h : '\\' ∉ path) :
    '\\' ∉ folded caseSensitive path := by
  unfold folded
  split
  · exact h
  · exact fun hm => h ((Text.mem_lowercaseAfter_iff (by decide) [] path).1 hm)

/-- The small form of a name in a directory is the name in the small form of the directory. -/
theorem folded_join (caseSensitive : Bool) {base name : Chars} (hbase : base ≠ [])
    (hback : '\\' ∉ base) (hname : IsName name) (hsmall : Text.lowercase name = name) :
    folded caseSensitive (join base name) = join (folded caseSensitive base) name := by
  cases caseSensitive with
  | true => rfl
  | false =>
    show Text.lowercase (join base name) = join (Text.lowercase base) name
    have hne : Text.lowercase base ≠ [] := Text.lowercaseAfter_ne_nil [] hbase
    rw [join_name hbase hback hname, join_name hne (noBackslash_folded false hback) hname]
    by_cases hslash : base.getLast? = some '/'
    · obtain ⟨start, rfl⟩ := List.getLast?_eq_some_iff.1 hslash
      have hstart : Text.lowercase (start ++ ['/']) = Text.lowercase start ++ ['/'] :=
        Text.lowercaseAfter_append_slash [] start []
      rw [if_pos hslash, hstart, if_pos (by simp), List.append_assoc, List.append_assoc]
      show Text.lowercaseAfter [] (start ++ '/' :: name) = Text.lowercase start ++ '/' :: name
      rw [Text.lowercaseAfter_append_slash, hsmall]
      rfl
    · rw [if_neg hslash, if_neg (Text.getLast?_lowercase_ne_slash hslash)]
      show Text.lowercaseAfter [] (base ++ '/' :: name) = Text.lowercase base ++ '/' :: name
      rw [Text.lowercaseAfter_append_slash, hsmall]
      rfl

/-- The key of a name in a normal directory is the name in the key of the directory. -/
theorem canonical_join {directory name : Chars} (h : IsNormal directory) (hname : IsName name)
    (hsmall : Text.lowercase name = name) (base : Chars) (caseSensitive : Bool) :
    canonical (join directory name) base caseSensitive =
      join (canonical directory base caseSensitive) name := by
  rw [canonical_eq_folded, canonical_eq_folded, normalize_of_isNormal base (isNormal_join h hname),
    normalize_of_isNormal base h]
  exact folded_join caseSensitive h.isTidy.ne_nil h.noBackslash hname hsmall

end Chars

namespace Path

/-- A root followed by segments, none of them empty, `.`, `..` or with a backslash. -/
def IsNormal (path : String) : Prop :=
  Chars.IsNormal path.toList

/-- The path `/` is normal. -/
theorem isNormal_root : IsNormal "/" :=
  ⟨['/'], [], .slash, by simp, rfl⟩

/-- Seen from a normal directory, every path has a normal form. -/
theorem isNormal_normalize (file : String) {base : String} (h : IsNormal base) :
    IsNormal (normalize file base) := by
  unfold IsNormal normalize
  rw [String.toList_ofList]
  exact Chars.isNormal_normalize file.toList h

/-- A normal path is its own normal form, wherever it is seen from. -/
theorem normalize_of_isNormal (base : String) {path : String} (h : IsNormal path) :
    normalize path base = path := by
  unfold normalize
  rw [Chars.normalize_of_isNormal base.toList h, String.ofList_toList]

/-- The key of a path is that of its normal form. -/
theorem canonical_normalize (file : String) {base : String} (h : IsNormal base)
    (caseSensitive : Bool) :
    canonical (normalize file base) base caseSensitive = canonical file base caseSensitive := by
  have hnormal := Chars.normalize_of_isNormal base.toList
    (Chars.isNormal_normalize file.toList h)
  unfold canonical normalize
  rw [String.toList_ofList, Chars.canonical_eq_folded, hnormal]
  rfl

/-- A name joined to a normal path makes a normal path. -/
theorem isNormal_join {base name : String} (hbase : IsNormal base)
    (hname : Chars.IsName name.toList) : IsNormal (join base name) := by
  unfold IsNormal join
  rw [String.toList_ofList]
  exact Chars.isNormal_join hbase hname

/-- The directory of a normal path is normal, unless it is empty. -/
theorem isNormal_directory {path : String} (h : IsNormal path) :
    directory path = "" ∨ IsNormal (directory path) := by
  unfold IsNormal directory
  rw [String.toList_ofList]
  refine (Chars.isNormal_directory h).imp (fun hnil => ?_) id
  rw [hnil]

/-- Everything above a normal path is normal. -/
theorem isNormal_of_mem_ancestors {path ancestor : String} (h : path = "" ∨ IsNormal path)
    (hmem : ancestor ∈ ancestors path) : IsNormal ancestor := by
  obtain ⟨chars, hchars, rfl⟩ := List.mem_map.1 hmem
  unfold IsNormal
  rw [String.toList_ofList]
  refine Chars.isNormal_of_mem_ancestors (h.imp (fun hempty => ?_) id) hchars
  rw [hempty]
  rfl

/-- The ancestors of a normal path begin with the path. -/
theorem ancestors_eq_cons {path : String} (h : IsNormal path) :
    ∃ rest, ancestors path = path :: rest := by
  have hne : path.toList.isEmpty = false := by
    rw [List.isEmpty_eq_false_iff]
    exact Chars.IsTidy.ne_nil (Chars.IsNormal.isTidy h)
  unfold ancestors
  rw [Chars.ancestors, hne]
  simp only [Bool.false_eq_true, if_false]
  split
  · rw [List.map_cons, String.ofList_toList]
    exact ⟨_, rfl⟩
  · rw [List.map_cons, String.ofList_toList]
    exact ⟨_, rfl⟩

/-- The manifest name can be joined to a directory. -/
theorem isName_manifestName : Chars.IsName manifestName.toList :=
  ⟨⟨⟨by decide, by decide⟩, by decide, by decide, by decide⟩, by decide⟩

/-- The name that anchors a project can be joined to its directory. -/
theorem isName_projectAnchor : Chars.IsName projectAnchor.toList :=
  ⟨⟨⟨by decide, by decide⟩, by decide, by decide, by decide⟩, by decide⟩

/-- The key of the manifest in a normal directory is the manifest in the key of the directory. -/
theorem canonical_join_manifestName {directory : String} (h : IsNormal directory) (base : String)
    (caseSensitive : Bool) :
    canonical (join directory manifestName) base caseSensitive =
      join (canonical directory base caseSensitive) manifestName := by
  unfold canonical join
  rw [String.toList_ofList, String.toList_ofList,
    Chars.canonical_join h isName_manifestName (by decide)]

/-- The key of the manifest in a normal directory has the name of a manifest. -/
theorem baseName_canonical_join {directory : String} (h : IsNormal directory) (base : String)
    (caseSensitive : Bool) :
    baseName (canonical (join directory manifestName) base caseSensitive) = manifestName := by
  have hfolded : Chars.canonical directory.toList base.toList caseSensitive =
      Chars.folded caseSensitive directory.toList := by
    rw [Chars.canonical_eq_folded, Chars.normalize_of_isNormal base.toList h]
  unfold baseName canonical join
  rw [String.toList_ofList, String.toList_ofList,
    Chars.canonical_join h isName_manifestName (by decide), hfolded,
    Chars.baseName_join (Chars.isTidy_folded caseSensitive h)
      (Chars.noBackslash_folded caseSensitive h.noBackslash) isName_manifestName,
    String.ofList_toList]

/-- The key of a manifest is the manifest in the directory of the key. -/
theorem join_directory_of_baseName {file base : String} (hbase : IsNormal base)
    {caseSensitive : Bool} (h : baseName (canonical file base caseSensitive) = manifestName) :
    join (directory (canonical file base caseSensitive)) manifestName =
      canonical file base caseSensitive := by
  have hnormal := Chars.isNormal_normalize file.toList hbase
  have hname : Chars.baseName (Chars.canonical file.toList base.toList caseSensitive) =
      manifestName.toList := by
    have := congrArg String.toList h
    rwa [baseName, canonical, String.toList_ofList, String.toList_ofList] at this
  have hjoin := Chars.join_directory_of_baseName
    (Chars.isTidy_folded caseSensitive hnormal)
    (Chars.noBackslash_folded caseSensitive hnormal.noBackslash) isName_manifestName hname
  unfold join directory canonical
  rw [String.toList_ofList, String.toList_ofList]
  exact congrArg String.ofList hjoin

end Path

end AutoImport
