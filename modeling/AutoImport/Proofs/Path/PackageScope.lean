import AutoImport.Discovery
import AutoImport.ChangeRouting
import AutoImport.Proofs.Path.PathKeys

/-!
# Which manifests are in scope

A lookup and the routing of changes see installed packages from two sides: a lookup puts the path of
a manifest together, and the routing takes the path of a change apart again.  For packages with
ordinary names the two fit: the manifest of such a package in the `node_modules` of a directory is
in scope for exactly the directories that this directory contains
(`ChangeRouting.isManifestInScope_installed`), and a directory is contained in each of its ancestors
(`Path.contains_of_mem_ancestors`).
-/

set_option autoImplicit false

namespace AutoImport

namespace Chars

/-! ## Paths below a root -/

/-- A root followed by at least one piece. -/
def IsDeep (path : Chars) : Prop :=
  ∃ root pieces, IsRoot root ∧ (∀ piece ∈ pieces, IsPiece piece) ∧ pieces ≠ [] ∧
    path = build root pieces

/-- A path below a root has the piece behind its last `/` for its base name. -/
theorem IsDeep.append {path piece : Chars} (h : IsDeep path) (hpiece : IsPiece piece) :
    IsDeep (path ++ '/' :: piece) ∧ directory (path ++ '/' :: piece) = path ∧
      baseName (path ++ '/' :: piece) = piece := by
  obtain ⟨root, pieces, hroot, hpieces, hne, rfl⟩ := h
  have hall : ∀ other ∈ pieces ++ [piece], IsPiece other := by
    intro other hother
    rcases List.mem_append.1 hother with hother | hother
    · exact hpieces other hother
    · rw [List.mem_singleton.1 hother]
      exact hpiece
  rw [← build_concat root hne]
  refine ⟨⟨root, pieces ++ [piece], hroot, hall, by simp, rfl⟩, ?_, ?_⟩
  · rw [directory_build hroot hall, if_neg hne]
  · rw [baseName_build hroot hall, if_neg fun h => hne h.1]

/-- A deep path does not end in a slash. -/
theorem IsDeep.getLast? {path : Chars} (h : IsDeep path) : path.getLast? ≠ some '/' := by
  obtain ⟨root, pieces, hroot, hpieces, hne, rfl⟩ := h
  rcases List.eq_nil_or_concat pieces with rfl | ⟨start, last, rfl⟩
  · exact absurd rfl hne
  · rw [List.concat_eq_append] at hpieces ⊢
    exact getLast?_build_concat root start (hpieces last (by simp))

/-- A deep path is not empty. -/
theorem IsDeep.ne_nil {path : Chars} (h : IsDeep path) : path ≠ [] := by
  obtain ⟨root, pieces, hroot, -, -, rfl⟩ := h
  exact List.append_ne_nil_of_left_ne_nil hroot.ne_nil _

/-- A name joined to a deep path goes behind a slash. -/
theorem IsDeep.join {path name : Chars} (h : IsDeep path) (hback : '\\' ∉ path)
    (hname : IsName name) : Chars.join path name = path ++ '/' :: name := by
  rw [join_name h.ne_nil hback hname, if_neg h.getLast?]

/-- A name in a directory lies below a root; its directory is the one that it was joined to, up to
a `/` at the end. -/
theorem isDeep_join {path name : Chars} (hpath : IsTidy path) (hback : '\\' ∉ path)
    (hname : IsName name) :
    IsDeep (join path name) ∧ baseName (join path name) = name ∧
      Text.dropTrailingSlash (directory (join path name)) = Text.dropTrailingSlash path := by
  have hbase := baseName_join hpath hback hname
  obtain ⟨root, pieces, hroot, hpieces, rfl⟩ := hpath
  have hpiece := hname.isSegment.isPiece
  rcases join_build hroot hpieces hback hname with ⟨hopen, hjoin⟩ | ⟨rfl, hbare, hdrive, hjoin⟩
  · have hall : ∀ other ∈ pieces ++ [name], IsPiece other := by
      intro other hother
      rcases List.mem_append.1 hother with hother | hother
      · exact hpieces other hother
      · rw [List.mem_singleton.1 hother]
        exact hpiece
    refine ⟨⟨root, pieces ++ [name], hroot, hall, by simp, hjoin⟩, hbase, ?_⟩
    rw [hjoin, directory_build hroot hall]
    split
    · rename_i hnil
      subst hnil
      have hslash : '/' ∈ root := by simpa using hopen
      rw [if_pos hslash, build, Text.joinWith, List.append_nil]
    · rfl
  · have hall : ∀ other ∈ [] ++ [name], IsPiece other := by
      intro other hother
      rw [List.mem_singleton.1 hother]
      exact hpiece
    refine ⟨⟨root ++ ['/'], [name], hdrive, hall, by simp, hjoin⟩, hbase, ?_⟩
    have hdirectory := directory_build hdrive hall
    rw [List.nil_append, if_pos rfl, if_pos (by simp)] at hdirectory
    rw [hjoin, hdirectory, Text.dropTrailingSlash_concat, build, Text.joinWith, List.append_nil]
    refine (Text.dropTrailingSlash_of_getLast? fun hlast => hbare ?_).symm
    exact List.mem_of_getLast? hlast

/-- A path's last slash does not matter to what it contains. -/
theorem contains_of_dropTrailingSlash_eq {first second : Chars}
    (h : Text.dropTrailingSlash first = Text.dropTrailingSlash second) (child : Chars) :
    contains first child = contains second child := by
  unfold contains
  rw [h]

/-! ## Ancestors -/

/-- A path goes on behind each of its ancestors. -/
theorem eq_append_of_mem_ancestors {path ancestor : Chars} (h : path = [] ∨ IsNormal path)
    (hmem : ancestor ∈ ancestors path) :
    path = ancestor ∨ ∃ rest, path = Text.dropTrailingSlash ancestor ++ '/' :: rest := by
  fun_induction ancestors path with
  | case1 path hempty => simp at hmem
  | case3 path hempty hshorter => exact Or.inl (List.mem_singleton.1 hmem).symm
  | case2 path hempty hshorter ih =>
    rcases List.mem_cons.1 hmem with rfl | hmem
    · exact Or.inl rfl
    · have hnormal : IsNormal path := by
        rcases h with rfl | h
        · simp at hempty
        · exact h
      -- What is known of the directory above is carried down over the last piece.
      have habove := ih (isNormal_directory hnormal) hmem
      obtain ⟨root, segments, hroot, hsegments, rfl⟩ := hnormal
      rcases List.eq_nil_or_concat segments with rfl | ⟨start, last, rfl⟩
      · have hbuild : build root [] = root := List.append_nil root
        rw [hbuild, directory_root hroot] at hshorter
        exact absurd hshorter (Nat.lt_irrefl _)
      · rw [List.concat_eq_append] at hsegments hmem habove ⊢
        have hpieces := fun s hs => (hsegments s hs).isPiece
        rw [directory_build hroot hpieces] at hmem habove
        right
        by_cases hstart : start = []
        · -- The only piece lies in the root, or in a bare drive, which has no ancestors.
          subst hstart
          rw [if_pos rfl] at hmem habove
          split at hmem
          · rename_i hslash
            rw [if_pos hslash] at habove
            rcases hroot.ends with ⟨front, hfront, -⟩ | hbare
            · have hancestors : ancestors root = [root] := by
                rw [ancestors, directory_root hroot, if_neg (by simpa using hroot.ne_nil),
                  if_neg (Nat.lt_irrefl _)]
              rw [hancestors] at hmem
              rw [List.mem_singleton.1 hmem, hfront, Text.dropTrailingSlash_concat]
              refine ⟨last, ?_⟩
              simp [build, Text.joinWith]
            · exact absurd hslash hbare
          · simp [ancestors] at hmem
        · rw [if_neg hstart] at hmem habove
          have hstartPieces : ∀ s ∈ start, IsPiece s := fun s hs => hpieces s (by simp [hs])
          have hdeep : IsDeep (build root start) := ⟨root, start, hroot, hstartPieces, hstart, rfl⟩
          rw [build_concat root hstart]
          rcases habove with habove | ⟨rest, habove⟩
          · refine ⟨last, ?_⟩
            rw [← habove, Text.dropTrailingSlash_of_getLast? hdeep.getLast?]
          · refine ⟨rest ++ '/' :: last, ?_⟩
            rw [habove, List.append_assoc]
            rfl

/-- Folding goes past a slash: it folds what stands before it and what stands behind. -/
theorem folded_append_slash (caseSensitive : Bool) (first second : Chars) :
    folded caseSensitive (first ++ '/' :: second) =
      folded caseSensitive first ++ '/' :: folded caseSensitive second := by
  cases caseSensitive with
  | true => rfl
  | false => exact Text.lowercaseAfter_append_slash [] first second

/-- There is nothing to fold in small letters. -/
theorem folded_of_lowercase (caseSensitive : Bool) {path : Chars} (h : Text.lowercase path = path) :
    folded caseSensitive path = path := by
  cases caseSensitive with
  | true => rfl
  | false => exact h

/-- A piece stays a piece when its letters are folded. -/
theorem isPiece_folded (caseSensitive : Bool) {piece : Chars} (h : IsPiece piece) :
    IsPiece (folded caseSensitive piece) := by
  cases caseSensitive with
  | true => exact h
  | false => exact isPiece_lowercaseAfter [] h

/-- A scope keeps its `@` when its letters are folded. -/
theorem folded_at_cons (caseSensitive : Bool) (scope : Chars) :
    ∃ small, folded caseSensitive ('@' :: scope) = '@' :: small := by
  cases caseSensitive with
  | true => exact ⟨scope, rfl⟩
  | false => exact ⟨_, Text.lowercaseAfter_cons_ascii [] (by decide) scope⟩

/-- Folding and dropping the last slash commute. -/
theorem dropTrailingSlash_folded (caseSensitive : Bool) (path : Chars) :
    Text.dropTrailingSlash (folded caseSensitive path) =
      folded caseSensitive (Text.dropTrailingSlash path) := by
  by_cases hlast : path.getLast? = some '/'
  · obtain ⟨start, rfl⟩ := List.getLast?_eq_some_iff.1 hlast
    rw [folded_append_slash, folded_nil, Text.dropTrailingSlash_concat,
      Text.dropTrailingSlash_concat]
  · have hfolded : (folded caseSensitive path).getLast? ≠ some '/' := by
      cases caseSensitive with
      | true => exact hlast
      | false => exact Text.getLast?_lowercase_ne_slash hlast
    rw [Text.dropTrailingSlash_of_getLast? hlast, Text.dropTrailingSlash_of_getLast? hfolded]

/-- A path contains what follows it behind a slash. -/
theorem contains_append_slash (parent rest : Chars) :
    contains parent (Text.dropTrailingSlash parent ++ '/' :: rest) = true := by
  unfold contains
  dsimp only
  rw [Text.stripPrefix?_append]
  rfl

/-- What a path contains is the path or goes on behind it with a `/`. -/
theorem contains_cases {parent child : Chars}
    (hlast : (Text.dropTrailingSlash parent).getLast? ≠ some '/')
    (h : contains parent child = true) :
    child = Text.dropTrailingSlash parent ∨
      ∃ rest, child = Text.dropTrailingSlash parent ++ '/' :: rest := by
  unfold contains at h
  dsimp only at h
  split at h
  · exact absurd h (by decide)
  all_goals
    rename_i hstrip
    have happend := List.isPrefixOf?_eq_some_iff_append_eq.1 hstrip
  · rw [List.append_nil] at happend
    exact Or.inl happend.symm
  · rename_i c rest
    have hnot : ['/'].isSuffixOf (Text.dropTrailingSlash parent) = false := by
      rw [Bool.eq_false_iff, ne_eq, isSuffixOf_slash]
      exact hlast
    rw [hnot, Bool.or_false] at h
    rw [of_decide_eq_true h] at happend
    exact Or.inr ⟨rest, happend.symm⟩

/-- What contains a path begins as the path does. -/
theorem head?_of_contains {parent child : Chars} (hparent : parent.head? = some '/')
    (hne : child ≠ []) (h : contains parent child = true) : child.head? = some '/' := by
  obtain ⟨rest, rfl⟩ := List.head?_eq_some_iff.1 hparent
  unfold contains at h
  dsimp only at h
  rcases List.eq_nil_or_concat rest with rfl | ⟨start, last, rfl⟩
  · have hroot : Text.dropTrailingSlash ['/'] = [] := rfl
    obtain ⟨c, cs, rfl⟩ := List.exists_cons_of_ne_nil hne
    have hstrip : Text.stripPrefix? [] (c :: cs) = some (c :: cs) := rfl
    rw [hroot, hstrip] at h
    simpa [List.isSuffixOf] using h
  · have hhead : ∃ inner, Text.dropTrailingSlash ('/' :: start.concat last) = '/' :: inner := by
      rw [List.concat_eq_append, ← List.cons_append]
      by_cases hlast : last = '/'
      · rw [hlast, Text.dropTrailingSlash_concat]
        exact ⟨start, rfl⟩
      · refine ⟨start ++ [last], Text.dropTrailingSlash_of_getLast? ?_⟩
        rw [List.getLast?_concat]
        simpa using hlast
    obtain ⟨inner, hinner⟩ := hhead
    rw [hinner] at h
    cases hstrip : Text.stripPrefix? ('/' :: inner) child with
    | none => simp [hstrip] at h
    | some behind =>
      rw [← List.isPrefixOf?_eq_some_iff_append_eq.1 hstrip]
      rfl

/-- A path contains itself. -/
theorem contains_self (path : Chars) : contains path path = true := by
  by_cases hlast : path.getLast? = some '/'
  · obtain ⟨start, rfl⟩ := List.getLast?_eq_some_iff.1 hlast
    have hself := contains_append_slash (start ++ ['/']) []
    rwa [Text.dropTrailingSlash_concat] at hself
  · unfold contains
    dsimp only
    have hstrip : Text.stripPrefix? path path = some [] := by
      have := Text.stripPrefix?_append path []
      rwa [List.append_nil] at this
    rw [Text.dropTrailingSlash_of_getLast? hlast, hstrip]

/-- The key of each ancestor of a normal path contains the key of the path. -/
theorem contains_folded_of_mem_ancestors (caseSensitive : Bool) {path ancestor : Chars}
    (h : IsNormal path) (hmem : ancestor ∈ ancestors path) :
    contains (folded caseSensitive ancestor) (folded caseSensitive path) = true := by
  rcases eq_append_of_mem_ancestors (Or.inr h) hmem with rfl | ⟨rest, hrest⟩
  · exact contains_self _
  · rw [hrest, folded_append_slash, ← dropTrailingSlash_folded]
    exact contains_append_slash _ _

end Chars

namespace Path

/-- The key of a normal path is the path with its letters folded. -/
theorem toList_canonical {path : String} (h : IsNormal path) (base : String)
    (caseSensitive : Bool) :
    (canonical path base caseSensitive).toList = Chars.folded caseSensitive path.toList := by
  unfold canonical
  rw [String.toList_ofList, Chars.canonical_eq_folded, Chars.normalize_of_isNormal _ h]

/-- A directory is contained in each of its ancestors, also by their keys. -/
theorem contains_of_mem_ancestors {directory ancestor : String} (h : IsNormal directory)
    (hmem : ancestor ∈ ancestors directory) (base : String) (caseSensitive : Bool) :
    contains (canonical ancestor base caseSensitive) (canonical directory base caseSensitive) =
      true := by
  have hancestor := isNormal_of_mem_ancestors (Or.inr h) hmem
  obtain ⟨chars, hchars, rfl⟩ := List.mem_map.1 hmem
  unfold contains
  rw [toList_canonical hancestor, toList_canonical h, String.toList_ofList]
  exact Chars.contains_folded_of_mem_ancestors caseSensitive h hchars

end Path

/-! ## Names of packages -/

/-- A part of the name of a package: a segment that cannot be taken for a drive. -/
structure IsNamePart (part : Chars) : Prop where
  isSegment : Chars.IsSegment part
  noColon : ':' ∉ part

/-- The ordinary names of packages, with or without a scope. -/
inductive IsPackageName : String → Prop where
  | plain (name : Chars) (h : IsNamePart name) (hplain : name.head? ≠ some '@') :
    IsPackageName (.ofList name)
  | inScope (scope name : Chars) (hscope : IsNamePart ('@' :: scope)) (h : IsNamePart name) :
    IsPackageName (.ofList ('@' :: scope ++ '/' :: name))

/-- The scope of typings is a part of a name. -/
theorem isNamePart_typesScope : IsNamePart ('@' :: ['t', 'y', 'p', 'e', 's']) :=
  ⟨⟨⟨by decide, by decide⟩, by decide, by decide, by decide⟩, by decide⟩

/-- A path is not rooted when it begins with no slash and has no colon behind its first
character. -/
theorem notRooted_of_noColon {path : Chars} (hslash : path.head? ≠ some '/')
    (hcolon : path[1]? ≠ some ':') : Chars.isRooted path = false := by
  unfold Chars.isRooted
  rw [decide_eq_false_iff_not]
  fun_cases Chars.rootLength path with
  | case1 rest => exact absurd rfl hslash
  | case2 c hc halpha rest => exact absurd rfl hcolon
  | case3 c rest hc halpha hrest => exact absurd rfl hcolon
  | case4 c rest hc halpha => simp
  | case5 => simp

/-- A part of a name does not begin with a slash. -/
theorem IsNamePart.head? {part : Chars} (h : IsNamePart part) : part.head? ≠ some '/' :=
  fun hslash => h.isSegment.isPiece.2 (List.mem_of_head? hslash)

/-- A part of a name is a name. -/
theorem IsNamePart.isName {part : Chars} (h : IsNamePart part) : Chars.IsName part :=
  ⟨h.isSegment, notRooted_of_noColon h.head? fun hcolon =>
    h.noColon (List.mem_of_getElem? hcolon)⟩

/-- A part of a name followed by a slash is not rooted. -/
theorem IsNamePart.notRooted_append {part : Chars} (h : IsNamePart part) (rest : Chars) :
    Chars.isRooted (part ++ '/' :: rest) = false := by
  cases part with
  | nil => exact absurd rfl h.isSegment.isPiece.1
  | cons c cs =>
    apply notRooted_of_noColon
    · exact h.head?
    · intro hcolon
      cases cs with
      | nil => simp at hcolon
      | cons d ds =>
        have hd : d = ':' := by simpa using hcolon
        exact h.noColon (by simp [hd])

/-- The first slash of a text is replaced where it stands. -/
theorem replaceFirst_slash (replacement : Chars) {before : Chars} (h : '/' ∉ before)
    (after : Chars) :
    Text.replaceFirst ['/'] replacement (before ++ '/' :: after) =
      before ++ replacement ++ after := by
  induction before with
  | nil =>
    have hstrip : Text.stripPrefix? ['/'] ('/' :: after) = some after :=
      Text.stripPrefix?_append ['/'] after
    rw [List.nil_append, Text.replaceFirst, hstrip]
    rfl
  | cons c cs ih =>
    obtain ⟨hc, hcs⟩ := not_or.1 (mt List.mem_cons.2 h)
    have hnone : Text.stripPrefix? ['/'] (c :: (cs ++ '/' :: after)) = none :=
      Text.stripPrefix?_of_head?_ne [] (by simpa using Ne.symm hc)
    rw [List.cons_append, Text.replaceFirst, hnone]
    dsimp only
    rw [ih hcs]
    rfl

/-- The package that declares types has an ordinary name if the package has. -/
theorem isPackageName_typesPackage {name : String} (h : IsPackageName name) :
    IsPackageName (Discovery.typesPackage name) := by
  have hscope : ∀ rest : Chars, typesScope ++ String.ofList rest =
      .ofList ('@' :: ['t', 'y', 'p', 'e', 's'] ++ '/' :: rest) := by
    intro rest
    apply String.toList_inj.1
    rw [String.toList_append, String.toList_ofList, String.toList_ofList]
    rfl
  unfold Discovery.typesPackage
  cases h with
  | plain name hpart hplain =>
    have hnone : Text.stripPrefix? ['@'] name = none := Text.stripPrefix?_of_head?_ne [] hplain
    rw [String.toList_ofList, hnone]
    dsimp only
    rw [hscope]
    exact .inScope _ name isNamePart_typesScope hpart
  | inScope scope name hscopePart hpart =>
    have hslash : '/' ∉ scope := fun hm =>
      hscopePart.isSegment.isPiece.2 (List.mem_cons_of_mem _ hm)
    have hsome : Text.stripPrefix? ['@'] ('@' :: scope ++ '/' :: name) =
        some (scope ++ '/' :: name) := Text.stripPrefix?_append ['@'] _
    rw [String.toList_ofList, hsome]
    dsimp only
    rw [replaceFirst_slash _ hslash, hscope]
    refine .inScope _ _ isNamePart_typesScope ⟨⟨⟨by simp, ?_⟩, ?_, ?_, ?_⟩, ?_⟩
    · have := hpart.isSegment.isPiece.2
      simp [hslash, this]
    · have hback := hscopePart.isSegment.noBackslash
      have := hpart.isSegment.noBackslash
      simp_all
    · intro heq
      have : '_' ∈ (['.'] : Chars) := by
        rw [← heq]
        simp
      exact absurd this (by decide)
    · intro heq
      have : '_' ∈ (['.', '.'] : Chars) := by
        rw [← heq]
        simp
      exact absurd this (by decide)
    · have hcolon := hscopePart.noColon
      have := hpart.noColon
      simp_all

/-! ## Installed packages -/

namespace Chars

/-- The name `node_modules` can be joined to a directory. -/
theorem isName_packagesName : IsName packagesName.toList :=
  ⟨⟨⟨by decide, by decide⟩, by decide, by decide, by decide⟩, by decide⟩

/-- A deep normal path with one more name is normal. -/
theorem isNormal_append {path part : Chars} (hnormal : IsNormal path) (hdeep : IsDeep path)
    (hpart : IsName part) : IsNormal (path ++ '/' :: part) := by
  rw [← hdeep.join hnormal.noBackslash hpart]
  exact isNormal_join hnormal hpart

/-- A package of an ordinary name lies below the directory of packages. -/
theorem join_packageName {packages : Chars} (hnormal : IsNormal packages) (hdeep : IsDeep packages)
    {name : String} (hname : IsPackageName name) :
    join packages name.toList = packages ++ '/' :: name.toList ∧
      IsNormal (packages ++ '/' :: name.toList) ∧ IsDeep (packages ++ '/' :: name.toList) := by
  cases hname with
  | plain name hpart hplain =>
    rw [String.toList_ofList]
    exact ⟨hdeep.join hnormal.noBackslash hpart.isName,
      isNormal_append hnormal hdeep hpart.isName, (hdeep.append hpart.isSegment.isPiece).1⟩
  | inScope scope name hscope hpart =>
    rw [String.toList_ofList]
    have hscopeNormal := isNormal_append hnormal hdeep hscope.isName
    have hscopeDeep := (hdeep.append hscope.isSegment.isPiece).1
    have hassoc : packages ++ '/' :: ('@' :: scope ++ '/' :: name) =
        packages ++ '/' :: '@' :: scope ++ '/' :: name := by simp
    have hback : '\\' ∉ '@' :: scope ++ '/' :: name := by
      intro hm
      rcases List.mem_append.1 hm with hm | hm
      · exact hscope.isSegment.noBackslash hm
      · rcases List.mem_cons.1 hm with heq | hm
        · exact absurd heq (by decide)
        · exact hpart.isSegment.noBackslash hm
    refine ⟨?_, ?_, ?_⟩
    · rw [join_relative hdeep.ne_nil hnormal.noBackslash (by simp) hback
        (hscope.notRooted_append name), if_neg hdeep.getLast?]
    · rw [hassoc]
      exact isNormal_append hscopeNormal hscopeDeep hpart.isName
    · rw [hassoc]
      exact (hscopeDeep.append hpart.isSegment.isPiece).1

end Chars

/-- The manifest of a package in the `node_modules` of a directory. -/
def installedManifest (directory packageName : String) : String :=
  Path.join (Path.join (Path.join directory packagesName) packageName) manifestName

section Installed

variable {directory packageName : String}

/-- The manifest of a package of an ordinary name is a normal path, and it can be read off. -/
theorem installedManifest_spec (h : Path.IsNormal directory) (hname : IsPackageName packageName) :
    Path.IsNormal (installedManifest directory packageName) ∧
      (installedManifest directory packageName).toList =
        Chars.join directory.toList packagesName.toList ++ '/' :: packageName.toList ++
          '/' :: manifestName.toList := by
  have hpackages := Chars.isNormal_join h Chars.isName_packagesName
  have hdeep := (Chars.isDeep_join h.isTidy h.noBackslash Chars.isName_packagesName).1
  obtain ⟨hjoin, hnormal, hbelow⟩ := Chars.join_packageName hpackages hdeep hname
  have heq : (installedManifest directory packageName).toList =
      Chars.join directory.toList packagesName.toList ++ '/' :: packageName.toList ++
        '/' :: manifestName.toList := by
    unfold installedManifest Path.join
    rw [String.toList_ofList, String.toList_ofList, String.toList_ofList, hjoin,
      hbelow.join hnormal.noBackslash Path.isName_manifestName]
  refine ⟨?_, heq⟩
  unfold Path.IsNormal
  rw [heq]
  exact Chars.isNormal_append hnormal hbelow Path.isName_manifestName

end Installed

/-! ## Scope of an installed manifest -/

namespace ChangeRouting

open Chars (IsDeep IsPiece)

/-- A manifest in a directory of a directory of packages. -/
theorem manifestLocation?_plain {packages piece : Chars} (hdeep : IsDeep packages)
    (hpackages : Chars.baseName packages = packagesName.toList) (hpiece : IsPiece piece) :
    manifestLocation? (.ofList (packages ++ '/' :: piece ++ '/' :: manifestName.toList)) =
      some (.ofList packages, .ofList piece) := by
  obtain ⟨hbelow, hdirectory, hbase⟩ := hdeep.append hpiece
  obtain ⟨-, hmanifestDirectory, hmanifestBase⟩ :=
    hbelow.append Path.isName_manifestName.isSegment.isPiece
  unfold manifestLocation? Path.baseName Path.directory
  simp only [String.toList_ofList, hmanifestDirectory, hmanifestBase, hdirectory, hbase, hpackages,
    String.ofList_toList, ne_eq, not_true_eq_false, if_false, if_true]

/-- A manifest below a scope of a directory of packages. -/
theorem manifestLocation?_inScope {packages scope piece : Chars} (hdeep : IsDeep packages)
    (hpackages : Chars.baseName packages = packagesName.toList) (hscope : IsPiece ('@' :: scope))
    (hpiece : IsPiece piece) :
    manifestLocation?
        (.ofList (packages ++ '/' :: '@' :: scope ++ '/' :: piece ++ '/' :: manifestName.toList)) =
      some (.ofList packages, .ofList ('@' :: scope ++ '/' :: piece)) := by
  obtain ⟨hscopeDeep, hscopeDirectory, hscopeBase⟩ := hdeep.append hscope
  obtain ⟨hbelow, hdirectory, hbase⟩ := hscopeDeep.append hpiece
  obtain ⟨-, hmanifestDirectory, hmanifestBase⟩ :=
    hbelow.append Path.isName_manifestName.isSegment.isPiece
  have hother : String.ofList ('@' :: scope) ≠ packagesName := by
    intro heq
    have hhead : some '@' = packagesName.toList.head? := by
      rw [← heq, String.toList_ofList]
      rfl
    exact absurd hhead (by decide)
  have hat : Text.startsWith "@" (.ofList ('@' :: scope)) = true := by
    simp [Text.startsWith]
  unfold manifestLocation? Path.baseName Path.directory
  simp only [String.toList_ofList, hmanifestDirectory, hmanifestBase, hdirectory, hbase, hpackages,
    hscopeDirectory, hscopeBase, hother, hat, String.ofList_toList, ne_eq, not_true_eq_false,
    if_false, if_true, decide_true, Bool.and_self, String.length_ofList]
  rw [List.append_assoc, List.drop_append]
  simp

/-- The manifest of an installed package of an ordinary name is in scope for exactly the directories
that are contained in the directory above its `node_modules`. -/
theorem isManifestInScope_installed {ancestor packageName : String} (h : Path.IsNormal ancestor)
    (hname : IsPackageName packageName) (base : String) (caseSensitive : Bool)
    (directory : String) :
    isManifestInScope
        (Path.canonical (installedManifest ancestor packageName) base caseSensitive) directory =
      Path.contains (Path.canonical ancestor base caseSensitive) directory := by
  obtain ⟨hnormal, hpath⟩ := installedManifest_spec h hname
  let packages := Chars.folded caseSensitive (Chars.join ancestor.toList packagesName.toList)
  have hpackages : packages = Chars.join (Chars.folded caseSensitive ancestor.toList)
      packagesName.toList :=
    Chars.folded_join caseSensitive h.isTidy.ne_nil h.noBackslash Chars.isName_packagesName
      (by decide +kernel)
  obtain ⟨hdeep, hbase, hdirectory⟩ := Chars.isDeep_join (Chars.isTidy_folded caseSensitive h)
    (Chars.noBackslash_folded caseSensitive h.noBackslash) Chars.isName_packagesName
  rw [← hpackages] at hdeep hbase hdirectory
  have hmanifest : Text.lowercase manifestName.toList = manifestName.toList := by decide +kernel
  have hkey : Path.canonical (installedManifest ancestor packageName) base caseSensitive =
      .ofList (packages ++ '/' :: Chars.folded caseSensitive packageName.toList ++
        '/' :: manifestName.toList) := by
    apply String.toList_inj.1
    rw [Path.toList_canonical hnormal, hpath, Chars.folded_append_slash, Chars.folded_append_slash,
      Chars.folded_of_lowercase caseSensitive hmanifest, String.toList_ofList]
  have hlocation : ∃ name, manifestLocation?
      (Path.canonical (installedManifest ancestor packageName) base caseSensitive) =
        some (.ofList packages, name) := by
    rw [hkey]
    cases hname with
    | plain name hpart hplain =>
      rw [String.toList_ofList]
      exact ⟨_, manifestLocation?_plain hdeep hbase
        (Chars.isPiece_folded caseSensitive hpart.isSegment.isPiece)⟩
    | inScope scope name hscope hpart =>
      have hscopePiece := Chars.isPiece_folded caseSensitive hscope.isSegment.isPiece
      obtain ⟨small, hsmall⟩ := Chars.folded_at_cons caseSensitive scope
      rw [hsmall] at hscopePiece
      rw [String.toList_ofList, Chars.folded_append_slash, hsmall]
      have hassoc : packages ++ '/' :: ('@' :: small ++ '/' :: Chars.folded caseSensitive name) =
          packages ++ '/' :: '@' :: small ++ '/' :: Chars.folded caseSensitive name := by simp
      rw [hassoc]
      exact ⟨_, manifestLocation?_inScope hdeep hbase hscopePiece
        (Chars.isPiece_folded caseSensitive hpart.isSegment.isPiece)⟩
  obtain ⟨name, hlocation⟩ := hlocation
  unfold isManifestInScope
  rw [hlocation]
  unfold Path.contains Path.directory
  simp only [Option.any_some, String.toList_ofList]
  rw [Chars.contains_of_dropTrailingSlash_eq hdirectory, Path.toList_canonical h]

end ChangeRouting

end AutoImport
