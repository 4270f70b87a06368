import AutoImport.Proofs.Files.StoredKeys

/-!
# Links and their targets

A link and its target are interchangeable where following the link puts what stands behind it behind
the target (`MemoryTree.link_interchangeable`).  The texts decide whether it does.  A root brings
its own `/`, so link and target have to agree on whether they end in one: behind a link to `/` the
path would have two, behind a link at `/` none.  And nothing lies behind a bare drive, since `c:`
with `/x` behind it begins with the drive root `c:/`.

Of the links of a tree that was built this uses that they are keys, and so are their targets
(`MemoryTree.Built.linksInPlace`).
-/

set_option autoImplicit false

namespace AutoImport

/-! ## What stands behind a path -/

namespace Chars

variable {path : Chars} {names : List Chars}

/-- What is put behind a path to get to names below it. -/
def behind (path : Chars) (names : List Chars) : Chars :=
  if path.getLast? = some '/' then Text.joinWith '/' names else trail names

/-- What is put behind a path follows the path without its last slash. -/
theorem append_behind (path : Chars) (hne : names ≠ []) :
    path ++ behind path names = Text.dropTrailingSlash path ++ trail names := by
  unfold behind
  split
  · rename_i hlast
    obtain ⟨start, rfl⟩ := List.getLast?_eq_some_iff.1 hlast
    rw [Text.dropTrailingSlash_concat, trail_eq hne, List.append_assoc]
    rfl
  · rename_i hlast
    rw [Text.dropTrailingSlash_of_getLast? hlast]

/-- The same is put behind two paths exactly if both or none of them end in `/`. -/
theorem behind_eq_iff (other : Chars) (hne : names ≠ []) :
    behind path names = behind other names ↔
      (path.getLast? = some '/' ↔ other.getLast? = some '/') := by
  have hlength : Text.joinWith '/' names ≠ trail names := by
    intro hsame
    have hlength := congrArg List.length hsame
    rw [trail_eq hne, List.length_cons] at hlength
    omega
  unfold behind
  split <;> split <;> simp_all [Ne.symm hlength]

/-- There is something behind a path when there are names below it. -/
theorem behind_ne_nil (hne : names ≠ []) (hnames : ∀ name ∈ names, IsPiece name) :
    behind path names ≠ [] := by
  unfold behind
  split
  · obtain ⟨first, rest, rfl⟩ := List.exists_cons_of_ne_nil hne
    obtain ⟨c, cs, rfl⟩ := List.exists_cons_of_ne_nil (hnames first (by simp)).1
    have hfirst : (Text.joinWith '/' ((c :: cs) :: rest)).head? = some c :=
      Text.head?_joinWith (List.cons_ne_nil c cs) rest
    intro hnil
    rw [hnil] at hfirst
    exact absurd hfirst (by simp)
  · rw [trail_eq hne]
    exact List.cons_ne_nil _ _

/-- What comes behind a path other than a bare drive has the ancestors of the path, after others
that come behind it. -/
theorem ancestors_behind (h : IsPlain path) (hne : names ≠ [])
    (hnames : ∀ name ∈ names, IsPiece name) :
    ∃ between, ancestors (path ++ behind path names) = between ++ ancestors path ∧
      ∀ ancestor ∈ between, ∃ front, front <+: names ∧ front ≠ [] ∧
        ancestor = path ++ behind path front := by
  obtain ⟨name, more, rfl⟩ := List.exists_cons_of_ne_nil hne
  obtain ⟨root, pieces, hroot, hpieces, hopen, rfl⟩ := h
  have hall : ∀ piece ∈ pieces ++ [name], IsPiece piece :=
    List.forall_mem_append.2 ⟨hpieces, List.forall_mem_singleton.2 (hnames name (by simp))⟩
  have hmore : ∀ piece ∈ more, IsPiece piece := fun piece hpiece => hnames piece (by simp [hpiece])
  have hfirst : Text.dropTrailingSlash (build root pieces) ++ '/' :: name =
      build root (pieces ++ [name]) := by
    rcases List.eq_nil_or_concat pieces with rfl | ⟨start, last, rfl⟩
    · have hslash : '/' ∈ root := by_contra fun hbare => hopen ⟨rfl, hbare⟩
      obtain ⟨start, rfl, -⟩ := hroot.ends.resolve_right fun hbare => hbare hslash
      rw [build_nil, Text.dropTrailingSlash_concat, List.append_cons]
      rfl
    · rw [List.concat_eq_append] at *
      rw [dropTrailingSlash_build root start (hpieces last (by simp)),
        build_concat root (List.concat_ne_nil last start)]
  have hdeep : IsDeep (build root (pieces ++ [name])) := ⟨root, _, hroot, hall, by simp, rfl⟩
  have hstep : ancestors (build root (pieces ++ [name])) =
      build root (pieces ++ [name]) :: ancestors (build root pieces) := by
    have hdirectory : directory (build root (pieces ++ [name])) = build root pieces := by
      rw [directory_build hroot hall]
      split
      · rename_i hnil
        subst hnil
        rw [if_pos (by_contra fun hbare => hopen ⟨rfl, hbare⟩), build_nil]
      · rfl
    rw [ancestors, if_neg (by simpa using hdeep.ne_nil), hdirectory,
      if_pos (length_build_lt_concat hall)]
  obtain ⟨between, hbetween, hfronts⟩ := ancestors_append_trail hdeep hmore
  have hcons : ∀ rest, trail (name :: rest) = '/' :: name ++ trail rest := fun _ => rfl
  refine ⟨between ++ [build root (pieces ++ [name])], ?_, ?_⟩
  · rw [append_behind _ hne, hcons, ← List.append_assoc, hfirst, hbetween, hstep, List.append_assoc]
    rfl
  · intro ancestor hancestor
    rcases List.mem_append.1 hancestor with hbehind | hself
    · obtain ⟨front, hfront, -, rfl⟩ := hfronts ancestor hbehind
      refine ⟨name :: front, List.cons_prefix_cons.2 ⟨rfl, hfront⟩, by simp, ?_⟩
      rw [append_behind _ (List.cons_ne_nil name front), hcons, ← List.append_assoc, hfirst]
    · refine ⟨[name], List.cons_prefix_cons.2 ⟨rfl, List.nil_prefix⟩, by simp, ?_⟩
      rw [List.mem_singleton.1 hself, append_behind _ (List.cons_ne_nil name []), ← hfirst, hcons]
      simp [trail]

/-- A normal path that is not plain is a bare drive. -/
theorem bare_of_not_isPlain (h : IsNormal path) (hnot : ¬IsPlain path) :
    IsRoot path ∧ '/' ∉ path := by
  obtain ⟨root, segments, hroot, hsegments, rfl⟩ := h
  have hbare : segments = [] ∧ '/' ∉ root := by
    by_contra hopen
    exact hnot ⟨root, segments, hroot, fun s hs => (hsegments s hs).isPiece, hopen, rfl⟩
  rw [hbare.1, build_nil]
  exact ⟨hroot, hbare.2⟩

/-- Every ancestor of what comes behind a bare drive comes behind it. -/
theorem ancestors_behind_bare (hroot : IsRoot path) (hbare : '/' ∉ path)
    (hnames : ∀ name ∈ names, IsPiece name) {ancestor : Chars}
    (h : ancestor ∈ ancestors (path ++ '/' :: Text.joinWith '/' names)) :
    ∃ rest, ancestor = path ++ '/' :: rest := by
  cases hroot with
  | slash => simp at hbare
  | drive c hc => simp at hbare
  | bare c hc =>
    have hdrive : ∀ more, [c, ':'] ++ '/' :: Text.joinWith '/' more = build [c, ':', '/'] more :=
      fun _ => rfl
    rw [hdrive] at h
    obtain ⟨front, -, rfl⟩ := (mem_ancestors_build (.drive c hc) (by simp) hnames).1 h
    exact ⟨_, (hdrive front).symm⟩

end Chars

namespace MemoryTree

open AutoImport.Path (extend)

variable {tree : MemoryTree} {link target : String}

/-- The key of names below a key. -/
theorem key_extend (h : tree.key link = link) {names : List Chars} (hne : names ≠ [])
    (hnames : ∀ name ∈ names, Chars.IsSegment name) :
    (tree.key (extend link names)).toList =
      link.toList ++ Chars.behind link.toList (names.map (Chars.folded tree.caseSensitive)) := by
  have hnormal : Chars.IsNormal link.toList := h ▸ tree.isNormal_key link
  rw [Chars.append_behind _ (by simpa using hne)]
  unfold key Path.canonical
  rw [String.toList_ofList, Path.toList_extend, Chars.canonical_eq_folded,
    Chars.normalize_append_trail hnormal hnames hne, Chars.folded_append_trail,
    ← Chars.dropTrailingSlash_folded, folded_of_key_eq h]

/-- A tree gives the same answers for two paths. -/
structure SameAnswers (tree : MemoryTree) (first second : String) : Prop where
  fileExists : tree.fileExists first = tree.fileExists second
  directoryExists : tree.directoryExists first = tree.directoryExists second
  readText : tree.readText first = tree.readText second
  realPath : tree.realPath first = tree.realPath second
  directoryNames : tree.directoryNames first = tree.directoryNames second
  fileNames : tree.fileNames first = tree.fileNames second

/-- Paths that resolve to one place get the same answers. -/
theorem sameAnswers_of_resolve_eq {first second : String}
    (h : tree.resolve first = tree.resolve second) : tree.SameAnswers first second where
  fileExists := congrArg tree.files.contains h
  directoryExists := congrArg (fun place => decide (place ∈ tree.directories)) h
  readText := congrArg tree.files.get? h
  realPath := by
    unfold realPath
    rw [h]
  directoryNames := by
    unfold directoryNames
    rw [h]
  fileNames := by
    unfold fileNames
    rw [h]

/-! ## Following one link -/

/-- Behind a place that no other link lies below is no link. -/
theorem get?_append {place : String}
    (h : ∀ link ∈ tree.links.keys, Path.contains place link = true → link = place) {rest : Chars}
    (hne : rest ≠ []) (hcontains : Chars.contains place.toList (place.toList ++ rest) = true) :
    tree.links.get? (.ofList (place.toList ++ rest)) = none := by
  by_contra hlink
  have hmem : .ofList (place.toList ++ rest) ∈ tree.links.keys :=
    (tree.links.contains_iff_mem_keys _).1 (Option.isSome_iff_ne_none.2 hlink)
  have hsame := h _ hmem (by unfold Path.contains; rwa [String.toList_ofList])
  rw [← String.toList_inj, String.toList_ofList, List.append_right_eq_self] at hsame
  exact hne hsame

section Link

variable {names : List Chars}

/-- A path below a link that is not a bare drive is put behind the target. -/
theorem hop?_behind (hlink : tree.links.get? link = some target) (hplain : Path.IsPlain link)
    (hbelow : ∀ other ∈ tree.links.keys, Path.contains link other = true → other = link)
    (hne : names ≠ []) (hnames : ∀ name ∈ names, Chars.IsPiece name) {path : String}
    (hpath : path.toList = link.toList ++ Chars.behind link.toList names) :
    tree.hop? path = some (.ofList (target.toList ++ Chars.behind link.toList names)) := by
  obtain ⟨between, hancestors, hbetween⟩ := Chars.ancestors_behind hplain.notBare hne hnames
  obtain ⟨above, habove⟩ := Path.ancestors_eq_cons hplain.isNormal
  unfold Path.ancestors at habove
  unfold hop? Path.ancestors
  rw [hpath, hancestors, List.map_append, habove, List.findSome?_append]
  have hskip : (between.map String.ofList).findSome? (fun ancestor =>
      (tree.links.get? ancestor).map fun target => target ++
        .ofList ((link.toList ++ Chars.behind link.toList names).drop ancestor.length)) = none := by
    rw [List.findSome?_eq_none_iff]
    intro ancestor hancestor
    obtain ⟨chars, hchars, rfl⟩ := List.mem_map.1 hancestor
    obtain ⟨front, hfront, hfrontNe, rfl⟩ := hbetween chars hchars
    have hpieces : ∀ piece ∈ front, Chars.IsPiece piece := fun s hs => hnames s (hfront.subset hs)
    rw [get?_append hbelow (Chars.behind_ne_nil hfrontNe hpieces)]
    · rfl
    · rw [Chars.append_behind _ hfrontNe, Chars.trail_eq hfrontNe]
      exact Chars.contains_append_slash _ _
  rw [hskip, Option.none_or, List.findSome?_cons, hlink]
  show some (target ++ .ofList _) = _
  rw [← String.length_toList, List.drop_left, Option.some.injEq, ← String.toList_inj,
    String.toList_append, String.toList_ofList, String.toList_ofList]

/-- Nothing lies below a link at a bare drive. -/
theorem hop?_behind_bare (hroot : Chars.IsRoot link.toList) (hbare : '/' ∉ link.toList)
    (hbelow : ∀ other ∈ tree.links.keys, Path.contains link other = true → other = link)
    (hne : names ≠ []) (hnames : ∀ name ∈ names, Chars.IsPiece name) {path : String}
    (hpath : path.toList = link.toList ++ Chars.behind link.toList names) :
    tree.hop? path = none := by
  have hlast : link.toList.getLast? ≠ some '/' :=
    fun hlast => hbare (List.mem_of_mem_getLast? hlast)
  have htrimmed := Text.dropTrailingSlash_of_getLast? hlast
  rw [Chars.append_behind _ hne, htrimmed, Chars.trail_eq hne] at hpath
  unfold hop?
  rw [List.findSome?_eq_none_iff]
  intro ancestor hancestor
  unfold Path.ancestors at hancestor
  rw [hpath] at hancestor
  obtain ⟨chars, hchars, rfl⟩ := List.mem_map.1 hancestor
  obtain ⟨rest, rfl⟩ := Chars.ancestors_behind_bare hroot hbare hnames hchars
  have hslash := Chars.contains_append_slash link.toList rest
  rw [htrimmed] at hslash
  rw [get?_append hbelow (List.cons_ne_nil _ _) hslash]
  rfl

end Link

/-! ## Interchangeable paths -/

/-- The path ends in `/`; of the normal paths only the roots `/` and `c:/` do. -/
def EndsInSlash (path : String) : Prop :=
  path.toList.getLast? = some '/'
  deriving Decidable

/-- Take any tree that was built, a link with no other link below it, and names below it.  Following
the link leads to the same names below the target exactly if the link is not a bare drive, and both
or none of link and target end in `/`.  If so, and if the links on the way come to an end, the tree
gives the same answers for the names below the link as for those below the target. -/
theorem link_interchangeable (hbuilt : tree.Built) (hlink : tree.links.get? link = some target)
    (hbelow : ∀ other ∈ tree.links.keys, Path.contains link other = true → other = link)
    {names : List Chars} (hne : names ≠ []) (hnames : ∀ name ∈ names, Chars.IsSegment name) :
    (tree.hop? (tree.key (extend link names)) = some (tree.key (extend target names)) ↔
        Path.IsPlain link ∧ (EndsInSlash link ↔ EndsInSlash target)) ∧
      (Path.IsPlain link → (EndsInSlash link ↔ EndsInSlash target) →
        tree.hop? (tree.resolve (extend link names)) = none →
        tree.SameAnswers (extend link names) (extend target names)) := by
  obtain ⟨hlinkKey, htargetKey⟩ := hbuilt.linksInPlace.keys link target hlink
  have hlinkBelow := key_extend hlinkKey hne hnames
  have htargetBelow := key_extend htargetKey hne hnames
  have hsmallNe : names.map (Chars.folded tree.caseSensitive) ≠ [] := by simpa using hne
  have hsmall : ∀ piece ∈ names.map (Chars.folded tree.caseSensitive), Chars.IsPiece piece :=
    Chars.isPiece_of_mem_map_folded hnames
  have hstep : Path.IsPlain link →
      (tree.hop? (tree.key (extend link names)) = some (tree.key (extend target names)) ↔
        (EndsInSlash link ↔ EndsInSlash target)) := by
    intro hplain
    rw [hop?_behind hlink hplain hbelow hsmallNe hsmall hlinkBelow, Option.some.injEq,
      ← String.toList_inj, String.toList_ofList, htargetBelow, List.append_cancel_left_eq]
    exact Chars.behind_eq_iff _ hsmallNe
  refine ⟨⟨fun hhop => ?_, fun h => (hstep h.1).2 h.2⟩, fun hplain hends hlast => ?_⟩
  · have hplain : Path.IsPlain link := by
      by_contra hnot
      have hnormal : Chars.IsNormal link.toList := hlinkKey ▸ tree.isNormal_key link
      obtain ⟨hroot, hbare⟩ := Chars.bare_of_not_isPlain hnormal fun h => hnot ⟨hnormal, h⟩
      rw [hop?_behind_bare hroot hbare hbelow hsmallNe hsmall hlinkBelow] at hhop
      exact absurd hhop (by simp)
    exact ⟨hplain, (hstep hplain).1 hhop⟩
  · -- Below the link one link more is followed.
    have hhop := (hstep hplain).2 hends
    have hresolve : tree.resolve (extend link names) =
        tree.follow 39 (tree.key (extend target names)) := follow_of_hop? hhop 39
    have hmore : tree.resolve (extend target names) =
        tree.follow 1 (tree.follow 39 (tree.key (extend target names))) := follow_add 39 1
    rw [← hresolve, follow_of_no_hop hlast] at hmore
    exact sameAnswers_of_resolve_eq hmore.symm

/-- A link to a directory behind another link, below a link to a drive. -/
def linkedDrive : MemoryTree :=
  ((MemoryTree.writeFile {} "/real/lib/a.ts" "a").linkDirectory "c:/" "/").linkDirectory
    "/lib" "c:/real/lib"

/-- The example link onto a drive is followed: both spellings give the same answers, and find the
file. -/
theorem link_interchangeable_drive :
    linkedDrive.SameAnswers (extend "/lib" ["a.ts".toList]) (extend "c:/real/lib" ["a.ts".toList]) ∧
      linkedDrive.fileExists (extend "/lib" ["a.ts".toList]) = true := by
  have hbuilt : linkedDrive.Built :=
    .linkDirectory _ _ (.linkDirectory _ _ (.writeFile _ _ (.new true)))
  have hplain : Path.IsPlain "/lib" :=
    ⟨Path.isNormal_of_normalize_eq (by decide +kernel), ['/'], ["lib".toList], .slash,
      List.forall_mem_singleton.2 ⟨by decide, by decide⟩, by decide, rfl⟩
  have hlink : linkedDrive.links.get? "/lib" = some "c:/real/lib" := by decide +kernel
  have hbelow : ∀ other ∈ linkedDrive.links.keys, Path.contains "/lib" other = true →
      other = "/lib" := by
    decide +kernel
  have hname : Chars.IsSegment "a.ts".toList :=
    ⟨⟨by decide, by decide⟩, by decide, by decide, by decide⟩
  obtain ⟨-, hsame⟩ := link_interchangeable hbuilt hlink hbelow (List.cons_ne_nil _ [])
    (List.forall_mem_singleton.2 hname)
  exact ⟨hsame hplain (by decide) (by decide +kernel), by decide +kernel⟩

/-- A link to the root. -/
def linkedRoot : MemoryTree :=
  (MemoryTree.writeFile {} "/x" "").linkDirectory "/l" "/"

/-- Below a link to the root the path has two slashes, and nothing is there. -/
theorem not_interchangeable_linkedRoot :
    linkedRoot.Built ∧ linkedRoot.links.get? "/l" = some "/" ∧ linkedRoot.links.keys = ["/l"] ∧
      linkedRoot.hop? (linkedRoot.resolve (extend "/l" [['x']])) = none ∧
      linkedRoot.fileExists (extend "/l" [['x']]) = false ∧
      linkedRoot.fileExists (extend "/" [['x']]) = true := by
  refine ⟨.linkDirectory _ _ (.writeFile _ _ (.new true)), ?_⟩
  decide +kernel

end MemoryTree

end AutoImport
