import AutoImport.Entrypoints
import AutoImport.Proofs.Files.StoredKeys

/-!
# Files that a search can find

A search for entry points finds files in two ways: it spells a path with other extensions, or it
walks through listed directories.  Neither leaves the directory that it starts from.  A spelling
differs from its path in the last segment only (`EntryKind.exists_last_of_mem_spellings`).  A walk
adds listed names to its root and never enters `node_modules`, so an accepted file is the root
followed by names other than `node_modules` (`Entrypoints.exists_names_of_mem_filesBelow`).  The one
way out is a name that is itself a drive; what lies behind it does not begin with `/`.
-/

set_option autoImplicit false

namespace AutoImport

namespace Text

/-- An ending without the separator is an ending of the last piece. -/
theorem exists_of_append_eq_append_separator {sep : Char} {start ending before last : Chars}
    (h : start ++ ending = before ++ sep :: last) (hending : sep ∉ ending) :
    ∃ kept, start = before ++ sep :: kept ∧ last = kept ++ ending := by
  rcases List.append_eq_append_iff.1 h with ⟨more, -, hend⟩ | ⟨more, hstart, hrest⟩
  · exact absurd (by rw [hend]; simp) hending
  · cases more with
    | nil =>
      rw [List.nil_append] at hrest
      exact absurd (by rw [← hrest]; simp) hending
    | cons c kept =>
      rw [List.cons_append, List.cons.injEq] at hrest
      exact ⟨kept, by rw [hstart, hrest.1], hrest.2⟩

end Text

/-! ## Listed names -/

/-- Directories list segments.  A root may be listed in itself, under no name. -/
structure FileView.ListsNames (view : FileView) : Prop where
  files : ∀ directory, ∀ name ∈ view.files directory, Chars.IsSegment name.toList
  directories : ∀ directory, ∀ name ∈ view.directories directory,
    name = "" ∨ Chars.IsSegment name.toList

/-- The base name of a normal path is a segment, but that of a root is empty. -/
theorem Chars.baseName_of_isNormal {path : Chars} (h : IsNormal path) :
    baseName path = [] ∨ IsSegment (baseName path) := by
  obtain ⟨root, segments, hroot, hsegments, rfl⟩ := h
  rcases List.eq_nil_or_concat segments with rfl | ⟨start, last, rfl⟩
  · rw [build_nil]
    exact Or.inl (baseName_root hroot)
  · rw [List.concat_eq_append] at hsegments ⊢
    have hlast := hsegments last (by simp)
    rw [baseName_build hroot fun s hs => (hsegments s hs).isPiece]
    right
    split
    · rename_i hbare
      cases hroot with
      | slash => simp at hbare
      | drive c hc => simp at hbare
      | bare c hc =>
        refine ⟨⟨by simp, ?_⟩, ?_, ?_, ?_⟩
        · simp [(ne_slash_of_isAlpha hc).symm, hlast.isPiece.2]
        · simp [(ne_backslash_of_isAlpha hc).symm, hlast.noBackslash]
        · simp
        · simp
    · exact hlast

namespace MemoryTree

/-- A tree of normal paths lists segments. -/
theorem listsNames_view {tree : MemoryTree}
    (hkeys : ∀ key ∈ tree.files.keys ++ (tree.directories ++ tree.links.keys),
      Path.normalize key "/" = key)
    (hfiles : ∀ key ∈ tree.files.keys, Path.baseName key ≠ "") : tree.view.ListsNames := by
  have hnames : ∀ key ∈ tree.files.keys ++ (tree.directories ++ tree.links.keys),
      Path.baseName key = "" ∨ Chars.IsSegment (Path.baseName key).toList := by
    intro key hkey
    unfold Path.baseName
    rw [String.toList_ofList]
    refine (Chars.baseName_of_isNormal (Path.isNormal_of_normalize_eq (hkeys key hkey))).imp_left ?_
    intro hnil
    rw [hnil]
  constructor
  · intro directory name hname
    obtain ⟨key, hkey, -, rfl⟩ := exists_key_of_mem_namesIn hname
    exact (hnames key (List.mem_append_left _ hkey)).resolve_left (hfiles key hkey)
  · intro directory name hname
    obtain ⟨key, hkey, -, rfl⟩ := exists_key_of_mem_namesIn hname
    exact hnames key (List.mem_append_right _ (List.mem_filter.1 hkey).1)

end MemoryTree

/-! ## Spellings -/

namespace Chars

/-- The last segment of a path stands behind a `/`. -/
theorem exists_build_concat (segments : List Chars) :
    ∃ before, ∀ last, build ['/'] (segments ++ [last]) = before ++ '/' :: last := by
  by_cases hnil : segments = []
  · subst hnil
    exact ⟨[], fun last => rfl⟩
  · exact ⟨build ['/'] segments, fun last => build_concat ['/'] hnil last⟩

end Chars

namespace EntryKind

variable {kind : EntryKind}

/-- Extensions are not empty, hold no separator, and end none of the names that are special. -/
theorem extensions_spec : ∀ kind : EntryKind, ∀ extension ∈ kind.extensions,
    extension.toList ≠ [] ∧ '/' ∉ extension.toList ∧ '\\' ∉ extension.toList ∧
      ∀ name ∈ [['.'], ['.', '.'], packagesName.toList],
        extension.toList.isSuffixOf name = false := by
  intro kind
  cases kind <;> decide

/-- A kind accepts the files that end in one of its extensions. -/
theorem accepts_iff {file : String} :
    kind.accepts file = true ↔
      ∃ extension ∈ kind.extensions, ∃ start, start ++ extension.toList = file.toList := by
  unfold accepts Text.endsWith
  simp only [List.any_eq_true, List.isSuffixOf_iff_suffix]
  rfl

/-- An accepted file has a name, and the name is none of the special ones. -/
theorem last_of_accepts {file : String} {before last : Chars} (h : kind.accepts file = true)
    (hfile : file.toList = before ++ '/' :: last) :
    last ≠ [] ∧ last ∉ [['.'], ['.', '.'], packagesName.toList] := by
  obtain ⟨extension, hextension, start, hstart⟩ := accepts_iff.1 h
  obtain ⟨hne, hslash, -, hspecial⟩ := extensions_spec kind extension hextension
  rw [hfile] at hstart
  obtain ⟨kept, -, rfl⟩ := Text.exists_of_append_eq_append_separator hstart hslash
  refine ⟨by simp [hne], fun hmem => ?_⟩
  have hsuffix : extension.toList.isSuffixOf (kept ++ extension.toList) = true :=
    List.isSuffixOf_iff_suffix.2 (List.suffix_append _ _)
  rw [hspecial _ hmem] at hsuffix
  exact absurd hsuffix (by decide)

/-- Every extension that may be put in the place of another, or behind a path, is accepted. -/
theorem tried_extensions : ∀ kind : EntryKind,
    (∀ old ∈ scriptExtensions, ∀ new ∈ kind.substitutions old, new ∈ kind.extensions) ∧
      ∀ new ∈ kind.candidates, new ∈ kind.extensions := by
  intro kind
  cases kind <;> decide

/-- A spelling has another ending, and is accepted. -/
theorem exists_of_mem_spellings {file path : String} (h : file ∈ kind.spellings path) :
    kind.accepts file = true ∧ ∃ start old new : Chars, '/' ∉ old ∧ '/' ∉ new ∧ '\\' ∉ new ∧
      path.toList = start ++ old ∧ file.toList = start ++ new := by
  obtain ⟨hsubstitutions, hcandidates⟩ := tried_extensions kind
  unfold spellings at h
  rcases List.mem_append.1 h with h | h
  · rcases List.mem_append.1 h with h | h
    · split at h
      · rename_i haccepts
        rw [List.mem_singleton.1 h]
        exact ⟨haccepts, path.toList, [], [], by simp, by simp, by simp, by simp, by simp⟩
      · simp at h
    · unfold exchanged at h
      split at h
      · rename_i old hold
        obtain ⟨new, hnew, rfl⟩ := List.mem_map.1 h
        have hmem := hsubstitutions old (List.mem_of_find?_eq_some hold) new hnew
        have hends := List.find?_some hold
        unfold Text.endsWith at hends
        obtain ⟨start, hstart⟩ := List.isSuffixOf_iff_suffix.1 hends
        have htake : path.toList.take (path.length - old.length) = start := by
          rw [← hstart, ← String.length_toList, ← hstart, ← String.length_toList (s := old),
            List.length_append, Nat.add_sub_cancel, List.take_left]
        have hfile : (String.ofList (path.toList.take (path.length - old.length)) ++ new).toList =
            start ++ new.toList := by
          rw [String.toList_append, String.toList_ofList, htake]
        obtain ⟨-, hslash, hback, -⟩ := extensions_spec kind new hmem
        refine ⟨accepts_iff.2 ⟨new, hmem, start, hfile.symm⟩, start, old.toList, new.toList, ?_,
          hslash, hback, hstart.symm, hfile⟩
        exact (extensions_spec .script old (List.mem_of_find?_eq_some hold)).2.1
      · simp at h
  · obtain ⟨new, hnew, rfl⟩ := List.mem_map.1 h
    have hmem := hcandidates new hnew
    obtain ⟨-, hslash, hback, -⟩ := extensions_spec kind new hmem
    exact ⟨accepts_iff.2 ⟨new, hmem, path.toList, by rw [String.toList_append]⟩, path.toList, [],
      new.toList, by simp, hslash, hback, by simp, by simp⟩

/-- A spelling of a path differs from it in the last segment. -/
theorem exists_last_of_mem_spellings {file path : String} {segments : List Chars} {last : Chars}
    (h : file ∈ kind.spellings path)
    (hpath : path.toList = Chars.build ['/'] (segments ++ [last])) (hlast : Chars.IsSegment last) :
    ∃ other, Chars.IsSegment other ∧ other ≠ packagesName.toList ∧
      file.toList = Chars.build ['/'] (segments ++ [other]) := by
  obtain ⟨haccepts, start, old, new, hold, hnew, hback, hstart, hfile⟩ := exists_of_mem_spellings h
  obtain ⟨before, hbefore⟩ := Chars.exists_build_concat segments
  rw [hstart, hbefore] at hpath
  obtain ⟨kept, rfl, rfl⟩ := Text.exists_of_append_eq_append_separator hpath hold
  rw [List.append_assoc, List.cons_append] at hfile
  obtain ⟨hne, hspecial⟩ := last_of_accepts haccepts hfile
  simp only [List.mem_cons, List.not_mem_nil, or_false, not_or] at hspecial
  obtain ⟨hhere, hup, hpackages⟩ := hspecial
  refine ⟨kept ++ new, ⟨⟨hne, ?_⟩, ?_, hhere, hup⟩, hpackages, by rw [hbefore, hfile]⟩
  · intro hmem
    exact (List.mem_append.1 hmem).elim (fun hmem => hlast.isPiece.2 (by simp [hmem])) hnew
  · intro hmem
    exact (List.mem_append.1 hmem).elim (fun hmem => hlast.noBackslash (by simp [hmem])) hback

end EntryKind

/-! ## Walks -/

namespace Chars

/-- Joining nothing to a path leaves the path. -/
theorem join_nil {path : Chars} (hback : '\\' ∉ path) : join path [] = path := by
  cases path with
  | nil => rfl
  | cons c cs =>
    unfold join
    dsimp only
    rw [slashed_of_not_mem hback]
    rfl

end Chars

namespace Entrypoints

/-- Whatever a walk finds is listed in a directory on its way.  `P` is what the first directory has
and each child other than `node_modules` takes over. -/
theorem exists_listed_of_mem_walk {view : FileView} {P : String → Prop}
    (hchild : ∀ directory, P directory → ∀ child ∈ view.directories directory,
      child ≠ packagesName → P (Path.join directory child))
    (fuel : Nat) (directory : String) (hdirectory : P directory) (done : Walk) {file : String}
    (h : file ∈ (walk view fuel directory done).found) :
    file ∈ done.found ∨ ∃ parent, P parent ∧ ∃ name ∈ view.files parent,
      file = Path.join parent name := by
  induction fuel generalizing directory done with
  | zero => exact Or.inl h
  | succ fuel ih =>
    rw [walk] at h
    dsimp only at h
    split at h
    · exact Or.inl h
    · -- The files of the directory come first, then those below each child in turn.
      have hchildren : ∀ children : List String,
          (∀ child ∈ children, child ∈ view.directories directory ∧ child ≠ packagesName) →
          ∀ walked : Walk,
            file ∈ (children.foldl (fun walked child =>
              walk view fuel (Path.join directory child) walked) walked).found →
            file ∈ walked.found ∨ ∃ parent, P parent ∧ ∃ name ∈ view.files parent,
              file = Path.join parent name := by
        intro children hall
        induction children with
        | nil => exact fun walked hmem => Or.inl hmem
        | cons child rest ihRest =>
          intro walked hmem
          obtain ⟨hlisted, hother⟩ := hall child List.mem_cons_self
          rcases ihRest (fun c hc => hall c (List.mem_cons_of_mem _ hc)) _ hmem with hmem | hfound
          · exact ih (Path.join directory child) (hchild directory hdirectory child hlisted hother)
              walked hmem
          · exact Or.inr hfound
      have hlisted : ∀ child ∈ (view.directories directory).filter (· ≠ packagesName),
          child ∈ view.directories directory ∧ child ≠ packagesName := by
        intro child hmem
        obtain ⟨hmem, hother⟩ := List.mem_filter.1 hmem
        exact ⟨hmem, of_decide_eq_true hother⟩
      rcases hchildren _ hlisted _ h with hmem | hfound
      · rcases List.mem_append.1 hmem with hmem | hmem
        · exact Or.inl hmem
        · obtain ⟨name, hname, rfl⟩ := List.mem_map.1 hmem
          exact Or.inr ⟨directory, hdirectory, name, hname, rfl⟩
      · exact Or.inr hfound

/-- What a walk reaches from the directory of some segments: that directory followed by names other
than `node_modules`, or, behind a name that is a drive, a path that does not begin with `/`. -/
inductive Reached (segments : List Chars) : Chars → Prop where
  | below (names : List Chars) (hnames : ∀ name ∈ names, Chars.IsSegment name)
    (hother : packagesName.toList ∉ names) :
    Reached segments (Chars.build ['/'] (segments ++ names))
  | elsewhere (path : Chars) (hslash : path.head? ≠ some '/') (hback : '\\' ∉ path) :
    Reached segments path

/-- A file is a name in a directory that a walk reaches. -/
def IsFound (segments : List Chars) (file : String) : Prop :=
  ∃ path name, Reached segments path ∧ Chars.IsSegment name ∧ file.toList = Chars.join path name

section Walks

variable {view : FileView} {segments : List Chars}
  (hsegments : ∀ segment ∈ segments, Chars.IsSegment segment)

include hsegments

/-- Segments put behind those of a directory make a normal path. -/
theorem isNormal_build_append {names : List Chars}
    (hnames : ∀ name ∈ names, Chars.IsSegment name) :
    Chars.IsNormal (Chars.build ['/'] (segments ++ names)) :=
  ⟨['/'], _, .slash, List.forall_mem_append.2 ⟨hsegments, hnames⟩, rfl⟩

/-- No path that a walk reaches has a backslash. -/
theorem Reached.noBackslash {path : Chars} (h : Reached segments path) : '\\' ∉ path := by
  cases h with
  | below names hnames hother => exact (isNormal_build_append hsegments hnames).noBackslash
  | elsewhere path hslash hback => exact hback

/-- A name in a directory that is reached is one more name behind the segments, unless it is or
lies on a drive. -/
theorem Reached.join_cases {path name : Chars} (h : Reached segments path)
    (hname : Chars.IsSegment name) :
    ((Chars.join path name).head? ≠ some '/' ∧ '\\' ∉ Chars.join path name) ∨
      ∃ names, (∀ other ∈ names, Chars.IsSegment other) ∧ packagesName.toList ∉ names ∧
        Chars.join path name = Chars.build ['/'] (segments ++ (names ++ [name])) := by
  have hback := h.noBackslash hsegments
  have hbackName := hname.noBackslash
  have hhead : name.head? ≠ some '/' := fun hslash => hname.isPiece.2 (List.mem_of_head? hslash)
  cases hrooted : Chars.isRooted name with
  | true =>
    rw [Chars.join_of_isRooted _ hrooted hbackName]
    exact Or.inl ⟨hhead, hbackName⟩
  | false =>
    cases h with
    | below names hnames hother =>
      refine Or.inr ⟨names, hnames, hother, ?_⟩
      have hpieces : ∀ piece ∈ segments ++ names, Chars.IsPiece piece := fun piece hpiece =>
        (List.forall_mem_append.2 ⟨hsegments, hnames⟩ piece hpiece).isPiece
      rcases Chars.join_build .slash hpieces hback ⟨hname, hrooted⟩ with ⟨-, hjoin⟩ | ⟨-, hbare, -⟩
      · rw [hjoin, List.append_assoc]
      · exact absurd (List.mem_singleton_self _) hbare
    | elsewhere path hslash =>
      left
      cases path with
      | nil =>
        have hjoin : Chars.join [] name = name := Chars.slashed_of_not_mem hbackName
        rw [hjoin]
        exact ⟨hhead, hbackName⟩
      | cons c cs =>
        rw [Chars.join_relative (by simp) hback hname.isPiece.1 hbackName hrooted]
        split
        · exact ⟨hslash, fun hmem => (List.mem_append.1 hmem).elim hback hbackName⟩
        · refine ⟨hslash, fun hmem => ?_⟩
          rcases List.mem_append.1 hmem with hmem | hmem
          · exact hback hmem
          · exact hbackName (by simpa using hmem)

/-- A walk that has reached a directory reaches what it joins to it, other than `node_modules`. -/
theorem Reached.join {path name : Chars} (h : Reached segments path)
    (hname : name = [] ∨ Chars.IsSegment name) (hother : name ≠ packagesName.toList) :
    Reached segments (Chars.join path name) := by
  rcases hname with rfl | hname
  · rw [Chars.join_nil (h.noBackslash hsegments)]
    exact h
  · rcases h.join_cases hsegments hname with ⟨hslash, hback⟩ | ⟨names, hnames, hnot, hjoin⟩
    · exact .elsewhere _ hslash hback
    · rw [hjoin]
      apply Reached.below
      · exact List.forall_mem_append.2 ⟨hnames, List.forall_mem_singleton.2 hname⟩
      · simp [hnot, Ne.symm hother]

/-- Whatever a walk finds lies in a directory that it reaches. -/
theorem isFound_of_mem_walk (hview : view.ListsNames) (fuel : Nat) (directory : String)
    (hdirectory : Reached segments directory.toList) (done : Walk) {file : String}
    (h : file ∈ (walk view fuel directory done).found) :
    file ∈ done.found ∨ IsFound segments file := by
  have hchild : ∀ directory : String, Reached segments directory.toList →
      ∀ child ∈ view.directories directory, child ≠ packagesName →
        Reached segments (Path.join directory child).toList := by
    intro directory hreached child hlisted hother
    unfold Path.join
    rw [String.toList_ofList]
    refine hreached.join hsegments ((hview.directories directory child hlisted).imp_left ?_) ?_
    · intro hempty
      rw [hempty]
      rfl
    · exact fun heq => hother (String.toList_inj.1 heq)
  refine (exists_listed_of_mem_walk hchild fuel directory hdirectory done h).imp_right ?_
  rintro ⟨parent, hparent, name, hname, rfl⟩
  exact ⟨parent.toList, name.toList, hparent, hview.files parent name hname, String.toList_ofList⟩

/-- An accepted file below a directory is the directory followed by names other than
`node_modules`. -/
theorem exists_names_of_mem_filesBelow (hview : view.ListsNames) {kind : EntryKind} {root : String}
    (hroot : Reached segments root.toList) {file : String} (h : file ∈ filesBelow view root)
    (haccepts : kind.accepts file = true) (hslash : Path.IsSlashRooted file) :
    ∃ names, names ≠ [] ∧ (∀ name ∈ names, Chars.IsSegment name) ∧ packagesName.toList ∉ names ∧
      file.toList = Chars.build ['/'] (segments ++ names) := by
  rcases isFound_of_mem_walk hsegments hview _ root hroot _ h with hnone |
    ⟨path, name, hpath, hname, hfile⟩
  · simp at hnone
  · rcases hpath.join_cases hsegments hname with ⟨hother, -⟩ | ⟨names, hnames, hnot, hjoin⟩
    · rw [← hfile] at hother
      exact absurd hslash hother
    · rw [hjoin] at hfile
      refine ⟨names ++ [name], by simp, ?_, ?_, hfile⟩
      · exact List.forall_mem_append.2 ⟨hnames, List.forall_mem_singleton.2 hname⟩
      · obtain ⟨before, hbefore⟩ := Chars.exists_build_concat (segments ++ names)
        rw [← List.append_assoc, hbefore] at hfile
        have hlast := (EntryKind.last_of_accepts haccepts hfile).2
        simp only [List.mem_cons, not_or] at hlast
        simp [hnot, Ne.symm hlast.2.2.1]

end Walks

end Entrypoints

end AutoImport
