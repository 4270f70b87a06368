import AutoImport.Proofs.Discovery.DependencyCap
import AutoImport.Proofs.Discovery.RootOrigins
import AutoImport.Proofs.Entrypoints.AcceptedFiles
import AutoImport.Proofs.Files.FollowedLinks
import AutoImport.Proofs.Files.ReadingByKey
import Mathlib.Data.List.Nodup

/-!
# Roots and real paths

A root is meant to be a real path, so that no file is rooted twice.  Of the links on the way to an
entry point only those on the way to its package are followed: the real directory of the package is
put in place of the directory in which the package was found.  So a root is a real path where the
entry point lies in its package and no link lies between them (`MemoryTree.Encloses`), and roots
that are real paths are different files (`roots_are_real`).  Other links in the package, such as
those of a workspace in its `node_modules`, do not matter.

A link between the package and its entry point stays in the root.  Two packages that link to one
directory give one file two roots (`one_file_two_roots`).
-/

set_option autoImplicit false

namespace AutoImport

/-! ## Entry points are there -/

/-- An entry point was probed, or listed in a directory. -/
theorem Entrypoints.fileExists_or_listed {view : FileView} {kind : EntryKind}
    {options : CompilerOptions} {manifest : Manifest} {entries : List String}
    (h : (entrypoints view kind options manifest).val = some entries) {entry : String}
    (hentry : entry ∈ entries) :
    view.fileExists entry = true ∨
      ∃ parent, ∃ name ∈ view.files parent, entry = Path.join parent name := by
  rcases mem_entrypoints h hentry with hmain | ⟨-, target, -, -, hleads⟩
  · exact Or.inl (isEntryFile_of_main hmain).fileExists
  · cases hleads with
    | exact _ _ _ hfile => exact Or.inl (isEntryFile_of_file? hfile).fileExists
    | pattern _ _ _ _ hfound _ _ => exact Or.inr (exists_listed_of_mem_filesBelow hfound)

/-- A segment changes by a `join` only if it is relative, to something. -/
theorem Chars.relative_of_join_ne {parent name : Chars} (hname : IsSegment name)
    (h : join parent name ≠ name) : parent ≠ [] ∧ isRooted name = false := by
  constructor
  · rintro rfl
    refine h ?_
    unfold join
    dsimp only
    rw [slashed_of_not_mem hname.noBackslash]
    rfl
  · by_contra hrooted
    exact h (join_of_isRooted _ (by simpa using hrooted) hname.noBackslash)

/-- A path whose directory lies behind a deep place lies there too, one piece further. -/
theorem Path.eq_extend_concat {path place : String} {pieces : List Chars}
    (hnormal : Path.IsNormal path) (hdeep : Chars.IsDeep place.toList)
    (hpieces : ∀ piece ∈ pieces, Chars.IsPiece piece)
    (h : Path.directory path = Path.extend place pieces) :
    path = Path.extend place (pieces ++ [Chars.baseName path.toList]) := by
  have hchars := congrArg String.toList h
  unfold Path.directory at hchars
  rw [String.toList_ofList, Path.toList_extend] at hchars
  rw [← String.toList_inj, Path.toList_extend, Chars.trail_concat, ← List.append_assoc, ← hchars]
  refine Chars.eq_directory_append hnormal ?_
  rw [hchars]
  exact hdeep.append_trail hpieces

namespace MemoryTree

variable {tree : MemoryTree} {directory : String}

/-- The path lies in the directory, no link lies on the way to it from the directory or from a place
that the directory leads to, and the place that it leads to in the end is real. -/
structure Encloses (tree : MemoryTree) (directory path : String) : Prop where
  inside : ∃ more, more ≠ [] ∧ (∀ segment ∈ more, Chars.IsSegment segment) ∧
    path = Path.extend directory more ∧
    ∀ hops, tree.IsClear (tree.follow hops (tree.key directory))
      (more.map (Chars.folded tree.caseSensitive))
  settles : tree.resolve (tree.resolve directory) = tree.resolve directory

/-- A directory that encloses a path lies below a root. -/
theorem Encloses.deep {path : String} (h : tree.Encloses directory path) :
    Chars.IsDeep (tree.key directory).toList := by
  obtain ⟨more, -, -, -, hclear⟩ := h.inside
  exact (hclear 0).deep

/-- Where a segment behind one directory is the path of segments behind another, it is the last of
these, and the one directory has the key of the other with the segments before it. -/
theorem key_eq_of_join {parent : String} {name last : Chars} {init : List Chars}
    (hname : Chars.IsSegment name) (hlast : '/' ∉ last)
    (hinit : ∀ segment ∈ init, Chars.IsSegment segment)
    (hdeep : Chars.IsDeep (tree.key directory).toList)
    (h : Path.join parent (.ofList name) = Path.extend directory (init ++ [last])) :
    name = last ∧ tree.key parent = tree.key (Path.extend directory init) := by
  have hchars : Chars.join parent.toList name =
      (Path.extend directory init).toList ++ '/' :: last := by
    have := congrArg String.toList h
    unfold Path.join at this
    rwa [String.toList_ofList, String.toList_ofList, Path.toList_extend, Chars.trail_concat,
      ← List.append_assoc, ← Path.toList_extend] at this
  -- By itself the segment would have no `/` before it.
  have hjoined : Chars.join parent.toList name ≠ name := by
    intro hself
    rw [hself] at hchars
    exact hname.isPiece.2 (hchars ▸ by simp)
  obtain ⟨hparent, hunrooted⟩ := Chars.relative_of_join_ne hname hjoined
  rw [Chars.join_eq_stem hparent ⟨hname, hunrooted⟩] at hchars
  obtain ⟨start, hstem, hslashed⟩ := Chars.exists_stem parent.toList
  rw [hstem, List.append_assoc] at hchars
  obtain ⟨hstart, hsame⟩ := Chars.append_slash_inj hname.isPiece.2 hlast hchars
  have hkey : tree.key (Path.extend directory init) =
      Path.extend (tree.key directory) (init.map (Chars.folded tree.caseSensitive)) :=
    Path.canonical_extend (ne_empty_of_deep_key hdeep) hinit hdeep
  have hdeepKey : Chars.IsDeep (tree.key (Path.extend directory init)).toList := by
    rw [hkey, Path.toList_extend]
    exact hdeep.append_trail (Chars.isPiece_of_mem_map_folded hinit)
  have hparentKey : tree.key (Path.slashed parent) = tree.key parent :=
    Path.canonical_slashed parent "/" tree.caseSensitive
  have hslashedChars : (Path.slashed parent).toList = Chars.slashed parent.toList :=
    String.toList_ofList
  refine ⟨hsame, ?_⟩
  rw [← hparentKey]
  rcases hslashed with heq | heq
  · have hpath : Path.slashed parent = Path.extend directory init := by
      rw [← String.toList_inj, hslashedChars, heq, hstart]
    rw [hpath]
  · have hne : (Path.extend directory init).toList ≠ [] := fun hnil =>
      ne_empty_of_deep_key hdeepKey (String.toList_inj.1 hnil)
    unfold key Path.canonical at hdeepKey ⊢
    rw [String.toList_ofList] at hdeepKey
    rw [hslashedChars, heq, hstart, Chars.canonical_concat_slash hne hdeepKey]

/-- A name that is listed below a directory is that of a file if no link lies on the way to it. -/
theorem fileExists_of_listed (htree : tree.IsHierarchy) {parent name : String}
    (hname : name ∈ tree.fileNames parent) {more : List Chars}
    (h : ∀ hops, tree.IsClear (tree.follow hops (tree.key directory))
      (more.map (Chars.folded tree.caseSensitive)))
    (hne : more ≠ []) (hmore : ∀ segment ∈ more, Chars.IsSegment segment)
    (hpath : Path.join parent name = Path.extend directory more) :
    tree.fileExists (Path.extend directory more) = true := by
  obtain ⟨file, hfile, hdirectory, rfl⟩ := exists_key_of_mem_namesIn hname
  have hkey := htree.key file hfile
  have hnormal : Path.IsNormal file := hkey ▸ tree.isNormal_key file
  suffices hresolve : tree.resolve (Path.extend directory more) = file by
    unfold fileExists
    rw [hresolve]
    exact (tree.files.contains_iff_mem_keys file).2 hfile
  rcases Chars.baseName_of_isNormal hnormal with hnil | hsegment
  · -- A root is listed in itself, under no name.
    have hroot : Path.directory file = file := by
      unfold Path.directory
      rw [Chars.directory_of_baseName_eq_nil hnormal hnil, String.ofList_toList]
    have hparent : Path.slashed parent = Path.extend directory more := by
      rw [← hpath, ← String.toList_inj]
      unfold Path.slashed Path.join Path.baseName
      rw [hnil, String.toList_ofList, String.toList_ofList]
      cases parent.toList <;> rfl
    rw [← hroot, hdirectory, ← hparent]
    exact resolve_of_key_eq (Path.canonical_slashed parent "/" tree.caseSensitive)
  · obtain ⟨init, last, rfl⟩ := (List.eq_nil_or_concat more).resolve_left hne
    rw [List.concat_eq_append] at h hmore hpath ⊢
    have hinit : ∀ segment ∈ init, Chars.IsSegment segment := fun segment hmem =>
      hmore segment (List.mem_append_left _ hmem)
    obtain ⟨rfl, hparent⟩ := key_eq_of_join hsegment (hmore last (by simp)).isPiece.2 hinit
      (h 0).deep hpath
    have hinitClear : ∀ hops, tree.IsClear (tree.follow hops (tree.key directory))
        (init.map (Chars.folded tree.caseSensitive)) := fun hops =>
      (h hops).mono ((List.prefix_append _ _).map _)
    have hplace : Path.directory file = Path.extend (tree.resolve directory)
        (init.map (Chars.folded tree.caseSensitive)) := by
      rw [hdirectory, resolve_of_key_eq hparent]
      exact tree.resolve_extend hinitClear hinit
    have hplaceDeep : Chars.IsDeep (tree.resolve directory).toList := (h hopLimit).deep
    have hsmall : ∀ piece ∈ init.map (Chars.folded tree.caseSensitive), Chars.IsPiece piece :=
      Chars.isPiece_of_mem_map_folded hinit
    -- The file is its directory and its name, which is in small letters if the file is.
    have hwhole := Path.eq_extend_concat hnormal hplaceDeep hsmall hplace
    rw [hwhole] at hkey
    obtain ⟨-, hfolded⟩ := key_eq_of_extend hplaceDeep (List.forall_mem_append.2
      ⟨hsmall, List.forall_mem_singleton.2 hsegment.isPiece⟩) hkey
    rw [List.map_append, List.map_singleton] at hfolded
    have hlast := (List.append_inj' hfolded rfl).2
    rw [tree.resolve_extend h hmore, List.map_append, List.map_singleton, hlast]
    exact hwhole.symm

/-- A file that a directory encloses lies behind the real path of the directory, and so does the
file under the real path. -/
theorem Encloses.exists_place {path : String} (h : tree.Encloses directory path)
    (htree : tree.IsHierarchy) (hfile : tree.resolve path ∈ tree.files.keys) :
    ∃ place more, tree.realPath directory = some place ∧ tree.key place = place ∧
      Chars.IsDeep place.toList ∧ (∀ segment ∈ more, Chars.IsSegment segment) ∧
      path = Path.extend directory more ∧
      tree.resolve path = Path.extend place (more.map (Chars.folded tree.caseSensitive)) ∧
      tree.resolve (Path.extend place more) = tree.resolve path := by
  obtain ⟨more, hne, hmore, rfl, hclear⟩ := h.inside
  have hresolve := tree.resolve_extend hclear hmore
  have hsmall : ∀ piece ∈ more.map (Chars.folded tree.caseSensitive), Chars.IsPiece piece :=
    Chars.isPiece_of_mem_map_folded hmore
  have hdeep : Chars.IsDeep (tree.resolve directory).toList := (hclear hopLimit).deep
  have hkey := htree.key _ hfile
  rw [hresolve] at hfile hkey
  obtain ⟨hplace, -⟩ := key_eq_of_extend hdeep hsmall hkey
  have hknown := htree.mem_directories hdeep (by simpa using hne) hsmall hfile
  -- The real directory leads nowhere that the directory does not lead.
  have hclearBehind : ∀ hops, tree.IsClear
      (tree.follow hops (tree.key (tree.resolve directory)))
      (more.map (Chars.folded tree.caseSensitive)) := by
    intro hops
    rw [hplace]
    unfold resolve
    rw [← follow_add]
    exact hclear _
  refine ⟨tree.resolve directory, more, ?_, hplace, hdeep, hmore, rfl, hresolve, ?_⟩
  · unfold realPath
    dsimp only
    rw [if_pos (Or.inr hknown)]
  · rw [tree.resolve_extend hclearBehind hmore, h.settles, hresolve]

/-- The real path of a path is the path itself, up to its spelling. -/
def IsReal (tree : MemoryTree) (key : String → String) (path : String) : Prop :=
  ∃ real, tree.realPath path = some real ∧ key real = key path

/-- The real path of a file is the place that its path resolves to. -/
theorem realPath_of_file {path : String} (h : tree.resolve path ∈ tree.files.keys) :
    tree.realPath path = some (tree.resolve path) := by
  unfold realPath
  dsimp only
  rw [if_pos (Or.inl ((tree.files.contains_iff_mem_keys _).2 h))]

end MemoryTree

namespace Discovery

variable {tree : MemoryTree} {site : Site} {offer : Offer} {entry root : String}

/-- A real path is taken for a link unless it is the directory itself. -/
theorem Site.linkedDirectory?_of_realPath (site : Site) {directory real : String}
    (h : site.view.realPath directory = some real) :
    site.linkedDirectory? directory =
      if site.key real = site.key directory then none else some real := by
  unfold Site.linkedDirectory?
  rw [h, Option.filter_some]
  split <;> simp_all

/-- An entry point that its package encloses leads to a file. -/
theorem Site.Gives.resolve_entry (h : site.Gives offer entry root) (hview : site.view = tree.view)
    (htree : tree.IsHierarchy) (hencloses : tree.Encloses offer.manifest.directory entry) :
    tree.resolve entry ∈ tree.files.keys := by
  obtain ⟨kind, entries, hentries, hmem⟩ := h.entrypoint
  rw [hview] at hentries
  refine (tree.files.contains_iff_mem_keys _).1 ?_
  rcases Entrypoints.fileExists_or_listed hentries hmem with hprobed | ⟨parent, name, hname, hjoin⟩
  · exact hprobed
  · obtain ⟨more, hne, hmore, rfl, hclear⟩ := hencloses.inside
    exact MemoryTree.fileExists_of_listed htree hname hclear hne hmore hjoin.symm

/-- A root is a real path where its package encloses the entry point that gives it. -/
theorem Site.Gives.isReal (h : site.Gives offer entry root) (hview : site.view = tree.view)
    (hcase : site.caseSensitive = tree.caseSensitive) (htree : tree.IsHierarchy)
    (hencloses : tree.Encloses offer.manifest.directory entry) : tree.IsReal site.key root := by
  have hfile := h.resolve_entry hview htree hencloses
  obtain ⟨place, more, hreal, hplace, hdeep, hmore, hentry, hresolve, hbehind⟩ :=
    hencloses.exists_place htree hfile
  have hkey : ∀ path, tree.key path = path → site.key path = path := by
    intro path hpath
    unfold Site.key
    rw [hcase]
    exact MemoryTree.canonical_of_key_eq hpath site.directory
  -- Whatever has the key of the real directory, the segments come behind that key.
  have hextend : ∀ path : String, path ≠ "" → site.key path = place →
      site.key (Path.extend path more) = tree.resolve entry := by
    intro path hpath hpathKey
    unfold Site.key at hpathKey ⊢
    rw [hcase] at hpathKey ⊢
    rw [Path.canonical_extend hpath hmore (hpathKey ▸ hdeep), hpathKey, hresolve]
  suffices hroot : tree.resolve root = tree.resolve entry ∧ site.key root = tree.resolve entry by
    refine ⟨tree.resolve entry, ?_, ?_⟩
    · rw [← hroot.1]
      exact MemoryTree.realPath_of_file (hroot.1 ▸ hfile)
    · rw [hroot.2]
      exact hkey _ (htree.key _ hfile)
  have hviewed : site.view.realPath offer.manifest.directory = some place := by
    rw [hview]
    exact hreal
  have hlinked := site.linkedDirectory?_of_realPath hviewed
  by_cases hsame : site.key place = site.key offer.manifest.directory
  · rw [if_pos hsame] at hlinked
    have hdirectory : site.key offer.manifest.directory = place := by
      rw [← hsame]
      exact hkey place hplace
    have hkeyEntry := hextend offer.manifest.directory
      (MemoryTree.ne_empty_of_deep_key hencloses.deep) hdirectory
    rw [← hentry] at hkeyEntry
    rw [h.eq_entry hlinked]
    exact ⟨rfl, hkeyEntry⟩
  · rw [if_neg hsame] at hlinked
    have hroot : root = Path.extend place more := by
      rw [← String.toList_inj, Path.toList_extend]
      exact h.toList_eq hlinked (by rw [hentry, Path.toList_extend])
    rw [hroot]
    have hne : place ≠ "" := by
      rintro rfl
      exact hdeep.ne_nil rfl
    exact ⟨hbehind, hextend place hne (hkey place hplace)⟩

/-! ## Results -/

/-- How far the roots of a run are real paths. -/
structure RootsAreReal (tree : MemoryTree) (site : Site) (roots : List String) : Prop where
  given : ∀ root ∈ roots, ∃ offer entry, site.Gives offer entry root
  real : ∀ root ∈ roots, ∀ offer entry, site.Gives offer entry root →
    tree.Encloses offer.manifest.directory entry → tree.IsReal site.key root
  once : ∀ first ∈ roots, ∀ second ∈ roots, tree.IsReal site.key first →
    tree.IsReal site.key second → tree.realPath first = tree.realPath second → first = second

/-- Two roots with one real path that is theirs have one key. -/
theorem eq_of_realPath_eq {key : String → String} {roots : List String}
    (hdistinct : (roots.map key).Nodup) {first second : String} (hfirst : first ∈ roots)
    (hsecond : second ∈ roots) (hfirstReal : tree.IsReal key first)
    (hsecondReal : tree.IsReal key second) (h : tree.realPath first = tree.realPath second) :
    first = second := by
  obtain ⟨real, hreal, hkey⟩ := hfirstReal
  obtain ⟨other, hother, hotherKey⟩ := hsecondReal
  obtain rfl : real = other := Option.some.inj (hreal.symm.trans (h.trans hother))
  exact List.inj_on_of_nodup_map hdistinct hfirst hsecond (hkey.symm.trans hotherKey)

/-- No roots at all are real and without repetition. -/
theorem rootsAreReal_nil (tree : MemoryTree) (site : Site) : RootsAreReal tree site [] where
  given root hroot := absurd hroot (by simp)
  real root hroot := absurd hroot (by simp)
  once first hfirst := absurd hfirst (by simp)

/-- The roots of a discovery are real paths, each file once, when packages enclose what they
offer. -/
theorem rootsAreReal_discover (hview : site.view = tree.view)
    (hcase : site.caseSensitive = tree.caseSensitive) (htree : tree.IsHierarchy)
    (inclusion : Inclusion) (manifests : List Manifest) (caches : Caches) :
    RootsAreReal tree site (discover inclusion site manifests caches).val.1.roots where
  given root hroot := by
    obtain ⟨offer, -, entry, hgives⟩ := exists_gives_of_discover hroot
    exact ⟨offer, entry, hgives⟩
  real root _ offer entry hgives hencloses := hgives.isReal hview hcase htree hencloses
  once first hfirst second hsecond := eq_of_realPath_eq
    (discover_sound_site inclusion site manifests caches).distinct hfirst hsecond

end Discovery

/-- The surroundings of a discovery for a host outside a session. -/
def Standalone.site (view : FileView) (options : CompilerOptions) (host : Standalone)
    (program : Program) : Discovery.Site :=
  { view
    directory := host.directory
    caseSensitive := host.caseSensitive
    options
    program
    typings := host.typings
    resolutions := none }

namespace Discovery

/-- On any tree that was built, take a project of a session, or a host outside one, that tells
letters apart as the tree does, and any memories and inclusion.  Without a program there are no
roots.  With one, every root is given by an entry point of a package.  Where the package encloses
the entry point, the real path of the root is the root itself, up to spelling; and no two such roots
have one real path. -/
theorem roots_are_real {tree : MemoryTree} (htree : tree.Built) (inclusion : Inclusion)
    (options : CompilerOptions) :
    (∀ (services : Services) (project : Project) (cache : ManifestCache),
      let here : Services := { services with view := tree.view }
      let roots := (project.discover here inclusion options cache).val.1.roots
      project.caseSensitive = tree.caseSensitive →
        (project.program = none → roots = []) ∧
        ∀ program ∈ project.program,
          RootsAreReal tree (project.site here options program) roots) ∧
    ∀ host : Standalone,
      let roots := (host.discover tree.view inclusion options).val.1.roots
      host.caseSensitive = tree.caseSensitive →
        (host.program = none → roots = []) ∧
        ∀ program ∈ host.program,
          RootsAreReal tree (host.site tree.view options program) roots := by
  have hhierarchy := htree.isHierarchy
  constructor
  · intro services project cache here roots hcase
    refine ⟨fun hnone => ?_, fun program (hprogram : project.program = some program) => ?_⟩
    · show (project.discover here inclusion options cache).val.1.roots = []
      rw [discover_nothing (Or.inr hnone)]
      rfl
    · show RootsAreReal tree _ (project.discover here inclusion options cache).val.1.roots
      cases hoff : inclusion.isOff with
      | true =>
        rw [discover_nothing (Or.inl hoff)]
        exact rootsAreReal_nil tree _
      | false =>
        rw [discover_project hprogram hoff]
        simp only [Probed.val_bind, Probed.val_pure]
        have hview : (project.site here options program).view = tree.view := rfl
        exact rootsAreReal_discover hview hcase hhierarchy inclusion _ _
  · intro host roots hcase
    refine ⟨fun hnone => ?_, fun program (hprogram : host.program = some program) => ?_⟩
    · show (host.discover tree.view inclusion options).val.1.roots = []
      unfold Standalone.discover
      rw [hnone]
      cases inclusion.isOff <;> rfl
    · show RootsAreReal tree _ (host.discover tree.view inclusion options).val.1.roots
      cases hoff : inclusion.isOff with
      | true =>
        unfold Standalone.discover
        rw [hoff]
        exact rootsAreReal_nil tree _
      | false =>
        rw [discover_standalone hprogram hoff]
        simp only [Probed.val_bind, Probed.val_pure]
        have hview : (host.site tree.view options program).view = tree.view := rfl
        exact rootsAreReal_discover hview hcase hhierarchy inclusion _ _

/-- A tree in which an installed package is a link to another directory.  A package installed in
there is a link as well. -/
def linkedPackage : MemoryTree :=
  (((MemoryTree.writeFile {} "/l/package.json" "{}").writeFile "/l/index.d.ts" "").linkDirectory
    "/node_modules/a" "/l").linkDirectory "/l/node_modules/b" "/b"

/-- The example tree is built by writes and links. -/
theorem built_linkedPackage : linkedPackage.Built :=
  .linkDirectory _ _ (.linkDirectory _ _ (.writeFile _ _ (.writeFile _ _ (.new true))))

/-- What the linked package offers. -/
def linkedOffer : Offer where
  manifest := { fileName := "/node_modules/a/package.json", directory := "/node_modules/a" }
  roots := ["/l/index.d.ts"]

/-- The way to the entry point of the linked package is clear: the link inside lies beside it. -/
theorem encloses_linkedPackage :
    linkedPackage.Encloses "/node_modules/a" "/node_modules/a/index.d.ts" where
  inside := by
    have hsegment : Chars.IsSegment "index.d.ts".toList :=
      ⟨⟨by decide, by decide⟩, by decide, by decide, by decide⟩
    refine ⟨["index.d.ts".toList], List.cons_ne_nil _ _, List.forall_mem_singleton.2 hsegment,
      by decide, fun hops => ?_⟩
    have hlink : linkedPackage.hop? (linkedPackage.key "/node_modules/a") = some "/l" := by
      decide +kernel
    have hend : linkedPackage.hop? "/l" = none := by decide +kernel
    have hfront : ∀ place,
        linkedPackage.links.get? (Path.extend place ["index.d.ts".toList]) = none →
        ∀ front, front <+: ["index.d.ts".toList] → front ≠ [] →
          linkedPackage.links.get? (Path.extend place front) = none := by
      intro place hnone front hfront hne
      rwa [hfront.eq_of_length_le (List.length_pos_iff.2 hne)]
    cases hops with
    | zero =>
      have hkey : (linkedPackage.key "/node_modules/a").toList =
          Chars.build ['/'] ["node_modules".toList, ['a']] := by decide +kernel
      refine ⟨?_, hfront _ (by decide +kernel)⟩
      show Chars.IsDeep (linkedPackage.key "/node_modules/a").toList
      rw [hkey]
      exact ⟨['/'], _, .slash, by simp [Chars.IsPiece], by simp, rfl⟩
    | succ hops =>
      rw [MemoryTree.follow_of_hop? hlink, MemoryTree.follow_of_no_hop hend]
      exact ⟨⟨['/'], [['l']], .slash, by simp [Chars.IsPiece], by simp, rfl⟩,
        hfront _ (by decide +kernel)⟩
  settles := by decide +kernel

/-- The only root of the linked package is a real path. -/
theorem roots_are_real_linkedPackage :
    ((dependingOn ["a"]).discover linkedPackage.view .on {}).val.1.roots = ["/l/index.d.ts"] ∧
      linkedPackage.IsReal (Path.canonical · "/" true) "/l/index.d.ts" := by
  have hroots : ((dependingOn ["a"]).discover linkedPackage.view .on {}).val.1.roots =
      ["/l/index.d.ts"] := by decide +kernel
  let program : Program := { id := 0, roots := [], sources := [] }
  have hgives : ((dependingOn ["a"]).site linkedPackage.view {} program).Gives linkedOffer
      "/node_modules/a/index.d.ts" "/l/index.d.ts" := by
    refine ⟨⟨.typed, ["/node_modules/a/index.d.ts"], ?_, List.mem_singleton.2 rfl⟩, ?_⟩
    · decide +kernel
    · decide +kernel
  have hreal := (((roots_are_real built_linkedPackage .on {}).2 (dependingOn ["a"]) rfl).2 program
    rfl).real "/l/index.d.ts" (by rw [hroots]; simp) linkedOffer _ hgives encloses_linkedPackage
  exact ⟨hroots, hreal⟩

/-- A tree with two packages that both have a link to one directory in them. -/
def linkedFiles : MemoryTree :=
  let manifest := "\x7b\"types\":\"l/i.d.ts\"\x7d"
  ((((MemoryTree.writeFile {} "/node_modules/a/package.json" manifest).writeFile
    "/node_modules/b/package.json" manifest).writeFile "/r/i.d.ts" "").linkDirectory
      "/node_modules/a/l" "/r").linkDirectory "/node_modules/b/l" "/r"

/-- One file has two roots, and neither is its real path. -/
theorem one_file_two_roots :
    let roots := ((dependingOn ["a", "b"]).discover linkedFiles.view .on {}).val.1.roots
    roots = ["/node_modules/a/l/i.d.ts", "/node_modules/b/l/i.d.ts"] ∧
      ∀ root ∈ roots, linkedFiles.realPath root = some "/r/i.d.ts" ∧
        ¬linkedFiles.IsReal (Path.canonical · "/" true) root := by
  have hroots : ((dependingOn ["a", "b"]).discover linkedFiles.view .on {}).val.1.roots =
      ["/node_modules/a/l/i.d.ts", "/node_modules/b/l/i.d.ts"] := by decide +kernel
  have hreal : ∀ root ∈ ["/node_modules/a/l/i.d.ts", "/node_modules/b/l/i.d.ts"],
      linkedFiles.realPath root = some "/r/i.d.ts" ∧
        Path.canonical "/r/i.d.ts" "/" true ≠ Path.canonical root "/" true := by decide +kernel
  refine ⟨hroots, fun root hroot => ?_⟩
  rw [hroots] at hroot
  obtain ⟨hpath, hother⟩ := hreal root hroot
  refine ⟨hpath, ?_⟩
  rintro ⟨real, hsome, hkey⟩
  rw [hpath] at hsome
  obtain rfl : "/r/i.d.ts" = real := Option.some.inj hsome
  exact hother hkey

end Discovery

end AutoImport
