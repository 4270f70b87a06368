import AutoImport.Proofs.Discovery.AgreeingMemories
import AutoImport.Proofs.Discovery.RepeatedRuns
import AutoImport.Proofs.Path.AncestorSegments

/-!
# Manifests in scope and manifests that are searched

A change of a manifest matters to a project if a search for packages from the project's directory
could look at it.  The routing of changes decides that by taking the path of the manifest apart.  On
normal paths below `/` it accepts precisely the manifests in the `node_modules` of an ancestor, in
a directory of one segment, or of two where the first begins with `@`, and reads their two parts off
(`ChangeRouting.isManifestInScope_iff_installed`).

The search puts such a path together instead.  For every name of that form it looks at these
manifests and no others, except that a name that begins with a drive stands for itself, wherever the
search starts.  The manifest there is in no `node_modules` at all, and out of scope.
-/

set_option autoImplicit false

namespace AutoImport

open Chars (IsSegment build)

/-- What may stand between a `node_modules` and a manifest: one segment, or two where the first
begins with `@`. -/
inductive IsInstallName : String → Prop where
  | plain (name : Chars) (h : IsSegment name) : IsInstallName (.ofList name)
  | inScope (scope name : Chars) (hscope : IsSegment ('@' :: scope)) (h : IsSegment name) :
    IsInstallName (.ofList ('@' :: scope ++ '/' :: name))

/-- The `node_modules` of a directory. -/
def packagesAt (directory : String) : String :=
  .ofList (Text.dropTrailingSlash directory.toList ++ '/' :: packagesName.toList)

/-- The path of a manifest below the `node_modules` of a directory. -/
def manifestAt (directory name : String) : String :=
  .ofList ((packagesAt directory).toList ++ '/' :: name.toList ++ '/' :: manifestName.toList)

open AutoImport.Path (below)

/-- The segments of a directory followed by `node_modules` are segments. -/
theorem isSegment_of_mem_packages {segments : List Chars}
    (h : ∀ segment ∈ segments, IsSegment segment) :
    ∀ segment ∈ segments ++ [packagesName.toList], IsSegment segment :=
  List.forall_mem_append.2
    ⟨h, List.forall_mem_singleton.2 Chars.isName_packagesName.isSegment⟩

/-- The packages of a directory are below it, in `node_modules`. -/
theorem packagesAt_below {segments : List Chars}
    (h : ∀ segment ∈ segments, Chars.IsPiece segment) :
    packagesAt (below segments) = below (segments ++ [packagesName.toList]) := by
  unfold packagesAt
  rw [Path.toList_below, Chars.dropTrailingSlash_build_append h]
  rfl

/-- The segments of a manifest are those of the directory, `node_modules`, those of the name and
that of the file. -/
theorem manifestAt_below {segments names : List Chars}
    (h : ∀ segment ∈ segments, Chars.IsPiece segment) (hnames : names ≠ []) :
    manifestAt (below segments) (.ofList (Text.joinWith '/' names)) =
      below (segments ++ [packagesName.toList] ++ names ++ [manifestName.toList]) := by
  have hne : segments ++ [packagesName.toList] ++ names ≠ [] := by simp
  have hpackagesNe : segments ++ [packagesName.toList] ≠ [] := by simp
  unfold manifestAt
  rw [packagesAt_below h, ← String.toList_inj]
  simp only [String.toList_ofList, Path.toList_below]
  rw [Chars.build_concat ['/'] hne, Chars.build_append hpackagesNe hnames]

/-! ## Taking a path apart -/

namespace ChangeRouting

/-- A path is located by its name, the name of the `node_modules`, and what stands between. -/
theorem manifestLocation?_cases {path packages name : String}
    (h : manifestLocation? path = some (packages, name)) :
    Path.baseName path = manifestName ∧ Path.baseName packages = packagesName ∧
      (packages = Path.directory (Path.directory path) ∧
          name = Path.baseName (Path.directory path) ∨
      Text.startsWith "@" (Path.baseName (Path.directory (Path.directory path))) = true ∧
        packages = Path.directory (Path.directory (Path.directory path)) ∧
        name = .ofList ((Path.directory path).toList.drop (packages.length + 1))) := by
  unfold manifestLocation? at h
  split at h
  · simp at h
  rename_i hmanifest
  dsimp only at h
  refine ⟨not_not.1 hmanifest, ?_⟩
  split at h
  · rename_i hbase
    simp only [Option.some.injEq, Prod.mk.injEq] at h
    obtain ⟨rfl, rfl⟩ := h
    exact ⟨hbase, Or.inl ⟨rfl, rfl⟩⟩
  · split at h
    · rename_i hscoped
      rw [Bool.and_eq_true, decide_eq_true_eq] at hscoped
      simp only [Option.some.injEq, Prod.mk.injEq] at h
      obtain ⟨rfl, rfl⟩ := h
      exact ⟨hscoped.2, Or.inr ⟨hscoped.1, rfl, rfl⟩⟩
    · simp at h

section Location

variable {segments : List Chars} (hsegments : ∀ segment ∈ segments, IsSegment segment)

include hsegments

/-- The manifest of a name below a `node_modules` is located there. -/
theorem manifestLocation?_manifestAt {name : String} (hname : IsInstallName name) :
    manifestLocation? (manifestAt (below segments) name) =
      some (packagesAt (below segments), name) := by
  have hpieces : ∀ segment ∈ segments, Chars.IsPiece segment := fun s hs => (hsegments s hs).isPiece
  have hall : ∀ piece ∈ segments ++ [packagesName.toList], Chars.IsPiece piece := fun s hs =>
    (isSegment_of_mem_packages hsegments s hs).isPiece
  have hdeep := Chars.isDeep_build hall (by simp)
  have hbase := Chars.baseName_build_concat .slash (List.mem_singleton_self '/') hall
  unfold manifestAt
  rw [packagesAt_below hpieces, Path.toList_below]
  cases hname with
  | plain name h =>
    rw [String.toList_ofList]
    exact manifestLocation?_plain hdeep hbase h.isPiece
  | inScope scope name hscope h =>
    have hlocation := manifestLocation?_inScope hdeep hbase hscope.isPiece h.isPiece
    rw [String.toList_ofList]
    simpa only [List.append_assoc, List.cons_append, below] using hlocation

/-- A path with a location is the manifest of a name below a `node_modules`. -/
theorem exists_manifestAt_of_location {packages name : String}
    (h : manifestLocation? (below segments) = some (packages, name)) :
    ∃ front, (∀ segment ∈ front, IsSegment segment) ∧ IsInstallName name ∧
      packages = packagesAt (below front) ∧ below segments = manifestAt (below front) name := by
  obtain ⟨hmanifest, hpackages, hways⟩ := manifestLocation?_cases h
  obtain ⟨package, rfl, hpackage, hdirectory⟩ :=
    Path.exists_concat_of_baseName hsegments (by decide) hmanifest
  rw [hdirectory] at hways
  rcases Path.below_cases hpackage with rfl | ⟨parent, piece, rfl, hparent, hpiece, hbase, habove⟩
  · -- Above the root there is no `node_modules`.
    rw [Path.directory_below_nil, Path.directory_below_nil, Path.baseName_below_nil] at hways
    rcases hways with ⟨rfl, -⟩ | ⟨hat, -⟩
    · rw [Path.baseName_below_nil] at hpackages
      exact absurd hpackages (by decide)
    · exact absurd hat (by decide)
  rw [habove, hbase] at hways
  rcases hways with ⟨rfl, rfl⟩ | ⟨hat, rfl, rfl⟩
  · -- The package lies in the `node_modules` itself.
    obtain ⟨front, rfl, hfront, -⟩ := Path.exists_concat_of_baseName hparent (by decide) hpackages
    have hpieces : ∀ segment ∈ front, Chars.IsPiece segment := fun s hs => (hfront s hs).isPiece
    exact ⟨front, hfront, .plain piece hpiece, (packagesAt_below hpieces).symm,
      (manifestAt_below hpieces (List.cons_ne_nil piece [])).symm⟩
  · -- A scope stands in between.
    rcases Path.below_cases hparent with rfl | ⟨outer, scope, rfl, houter, hscope, hscopeBase, hup⟩
    · rw [Path.baseName_below_nil] at hat
      exact absurd hat (by decide)
    rw [hscopeBase] at hat
    rw [hup] at hpackages ⊢
    obtain ⟨front, rfl, hfront, -⟩ := Path.exists_concat_of_baseName houter (by decide) hpackages
    have hpieces : ∀ segment ∈ front, Chars.IsPiece segment := fun s hs => (hfront s hs).isPiece
    obtain ⟨scopeName, hscopeName⟩ := List.isPrefixOf_iff_prefix.1 hat
    obtain rfl : '@' :: scopeName = scope := by simpa using hscopeName
    rw [List.append_assoc _ _ [piece], Path.drop_below (by simp) (by simp)]
    exact ⟨front, hfront, .inScope scopeName piece hscope hpiece, (packagesAt_below hpieces).symm,
      (manifestAt_below hpieces (List.cons_ne_nil ('@' :: scopeName) [piece])).symm⟩

end Location

section Scope

variable {segments : List Chars} (hsegments : ∀ segment ∈ segments, IsSegment segment)

include hsegments

/-- The manifest of a name below the `node_modules` of a directory is in scope for all that this
directory contains. -/
theorem isManifestInScope_manifestAt {front : List Chars} (hfront : front <+: segments)
    {name : String} (hname : IsInstallName name) :
    isManifestInScope (manifestAt (below front) name) (below segments) = true := by
  have hfrontSegments : ∀ segment ∈ front, IsSegment segment := fun segment hsegment =>
    hsegments segment (hfront.subset hsegment)
  have hpieces : ∀ segment ∈ front, Chars.IsPiece segment :=
    fun s hs => (hfrontSegments s hs).isPiece
  have hall : ∀ piece ∈ front ++ [packagesName.toList], Chars.IsPiece piece := fun s hs =>
    (isSegment_of_mem_packages hfrontSegments s hs).isPiece
  unfold isManifestInScope
  rw [manifestLocation?_manifestAt hfrontSegments hname, packagesAt_below hpieces, Option.any_some]
  dsimp only
  rw [Path.directory_below hall]
  exact (Path.contains_below_iff hpieces fun s hs => (hsegments s hs).isPiece).2 hfront

/-- A path in scope is the manifest of a name below the `node_modules` of an ancestor. -/
theorem exists_manifestAt_of_inScope {changed : List Chars}
    (hchanged : ∀ segment ∈ changed, IsSegment segment)
    (h : isManifestInScope (below changed) (below segments) = true) :
    ∃ front, front <+: segments ∧ ∃ name, IsInstallName name ∧
      below changed = manifestAt (below front) name := by
  obtain ⟨⟨packages, name⟩, hlocation, hcontains⟩ := (Option.any_eq_true _ _).1 h
  obtain ⟨front, hfrontSegments, hname, rfl, hpath⟩ :=
    exists_manifestAt_of_location hchanged hlocation
  have hpieces : ∀ segment ∈ front, Chars.IsPiece segment :=
    fun s hs => (hfrontSegments s hs).isPiece
  have hall : ∀ piece ∈ front ++ [packagesName.toList], Chars.IsPiece piece := fun s hs =>
    (isSegment_of_mem_packages hfrontSegments s hs).isPiece
  dsimp only at hcontains
  rw [packagesAt_below hpieces, Path.directory_below hall] at hcontains
  exact ⟨front, (Path.contains_below_iff hpieces fun s hs => (hsegments s hs).isPiece).1 hcontains,
    name, hname, hpath⟩

end Scope

end ChangeRouting

/-! ## Putting a path together -/

namespace PackageLookup

/-- A search for a package from a directory may come to look at a manifest: on some file system and
with some memory it knows the manifest afterwards and did not before. -/
def MayLookAt (packageName directory fileName : String) : Prop :=
  ∃ view lookup, lookup.found.get? fileName = none ∧
    ((resolve view packageName directory lookup).val.2.found.get? fileName).isSome = true

/-- A search remembers manifests of the directories that it is given, and no others. -/
theorem mem_of_get?_firstManifest {view : FileView} {directories : List String}
    {lookup : PackageLookup} {fileName : String} (hnew : lookup.found.get? fileName = none)
    (h : ((firstManifest view directories lookup).val.2.found.get? fileName).isSome = true) :
    ∃ directory ∈ directories, fileName = Path.join directory manifestName := by
  induction directories generalizing lookup with
  | nil =>
    have hnone : lookup.found.get? fileName = none := hnew
    rw [firstManifest, Probed.val_pure, hnone] at h
    simp at h
  | cons directory rest ih =>
    by_cases hfile : fileName = Path.join directory manifestName
    · exact ⟨directory, List.mem_cons_self, hfile⟩
    · have hlooked : (manifestIn view directory lookup).val.2.found.get? fileName = none := by
        unfold manifestIn
        dsimp only
        split
        · exact hnew
        · simp only [Probed.val_bind, Probed.val_pure]
          rw [Table.get?_insert, if_neg (Ne.symm hfile)]
          exact hnew
      rw [firstManifest, Probed.val_bind] at h
      generalize (manifestIn view directory lookup).val = looked at h hlooked
      obtain ⟨found, after⟩ := looked
      cases found with
      | some manifest =>
        dsimp only at h hlooked
        rw [Probed.val_pure, hlooked] at h
        simp at h
      | none =>
        obtain ⟨other, hother, hmem⟩ := ih hlooked h
        exact ⟨other, List.mem_cons_of_mem _ hother, hmem⟩

/-- A file system without anything. -/
def emptyView : FileView where
  fileExists _ := false
  directoryExists _ := false
  readText _ := none
  realPath _ := none
  directories _ := []
  files _ := []
  caseSensitive := true
  extent := 0

/-- Where there is nothing a search looks at the manifests of all directories. -/
theorem get?_firstManifest_emptyView {directories : List String} {lookup : PackageLookup}
    (h : lookup.Agrees emptyView) {directory : String} (hdirectory : directory ∈ directories) :
    ((firstManifest emptyView directories lookup).val.2.found.get?
      (Path.join directory manifestName)).isSome = true := by
  have hanswer : ∀ directory, (manifestOnDisk emptyView directory).val = none := fun _ => rfl
  have hone : ∀ directory, OneAnswer emptyView directory := fun _ _ _ => rfl
  induction directories generalizing lookup with
  | nil => simp at hdirectory
  | cons first rest ih =>
    have hmissed := manifestIn_of_agrees h (hone first)
    have hlooked := h.manifestIn first
    have hremembered := (manifestIn_remembers emptyView first lookup).2
    rw [hanswer] at hmissed
    rw [firstManifest, Probed.val_bind]
    generalize (manifestIn emptyView first lookup).val = looked at hmissed hlooked hremembered ⊢
    obtain ⟨found, after⟩ := looked
    dsimp only at hmissed hlooked hremembered ⊢
    subst hmissed
    rcases List.mem_cons.1 hdirectory with rfl | hrest
    · rw [extends_firstManifest emptyView rest after _ _ hremembered]
      rfl
    · exact ih hlooked hrest

/-- The manifests that a search may look at are those of its candidates. -/
theorem mayLookAt_iff {packageName directory fileName : String} :
    MayLookAt packageName directory fileName ↔
      ∃ candidate ∈ candidates packageName directory,
        fileName = Path.join candidate manifestName := by
  constructor
  · rintro ⟨view, lookup, hnew, hsome⟩
    exact mem_of_get?_firstManifest hnew hsome
  · rintro ⟨candidate, hcandidate, rfl⟩
    exact ⟨emptyView, {}, rfl, get?_firstManifest_emptyView (agrees_empty _) hcandidate⟩

end PackageLookup

/-! ## Names that begin with a drive -/

/-- A text that begins with `@` has no root. -/
theorem Chars.rootLength_at (rest : Chars) : rootLength ('@' :: rest) = 0 := by
  unfold rootLength
  split
  · rename_i heq
    simp at heq
  · rename_i heq
    obtain rfl := (List.cons.inj heq).1
    exact if_neg (by decide)
  · rfl

namespace IsInstallName

/-- A name of a package is a text of segments. -/
theorem exists_segments {name : String} (h : IsInstallName name) :
    ∃ names, names ≠ [] ∧ (∀ segment ∈ names, IsSegment segment) ∧
      name = .ofList (Text.joinWith '/' names) := by
  cases h with
  | plain name h => exact ⟨[name], by simp, List.forall_mem_singleton.2 h, rfl⟩
  | inScope scope name hscope h =>
    exact ⟨['@' :: scope, name], by simp, by simp [hscope, h], rfl⟩

/-- An install name has no backslash. -/
theorem noBackslash {name : String} (h : IsInstallName name) : '\\' ∉ name.toList := by
  cases h with
  | plain name h =>
    rw [String.toList_ofList]
    exact h.noBackslash
  | inScope scope name hscope h =>
    rw [String.toList_ofList]
    intro hmem
    rcases List.mem_append.1 hmem with hmem | hmem
    · exact hscope.noBackslash hmem
    · exact h.noBackslash (by simpa using hmem)

/-- A name that begins with a root is a segment that begins with a drive. -/
theorem exists_drive {name : String} (h : IsInstallName name)
    (hrooted : Path.isRooted name = true) :
    ∃ letter rest, letter.isAlpha = true ∧ '/' ∉ rest ∧ name = .ofList (letter :: ':' :: rest) := by
  unfold Path.isRooted Chars.isRooted at hrooted
  rw [decide_eq_true_eq] at hrooted
  cases h with
  | plain name h =>
    rw [String.toList_ofList] at hrooted
    have hslash := h.isPiece.2
    revert hrooted hslash
    fun_cases Chars.rootLength name with
    | case1 rest => simp
    | case2 letter hletter halpha rest => simp
    | case3 letter rest hletter halpha hrest =>
      intro _ hslash
      exact ⟨letter, rest, halpha, fun hmem => hslash (by simp [hmem]), rfl⟩
    | case4 letter rest hletter halpha => simp
    | case5 => simp
  | inScope scope name hscope h =>
    rw [String.toList_ofList] at hrooted
    have hroot : Chars.rootLength ('@' :: scope ++ '/' :: name) = 0 := Chars.rootLength_at _
    rw [hroot] at hrooted
    exact absurd hrooted (by simp)

end IsInstallName

namespace ChangeRouting

/-- A manifest is not located where the directory two above it has no name. -/
theorem manifestLocation?_eq_none {path : String}
    (h : Path.baseName (Path.directory (Path.directory path)) = "") :
    manifestLocation? path = none := by
  unfold manifestLocation?
  dsimp only
  have hscope : Text.startsWith "@" "" = false := by decide
  have hpackages : "" ≠ packagesName := by decide
  rw [h, if_neg hpackages, hscope, Bool.false_and, if_neg Bool.false_ne_true, ite_self]

/-- The manifest of a package that is named like a drive is in no `node_modules`. -/
theorem manifestLocation?_drive {letter : Char} {rest : Chars} (halpha : letter.isAlpha = true)
    (hslash : '/' ∉ rest) (hback : '\\' ∉ letter :: ':' :: rest) :
    manifestLocation? (Path.join (.ofList (letter :: ':' :: rest)) manifestName) = none := by
  have hmanifest : Chars.IsPiece manifestName.toList := Path.isName_manifestName.isSegment.isPiece
  have hletter : letter ≠ '/' := Chars.ne_slash_of_isAlpha halpha
  have hbare : '/' ∉ [letter, ':'] := by simp [hletter.symm]
  have hlast : (letter :: ':' :: rest).getLast? ≠ some '/' := by
    intro hlast
    have hmem := List.mem_of_getLast? hlast
    simp [hletter.symm, hslash] at hmem
  have hjoin : (Path.join (.ofList (letter :: ':' :: rest)) manifestName).toList =
      letter :: ':' :: rest ++ '/' :: manifestName.toList := by
    unfold Path.join
    rw [String.toList_ofList, String.toList_ofList,
      Chars.join_name (by simp) hback Path.isName_manifestName, if_neg hlast]
  apply manifestLocation?_eq_none
  unfold Path.baseName Path.directory
  rw [hjoin, String.toList_ofList, String.toList_ofList]
  suffices h : Chars.baseName (Chars.directory (Chars.directory
      (letter :: ':' :: rest ++ '/' :: manifestName.toList))) = [] by
    rw [h]
  by_cases hrest : rest = []
  · -- The directory of the manifest is the root of the drive.
    subst hrest
    have hdrive : Chars.IsRoot [letter, ':', '/'] := .drive letter halpha
    have hpieces : ∀ piece ∈ [] ++ [manifestName.toList], Chars.IsPiece piece :=
      List.forall_mem_singleton.2 hmanifest
    have hdirectory := Chars.directory_build_concat hdrive (by simp) hpieces
    rw [Chars.build_nil] at hdirectory
    have hpath : letter :: ':' :: [] ++ '/' :: manifestName.toList =
        build [letter, ':', '/'] ([] ++ [manifestName.toList]) := rfl
    rw [hpath, hdirectory, Chars.directory_root hdrive, Chars.baseName_root hdrive]
  · -- It lies on a bare drive, and above that is nothing.
    have hroot : Chars.IsRoot [letter, ':'] := .bare letter halpha
    have hpieces : ∀ piece ∈ [rest] ++ [manifestName.toList], Chars.IsPiece piece :=
      List.forall_mem_append.2 ⟨List.forall_mem_singleton.2 ⟨hrest, hslash⟩,
        List.forall_mem_singleton.2 hmanifest⟩
    have habove : ∀ piece ∈ [] ++ [rest], Chars.IsPiece piece := by
      simp [Chars.IsPiece, hrest, hslash]
    have hpath : letter :: ':' :: rest ++ '/' :: manifestName.toList =
        build [letter, ':'] ([rest] ++ [manifestName.toList]) := by
      simp [build, Text.joinWith]
    rw [hpath, Chars.directory_build hroot hpieces, if_neg (by simp),
      ← List.nil_append [rest], Chars.directory_build hroot habove, if_pos rfl, if_neg hbare]
    rfl

end ChangeRouting

/-! ## Names that do not -/

/-- The manifest that a search puts together for a relative name is the one in the
`node_modules`. -/
theorem installedManifest_below {segments : List Chars}
    (hsegments : ∀ segment ∈ segments, IsSegment segment) {name : String}
    (hname : IsInstallName name)
    (hrelative : Path.isRooted name = false) :
    installedManifest (below segments) name = manifestAt (below segments) name := by
  obtain ⟨names, hne, hnames, rfl⟩ := hname.exists_segments
  have hpackages := isSegment_of_mem_packages hsegments
  unfold installedManifest
  rw [Path.join_below_name hsegments Chars.isName_packagesName,
    Path.join_below hpackages hnames hne hrelative,
    Path.join_below_name (List.forall_mem_append.2 ⟨hpackages, hnames⟩) Path.isName_manifestName,
    manifestAt_below (fun s hs => (hsegments s hs).isPiece) hne]

namespace ChangeRouting

open PackageLookup (MayLookAt mayLookAt_iff)

/-- What a search looks at is in scope, unless the name of the package begins with a drive. -/
theorem isManifestInScope_of_mayLookAt {segments : List Chars}
    (hsegments : ∀ segment ∈ segments, IsSegment segment) {name fileName : String}
    (hname : IsInstallName name) (h : MayLookAt name (below segments) fileName) :
    isManifestInScope fileName (below segments) = true ↔ Path.isRooted name = false := by
  obtain ⟨candidate, hcandidate, rfl⟩ := mayLookAt_iff.1 h
  have hslashed : Path.slashed name = name := by
    unfold Path.slashed
    rw [Chars.slashed_of_not_mem hname.noBackslash, String.ofList_toList]
  cases hrooted : Path.isRooted name with
  | true =>
    have hplace : candidate = name := by
      rw [← hslashed] at hrooted
      rw [PackageLookup.eq_slashed_of_mem_candidates hrooted hcandidate, hslashed]
    obtain ⟨letter, rest, halpha, hslash, rfl⟩ := hname.exists_drive hrooted
    have hback := hname.noBackslash
    rw [String.toList_ofList] at hback
    unfold isManifestInScope
    rw [hplace, manifestLocation?_drive halpha hslash hback]
    simp
  | false =>
    obtain ⟨ancestor, hancestor, rfl⟩ := List.mem_map.1 hcandidate
    obtain ⟨front, hfront, rfl⟩ := (Path.mem_ancestors_below
      fun s hs => (hsegments s hs).isPiece).1 (List.mem_filter.1 hancestor).1
    have hmanifest := installedManifest_below
      (fun s hs => hsegments s (hfront.subset hs)) hname hrooted
    unfold installedManifest at hmanifest
    rw [hmanifest]
    simp [isManifestInScope_manifestAt hsegments hfront hname]

/-- There is a manifest that the search looks at, whatever the name. -/
theorem exists_mayLookAt {segments : List Chars}
    (hsegments : ∀ segment ∈ segments, IsSegment segment) (name : String) :
    ∃ fileName, MayLookAt name (below segments) fileName := by
  have hroot : below [] ∈ Path.ancestors (below segments) :=
    (Path.mem_ancestors_below fun s hs => (hsegments s hs).isPiece).2 ⟨[], List.nil_prefix, rfl⟩
  have hsearched : below [] ∈ (Path.ancestors (below segments)).filter
      fun ancestor => Path.baseName ancestor ≠ packagesName := by
    refine List.mem_filter.2 ⟨hroot, decide_eq_true ?_⟩
    rw [Path.baseName_below_nil]
    decide
  exact ⟨_, mayLookAt_iff.2 ⟨_, List.mem_map_of_mem hsearched, rfl⟩⟩

/-- For normal paths below `/`, a path is in scope of a directory if and only if it is the manifest
of a name in the `node_modules` of an ancestor, and then it is located there under that name.  What
a search for such a name may look at is in scope if and only if the name does not begin with a
drive.  -/
theorem isManifestInScope_iff_installed {path directory : String} (hpath : Path.IsNormal path)
    (hpathSlash : Path.IsSlashRooted path) (hdirectory : Path.IsNormal directory)
    (hdirectorySlash : Path.IsSlashRooted directory) :
    (isManifestInScope path directory = true ↔
      ∃ ancestor ∈ Path.ancestors directory, ∃ name, IsInstallName name ∧
        path = manifestAt ancestor name) ∧
    (∀ ancestor ∈ Path.ancestors directory, ∀ name, IsInstallName name →
      path = manifestAt ancestor name →
        manifestLocation? path = some (packagesAt ancestor, name)) ∧
    ∀ name, IsInstallName name → (∃ fileName, MayLookAt name directory fileName) ∧
      ∀ fileName, MayLookAt name directory fileName →
        (isManifestInScope fileName directory = true ↔ Path.isRooted name = false) := by
  obtain ⟨changed, hchanged, rfl⟩ := Path.exists_below hpath hpathSlash
  obtain ⟨segments, hsegments, rfl⟩ := Path.exists_below hdirectory hdirectorySlash
  have hancestors : ∀ ancestor, ancestor ∈ Path.ancestors (below segments) ↔
      ∃ front, front <+: segments ∧ ancestor = below front := fun ancestor =>
    Path.mem_ancestors_below fun s hs => (hsegments s hs).isPiece
  refine ⟨⟨?_, ?_⟩, ?_, ?_⟩
  · intro h
    obtain ⟨front, hfront, name, hname, heq⟩ := exists_manifestAt_of_inScope hsegments hchanged h
    exact ⟨below front, (hancestors _).2 ⟨front, hfront, rfl⟩, name, hname, heq⟩
  · rintro ⟨ancestor, hancestor, name, hname, heq⟩
    obtain ⟨front, hfront, rfl⟩ := (hancestors ancestor).1 hancestor
    rw [heq]
    exact isManifestInScope_manifestAt hsegments hfront hname
  · intro ancestor hancestor name hname heq
    obtain ⟨front, hfront, rfl⟩ := (hancestors ancestor).1 hancestor
    rw [heq]
    exact manifestLocation?_manifestAt (fun s hs => hsegments s (hfront.subset hs)) hname
  · intro name hname
    exact ⟨exists_mayLookAt hsegments name, fun fileName hlooked =>
      isManifestInScope_of_mayLookAt hsegments hname hlooked⟩

/-- The manifest of a scoped package is in scope for a sibling directory, and its location is
found. -/
theorem isManifestInScope_iff_installed_scoped :
    isManifestInScope "/w/node_modules/@s/a/package.json" "/w/b" = true ∧
      manifestLocation? "/w/node_modules/@s/a/package.json" = some ("/w/node_modules", "@s/a") := by
  have hname : IsInstallName "@s/a" := .inScope ['s'] ['a']
    ⟨⟨by decide, by decide⟩, by decide, by decide, by decide⟩
    ⟨⟨by decide, by decide⟩, by decide, by decide, by decide⟩
  have hancestor : "/w" ∈ Path.ancestors "/w/b" := by decide +kernel
  have hpath : "/w/node_modules/@s/a/package.json" = manifestAt "/w" "@s/a" := by decide +kernel
  have hnormal : Path.IsNormal "/w/node_modules/@s/a/package.json" :=
    Path.isNormal_of_normalize_eq (by decide +kernel)
  have hdirectory : Path.IsNormal "/w/b" := Path.isNormal_of_normalize_eq (by decide +kernel)
  obtain ⟨hscope, hlocation, -⟩ :=
    isManifestInScope_iff_installed hnormal (by decide) hdirectory (by decide)
  have hpackages : packagesAt "/w" = "/w/node_modules" := by decide +kernel
  rw [← hpackages]
  exact ⟨hscope.2 ⟨"/w", hancestor, "@s/a", hname, hpath⟩,
    hlocation "/w" hancestor "@s/a" hname hpath⟩

/-- A tree with a manifest in a directory that is named like a package on a drive. -/
def drivePackage : MemoryTree :=
  ({} : MemoryTree).writeFile "c:a/package.json" "{}"

/-- A search for a package of one segment, from a directory below `/`, finds a manifest that is not
in scope of the directory. -/
theorem drive_manifest_outOfScope :
    IsInstallName "c:a" ∧ MayLookAt "c:a" "/p" "c:a/package.json" ∧
      (PackageLookup.resolve drivePackage.view "c:a" "/p" {}).val.1.map Manifest.fileName =
        some "c:a/package.json" ∧
      isManifestInScope "c:a/package.json" "/p" = false := by
  refine ⟨.plain ['c', ':', 'a'] ⟨⟨by decide, by decide⟩, by decide, by decide, by decide⟩,
    ⟨drivePackage.view, {}, ?_, ?_⟩, ?_, ?_⟩
  all_goals decide +kernel

end ChangeRouting

end AutoImport
