import AutoImport.Proofs.Entrypoints.MainEntries

/-!
# Entry points are files

Entry points come from many places: the members of a manifest, its `typesVersions`, an index, the
targets and the patterns of an export map under two sets of conditions.  All of them end in one of
two ways.  Either a spelling of a path is probed and found, or a listed name is put behind the
directory that lists it.  So on a file system whose listings are truthful every entry point is a
file, and of the kind that was asked for (`Entrypoints.isEntryFile_of_leads`,
`Entrypoints.isEntryFile_of_main`).

What is found is collected by adding one file at a time.  Whatever each addition keeps, the walk
through a whole export map keeps (`Entrypoints.walkExports_keeps`): that no file is listed twice,
and that what came first stays first.
-/

set_option autoImplicit false

namespace AutoImport

/-- Every name that is listed in a directory is that of a file in it. -/
def FileView.ListsTruly (view : FileView) : Prop :=
  ∀ directory, ∀ name ∈ view.files directory, view.fileExists (Path.join directory name) = true

namespace Entrypoints

/-- A file that is there and of a kind. -/
structure IsEntryFile (view : FileView) (kind : EntryKind) (file : String) : Prop where
  fileExists : view.fileExists file = true
  accepts : kind.accepts file = true

/-! ## Probed files -/

section Probed

variable {view : FileView} {kind : EntryKind} {path file : String}

/-- The first existing candidate exists. -/
theorem fileExists_of_firstExisting? {candidates : List String}
    (h : (Probed.firstExisting? view.fileExists candidates).val = some file) :
    view.fileExists file = true := by
  induction candidates with
  | nil => simp [Probed.firstExisting?] at h
  | cons candidate rest ih =>
    rw [Probed.firstExisting?, Probed.val_bind, Probed.val_probe] at h
    split at h
    · rename_i hexists
      rw [← Option.some.inj h]
      exact hexists
    · exact ih h

/-- A path accepted as a file is an entry file. -/
theorem isEntryFile_of_file? (h : (file? view kind path).val = some file) :
    IsEntryFile view kind file where
  fileExists := fileExists_of_firstExisting? h
  accepts := (EntryKind.exists_of_mem_spellings (mem_spellings_of_file? h)).1

/-- A path accepted as a file or a directory's index is an entry file. -/
theorem isEntryFile_of_fileOrIndex? (h : (fileOrIndex? view kind path).val = some file) :
    IsEntryFile view kind file := by
  unfold fileOrIndex? at h
  rw [Probed.val_orElse, Option.or_eq_some_iff] at h
  rcases h with h | ⟨-, h⟩
  · exact isEntryFile_of_file? h
  · split at h
    · exact isEntryFile_of_file? h
    · simp at h

/-- What a manifest's member leads to is an entry file. -/
theorem isEntryFile_of_fromMember? {directory : String} {member : Option String}
    (h : (fromMember? view kind directory member).val = some file) :
    IsEntryFile view kind file := by
  cases member with
  | none => simp [fromMember?] at h
  | some entry => exact isEntryFile_of_fileOrIndex? h

/-- What the typings member leads to is an entry file. -/
theorem isEntryFile_of_fromTypes? {manifest : Manifest}
    (h : (fromTypes? view kind manifest).val = some file) : IsEntryFile view kind file := by
  unfold fromTypes? at h
  cases kind with
  | script => simp at h
  | typed =>
    dsimp only at h
    rw [Probed.val_orElse, Option.or_eq_some_iff] at h
    rcases h with h | ⟨-, h⟩
    · unfold fromTypesVersions? at h
      split at h
      · obtain ⟨target, -, hfile⟩ := Probed.exists_of_val_findSome? h
        exact isEntryFile_of_fileOrIndex? hfile
      · simp at h
    · exact isEntryFile_of_fromMember? h

/-- What the main member leads to is an entry file. -/
theorem isEntryFile_of_main {manifest : Manifest}
    (h : (mainFile? view kind manifest).val = some file) : IsEntryFile view kind file := by
  unfold mainFile? at h
  rw [Probed.val_orElse, Probed.val_orElse, Option.or_eq_some_iff, Option.or_eq_some_iff] at h
  rcases h with h | ⟨-, h | ⟨-, h⟩⟩
  · exact isEntryFile_of_fromTypes? h
  · exact isEntryFile_of_fromMember? h
  · exact isEntryFile_of_file? h

/-! ## Listed files -/

/-- Every file found below a root is listed by its own directory. -/
theorem exists_listed_of_mem_filesBelow {root : String} (h : file ∈ filesBelow view root) :
    ∃ parent, ∃ name ∈ view.files parent, file = Path.join parent name := by
  have hchild : ∀ directory : String, True → ∀ child ∈ view.directories directory,
      child ≠ packagesName → True := fun _ _ _ _ _ => trivial
  rcases exists_listed_of_mem_walk hchild _ root trivial {} h with hnone | ⟨parent, -, hlisted⟩
  · simp at hnone
  · exact ⟨parent, hlisted⟩

/-- Whatever a target of an export map leads to is a file of the kind. -/
theorem isEntryFile_of_leads (hview : view.ListsTruly) {directory target : String}
    (h : Leads view kind directory target file) : IsEntryFile view kind file := by
  cases h with
  | exact _ _ _ hfile => exact isEntryFile_of_file? hfile
  | pattern _ _ _ _ hfound _ haccepts =>
    obtain ⟨parent, name, hname, rfl⟩ := exists_listed_of_mem_filesBelow hfound
    exact ⟨hview parent name hname, haccepts⟩

end Probed

/-! ## Adding one file at a time -/

/-- A property of the entry points found so far that adding a file keeps. -/
def Keeps (P : List String → Prop) : Prop :=
  ∀ files file, P files → P (insertNew files file)

section Targets

variable {P : List String → Prop} (hP : Keeps P)

include hP

/-- Adding the matches of a pattern keeps every property that adding one keeps. -/
theorem addMatch_keeps (view : FileView) (others : List String) {surface : Surface}
    (h : P surface.files) : P (others.foldl (Surface.addMatch view) surface).files := by
  induction others generalizing surface with
  | nil => exact h
  | cons other rest ih =>
    apply ih
    unfold Surface.addMatch
    dsimp only
    split
    · exact h
    · exact hP _ _ h

/-- Loading one target keeps every property that adding a file keeps. -/
theorem Context.loadTarget_keeps (context : Context) (target : String) {surface : Surface}
    (h : P surface.files) : P (context.loadTarget target surface).val.2.files := by
  unfold loadTarget
  split
  · exact h
  · split
    · split
      · exact h
      · rw [Probed.val_bind]
        split
        · exact hP _ _ h
        · exact h
    · exact addMatch_keeps hP _ _ h
    · exact h

end Targets

mutual

/-- Walking one target keeps every property that adding a file keeps. -/
theorem Context.walkTarget_keeps {P : List String → Prop} (hP : Keeps P) (context : Context) :
    ∀ (value : Json.Value) (surface : Surface), P surface.files →
      P (context.walkTarget value surface).val.2.files
  | .text target, _, h => by
    rw [walkTarget]
    exact context.loadTarget_keeps hP target h
  | .array targets, surface, h => by
    rw [walkTarget]
    exact context.walkFirst_keeps hP targets surface h
  | .object members, surface, h => by
    rw [walkTarget]
    exact context.walkApplicable_keeps hP members surface h
  | .null, _, h => by
    rw [walkTarget]
    exact h
  | .bool _, _, h => by
    rw [walkTarget]
    exact h
  | .number _, _, h => by
    rw [walkTarget]
    exact h

/-- Walking alternatives for the first that loads keeps every property that adding a file keeps. -/
theorem Context.walkFirst_keeps {P : List String → Prop} (hP : Keeps P) (context : Context) :
    ∀ (values : List Json.Value) (surface : Surface), P surface.files →
      P (context.walkFirst values surface).val.2.files
  | [], _, h => by
    rw [walkFirst]
    exact h
  | value :: rest, surface, h => by
    have hhead := context.walkTarget_keeps hP value surface h
    rw [walkFirst, Probed.val_bind]
    dsimp only
    split
    · exact hhead
    · exact context.walkFirst_keeps hP rest _ hhead

/-- Walking the applicable conditions keeps every property that adding a file keeps. -/
theorem Context.walkApplicable_keeps {P : List String → Prop} (hP : Keeps P) (context : Context) :
    ∀ (members : List (String × Json.Value)) (surface : Surface), P surface.files →
      P (context.walkApplicable members surface).val.2.files
  | [], _, h => by
    rw [walkApplicable]
    exact h
  | (_, value) :: rest, surface, h => by
    rw [walkApplicable]
    split
    · exact context.walkTarget_keeps hP value surface h
    · exact context.walkApplicable_keeps hP rest surface h

end

section Walks

variable {P : List String → Prop} (hP : Keeps P)

include hP

/-- Walking every value of a list keeps every property that adding a file keeps. -/
theorem Context.walkAll_keeps (context : Context) (values : List Json.Value) {surface : Surface}
    (h : P surface.files) : P (context.walkAll values surface).val.files := by
  induction values generalizing surface with
  | nil => exact h
  | cons value rest ih =>
    rw [walkAll, Probed.val_bind]
    exact ih (context.walkTarget_keeps hP value surface h)

/-- A walk through an export map keeps what adding a file keeps. -/
theorem walkExports_keeps (view : FileView) (kind : EntryKind) (options : CompilerOptions)
    (directory : String) (exports : Json.Value) {surface : Surface} (h : P surface.files) :
    P (walkExports view kind options directory exports surface).val.files :=
  Context.walkAll_keeps hP _ _ (Context.walkAll_keeps hP _ _ h)

/-- The entry points of a package have what adding a file keeps and the main entry has alone. -/
theorem entrypoints_keeps (view : FileView) (kind : EntryKind) (options : CompilerOptions)
    (manifest : Manifest) (h : P (mainFile? view kind manifest).val.toList) :
    ∃ files, P files ∧ (entrypoints view kind options manifest).val =
      if files.isEmpty then none else some files := by
  unfold entrypoints
  rw [Probed.val_bind]
  dsimp only
  split
  · exact ⟨_, walkExports_keeps hP view kind options manifest.directory _ h, rfl⟩
  · exact ⟨_, h, rfl⟩

end Walks

/-- Adding a file never repeats one. -/
theorem keeps_nodup : Keeps List.Nodup :=
  fun _ file h => nodup_insertNew h file

/-- Adding a file goes on from the files there were. -/
theorem keeps_isPrefix (start : List String) : Keeps fun files => start <+: files := by
  intro files file h
  unfold insertNew
  split
  · exact h
  · exact h.trans (List.prefix_append _ _)

end Entrypoints

open Entrypoints

/-- On a file system whose listings are truthful, entry points are files of the kind that was asked
for.  There is at least one in a list of them, none stands there twice, and the main entry of the
package, if it has one, comes first. -/
theorem entrypoints_are_files {view : FileView} (hview : view.ListsTruly) (kind : EntryKind)
    (options : CompilerOptions) (manifest : Manifest) :
    (∀ entries, (entrypoints view kind options manifest).val = some entries →
      entries ≠ [] ∧ entries.Nodup ∧
        ∀ entry ∈ entries, view.fileExists entry = true ∧ kind.accepts entry = true) ∧
    ∀ main, (mainFile? view kind manifest).val = some main →
      ∃ others, (entrypoints view kind options manifest).val = some (main :: others) := by
  constructor
  · intro entries hentries
    have hstart : (mainFile? view kind manifest).val.toList.Nodup := by
      cases (mainFile? view kind manifest).val <;> simp
    obtain ⟨files, hnodup, hfiles⟩ :=
      entrypoints_keeps keeps_nodup view kind options manifest hstart
    obtain ⟨hne, heq⟩ := Option.ite_none_left_eq_some.1 (hfiles.symm.trans hentries)
    obtain rfl : files = entries := Option.some.inj heq
    refine ⟨by simpa using hne, hnodup, fun entry hentry => ?_⟩
    have hfile : IsEntryFile view kind entry := by
      rcases mem_entrypoints hentries hentry with hmain | ⟨-, target, -, -, hleads⟩
      · exact isEntryFile_of_main hmain
      · exact isEntryFile_of_leads hview hleads
    exact ⟨hfile.fileExists, hfile.accepts⟩
  · intro main hmain
    obtain ⟨files, hprefix, hfiles⟩ := entrypoints_keeps
      (keeps_isPrefix (mainFile? view kind manifest).val.toList) view kind options manifest
      (List.prefix_refl _)
    rw [hmain] at hprefix
    obtain ⟨others, rfl⟩ := hprefix
    exact ⟨others, by rw [hfiles]; rfl⟩

/-- The files of `nestedPackages`, with a listing of the package and of its library. -/
def listedPackage : FileView :=
  { nestedPackages.view with
    files := fun directory =>
      if directory = "/w/a" then ["index.d.ts"]
      else if directory = "/w/a/lib" then ["b.d.ts"]
      else [] }

/-- The example tree lists only files that exist. -/
theorem listsTruly_listedPackage : listedPackage.ListsTruly := by
  intro directory name hname
  change name ∈ (if directory = "/w/a" then ["index.d.ts"]
    else if directory = "/w/a/lib" then ["b.d.ts"] else []) at hname
  split at hname
  · rename_i hdirectory
    rw [hdirectory, List.mem_singleton.1 hname]
    decide +kernel
  · split at hname
    · rename_i hdirectory
      rw [hdirectory, List.mem_singleton.1 hname]
      decide +kernel
    · simp at hname

/-- In the listed package every entry point is a file that exists. -/
theorem entrypoints_are_files_listedPackage :
    let options : CompilerOptions := { resolvePackageJsonExports := some true }
    let manifest : Manifest :=
      { fileName := "/w/a/package.json", directory := "/w/a", exports := some indexAndLibrary }
    (entrypoints listedPackage .typed options manifest).val =
        some ["/w/a/index.d.ts", "/w/a/lib/b.d.ts"] ∧
      listedPackage.fileExists "/w/a/lib/b.d.ts" = true := by
  intro options manifest
  have hentries : (entrypoints listedPackage .typed options manifest).val =
      some ["/w/a/index.d.ts", "/w/a/lib/b.d.ts"] := by decide +kernel
  have hfiles :=
    (entrypoints_are_files listsTruly_listedPackage .typed options manifest).1 _ hentries
  exact ⟨hentries, (hfiles.2.2 "/w/a/lib/b.d.ts" (by simp)).1⟩

end AutoImport
