import AutoImport.Proofs.Entrypoints.ExportTargets

/-!
# Entry points below their package

The main entry of a package comes from one of several texts of its manifest, or else it is the index
of the package.  None of these texts is checked, so a text with `..` leads wherever it says.  When
every text names something below the package, and every target of the export map stays inside, then
all entry points descend from the package directory (`descends_of_mem_entrypoints`).
-/

set_option autoImplicit false

namespace AutoImport

/-- The second of two searches answers only where the first has none. -/
theorem Probed.val_orElse {α : Type} (first : Probed (Option α))
    (second : Unit → Probed (Option α)) :
    (Probed.orElse first second).val = first.val.or (second ()).val := by
  unfold Probed.orElse
  rw [Probed.val_bind]
  cases first.val <;> rfl

/-- A search through a list answers what it answers for one of the elements. -/
theorem Probed.exists_of_val_findSome? {α β : Type} {f : α → Probed (Option β)} {elements : List α}
    {b : β} (h : (Probed.findSome? f elements).val = some b) :
    ∃ a ∈ elements, (f a).val = some b := by
  induction elements with
  | nil => simp [Probed.findSome?] at h
  | cons a rest ih =>
    rw [Probed.findSome?, Probed.val_bind] at h
    cases hfirst : (f a).val with
    | some found =>
      rw [hfirst] at h
      exact ⟨a, List.mem_cons_self, hfirst.trans h⟩
    | none =>
      rw [hfirst] at h
      obtain ⟨other, hother, hfound⟩ := ih h
      exact ⟨other, List.mem_cons_of_mem _ hother, hfound⟩

namespace Entrypoints

/-- The text of a manifest as it is put behind the package directory. -/
def relativeText (text : String) : Chars :=
  let trimmed := Text.trim text.toList
  Chars.slashed ((Text.stripPrefix? ['.', '/'] trimmed).getD trimmed)

/-- A text that names something below the directory it is seen from. -/
def NamesBelow (text : String) : Prop :=
  Chars.isRooted (relativeText text) = false ∧
    ['.', '.'] ∉ Text.splitOn '/' (relativeText text) ∧ Chars.keptSegments (relativeText text) ≠ []
  deriving Decidable

/-- The texts of a manifest that may name its main entry. -/
def mainTexts (manifest : Manifest) : List String :=
  (manifest.typesVersions.bind versionedIndex?).getD [] ++
    (manifest.typesEntry.toList ++ manifest.main.toList)

/-- No text of the manifest leads out of its package. -/
structure KeepsInside (manifest : Manifest) : Prop where
  texts : ∀ text ∈ mainTexts manifest, NamesBelow text
  targets : ∀ exports, manifest.exports = some exports →
    ∀ target, exports.HasText target → StaysInside target

/-- The name `index` is a segment. -/
theorem isSegment_index : Chars.IsSegment "index".toList :=
  ⟨⟨by decide, by decide⟩, by decide, by decide, by decide⟩

section Below

variable {view : FileView} {kind : EntryKind} {directory file : String} {segments : List Chars}

/-- A file that a path below some segments stands for lies below them too. -/
theorem exists_segments_of_file? {path : String} {more : List Chars}
    (hmore : ∀ segment ∈ more, Chars.IsSegment segment) (hne : more ≠ [])
    (hpath : path.toList = Chars.build ['/'] (segments ++ more))
    (h : (file? view kind path).val = some file) :
    ∃ other, (∀ segment ∈ other, Chars.IsSegment segment) ∧
      file.toList = Chars.build ['/'] (segments ++ other) := by
  obtain ⟨inner, last, hinner⟩ := (List.eq_nil_or_concat more).resolve_left hne
  rw [List.concat_eq_append] at hinner
  subst hinner
  rw [← List.append_assoc] at hpath
  obtain ⟨other, hother, -, hfile⟩ := EntryKind.exists_last_of_mem_spellings
    (mem_spellings_of_file? h) hpath (hmore last (by simp))
  rw [List.append_assoc] at hfile
  exact ⟨inner ++ [other], List.forall_mem_append.2
    ⟨(List.forall_mem_append.1 hmore).1, List.forall_mem_singleton.2 hother⟩, hfile⟩

variable (hsegments : ∀ segment ∈ segments, Chars.IsSegment segment)

include hsegments

/-- The index of a directory is one more segment. -/
theorem toList_join_index {path : String} {more : List Chars}
    (hmore : ∀ segment ∈ more, Chars.IsSegment segment)
    (hpath : path.toList = Chars.build ['/'] (segments ++ more)) :
    (Path.join path "index").toList =
      Chars.build ['/'] (segments ++ (more ++ ["index".toList])) := by
  have hnormal := isNormal_build_append hsegments hmore
  have hpieces : ∀ piece ∈ segments ++ more, Chars.IsPiece piece := fun piece hpiece =>
    (List.forall_mem_append.2 ⟨hsegments, hmore⟩ piece hpiece).isPiece
  unfold Path.join
  rw [String.toList_ofList, hpath]
  rcases Chars.join_build .slash hpieces hnormal.noBackslash ⟨isSegment_index, by decide⟩ with
    ⟨-, hjoin⟩ | ⟨-, hbare, -⟩
  · rw [hjoin, List.append_assoc]
  · exact absurd (List.mem_singleton_self _) hbare

/-- A file found at a path below the package directory lies below it, as a file or as an index. -/
theorem exists_segments_of_fileOrIndex? {path : String} {more : List Chars}
    (hmore : ∀ segment ∈ more, Chars.IsSegment segment) (hne : more ≠ [])
    (hpath : path.toList = Chars.build ['/'] (segments ++ more))
    (h : (fileOrIndex? view kind path).val = some file) :
    ∃ other, (∀ segment ∈ other, Chars.IsSegment segment) ∧
      file.toList = Chars.build ['/'] (segments ++ other) := by
  unfold fileOrIndex? at h
  rw [Probed.val_orElse, Option.or_eq_some_iff] at h
  rcases h with h | ⟨-, h⟩
  · exact exists_segments_of_file? hmore hne hpath h
  · split at h
    · exact exists_segments_of_file?
        (List.forall_mem_append.2 ⟨hmore, List.forall_mem_singleton.2 isSegment_index⟩) (by simp)
        (toList_join_index hsegments hmore hpath) h
    · simp at h

variable (hdirectory : directory.toList = Chars.build ['/'] segments)

include hdirectory

/-- A file found through a text that names something below lies below the package directory. -/
theorem exists_segments_of_namesBelow {text : String} (hbelow : NamesBelow text)
    (h : (fileOrIndex? view kind (packagePath directory text)).val = some file) :
    ∃ more, (∀ segment ∈ more, Chars.IsSegment segment) ∧
      file.toList = Chars.build ['/'] (segments ++ more) := by
  obtain ⟨hunrooted, hup, hne⟩ := hbelow
  have hback : '\\' ∉ relativeText text := Chars.not_mem_slashed _
  have hpath : (packagePath directory text).toList =
      Chars.build ['/'] (segments ++ Chars.keptSegments (relativeText text)) := by
    unfold packagePath Path.normalize Path.join
    simp only [String.toList_ofList]
    rw [← Chars.join_slashed_right, hdirectory]
    exact Chars.normalize_join_relative hsegments hback hunrooted hup
  refine exists_segments_of_fileOrIndex? hsegments ?_ hne hpath h
  intro segment hsegment
  obtain ⟨hmem, hpiece⟩ := Chars.mem_keptSegments hsegment
  have hkept := of_decide_eq_true (List.mem_filter.1 hsegment).2
  exact ⟨hpiece, fun hmemBack => hback (Text.mem_of_mem_splitOn hmem hmemBack).1, hkept.2,
    fun heq => hup (heq ▸ hmem)⟩

end Below

/-- The main entry of a package lies below it, if the manifest keeps inside. -/
theorem exists_segments_of_main {view : FileView} {kind : EntryKind} {manifest : Manifest}
    {file : String} {segments : List Chars}
    (hsegments : ∀ segment ∈ segments, Chars.IsSegment segment)
    (hdirectory : manifest.directory.toList = Chars.build ['/'] segments)
    (hinside : KeepsInside manifest) (h : (mainFile? view kind manifest).val = some file) :
    ∃ more, (∀ segment ∈ more, Chars.IsSegment segment) ∧
      file.toList = Chars.build ['/'] (segments ++ more) := by
  have hmember : ∀ member : Option String, (∀ text ∈ member, text ∈ mainTexts manifest) →
      (fromMember? view kind manifest.directory member).val = some file →
        ∃ more, (∀ segment ∈ more, Chars.IsSegment segment) ∧
          file.toList = Chars.build ['/'] (segments ++ more) := by
    intro member htexts hfile
    cases member with
    | none => simp [fromMember?] at hfile
    | some text =>
      exact exists_segments_of_namesBelow hsegments hdirectory
        (hinside.texts text (htexts text rfl)) hfile
  unfold mainFile? at h
  rw [Probed.val_orElse, Probed.val_orElse, Option.or_eq_some_iff, Option.or_eq_some_iff] at h
  rcases h with h | ⟨-, h | ⟨-, h⟩⟩
  · unfold fromTypes? at h
    cases kind with
    | script => simp at h
    | typed =>
      dsimp only at h
      rw [Probed.val_orElse, Option.or_eq_some_iff] at h
      rcases h with h | ⟨-, h⟩
      · unfold fromTypesVersions? at h
        split at h
        · rename_i targets htargets
          obtain ⟨text, htext, hfile⟩ := Probed.exists_of_val_findSome? h
          refine exists_segments_of_namesBelow hsegments hdirectory (hinside.texts text ?_) hfile
          unfold mainTexts
          rw [htargets]
          exact List.mem_append_left _ htext
        · simp at h
      · apply hmember manifest.typesEntry _ h
        intro text htext
        unfold mainTexts
        simp [Option.mem_toList.2 htext]
  · apply hmember manifest.main _ h
    intro text htext
    unfold mainTexts
    simp [Option.mem_toList.2 htext]
  · have hnone : ∀ segment ∈ ([] : List Chars), Chars.IsSegment segment := by simp
    have hindex := toList_join_index hsegments hnone (by rw [List.append_nil]; exact hdirectory)
    exact exists_segments_of_file? (List.forall_mem_singleton.2 isSegment_index) (by simp) hindex h

/-- An entry point is the main entry, or a text of the export map leads to it. -/
theorem mem_entrypoints {view : FileView} {kind : EntryKind} {options : CompilerOptions}
    {manifest : Manifest} {entries : List String}
    (h : (entrypoints view kind options manifest).val = some entries) {entry : String}
    (hentry : entry ∈ entries) :
    (mainFile? view kind manifest).val = some entry ∨
      ∃ exports target, manifest.exports = some exports ∧ exports.HasText target ∧
        Leads view kind manifest.directory target entry := by
  unfold entrypoints at h
  rw [Probed.val_bind] at h
  dsimp only at h
  split at h
  · rename_i exports hresolves hexports
    rw [Probed.val_bind, Probed.val_pure, Option.ite_none_left_eq_some, Option.some.injEq] at h
    rw [← h.2] at hentry
    rcases mem_walkExports hentry with hmem | ⟨target, htext, hleads⟩
    · exact Or.inl (Option.mem_toList.1 hmem)
    · exact Or.inr ⟨exports, target, hexports, htext, hleads⟩
  · rw [Probed.val_bind, Probed.val_pure, Option.ite_none_left_eq_some, Option.some.injEq] at h
    rw [← h.2] at hentry
    exact Or.inl (Option.mem_toList.1 hentry)

end Entrypoints

/-- The entry points of a package descend from its directory, if its manifest keeps inside. -/
theorem descends_of_mem_entrypoints {view : FileView} (hview : view.ListsNames) {kind : EntryKind}
    {options : CompilerOptions} {manifest : Manifest} (hnormal : Path.IsNormal manifest.directory)
    (hslash : Path.IsSlashRooted manifest.directory) (hroot : manifest.directory ≠ "/")
    (hinside : Entrypoints.KeepsInside manifest) {entries : List String}
    (h : (entrypoints view kind options manifest).val = some entries) :
    ∀ entry ∈ entries, Path.Descends manifest.directory entry := by
  obtain ⟨segments, hsegments, hdirectory⟩ := Chars.exists_segments hnormal hslash
  have hne : segments ≠ [] := by
    rintro rfl
    exact hroot (String.toList_inj.1 hdirectory)
  intro entry hentry
  obtain ⟨more, hmore, hfile⟩ : ∃ more, (∀ segment ∈ more, Chars.IsSegment segment) ∧
      entry.toList = Chars.build ['/'] (segments ++ more) := by
    rcases Entrypoints.mem_entrypoints h hentry with hmain |
      ⟨exports, target, hexports, htext, hleads⟩
    · exact Entrypoints.exists_segments_of_main hsegments hdirectory hinside hmain
    · obtain ⟨more, hmore, -, hfile⟩ := Entrypoints.exists_segments_of_leads hview hsegments
        hdirectory hleads (hinside.targets exports hexports target htext)
      exact ⟨more, hmore, hfile⟩
  exact ⟨more, hmore, by rw [hfile, Chars.build_append_trail hne, hdirectory]⟩

end AutoImport
