import AutoImport.Discovery
import AutoImport.Files.Memory

/-!
# Reading by key

A tree in memory answers by the key of a path, so two spellings of one file get the same answers.
A manifest keeps the spelling under which it was reached, and nothing else of it depends on that:
`Manifest.contents` is the manifest without its place, and two spellings of one file have manifests
of the same contents.  The names that a manifest lists are part of its contents.
-/

set_option autoImplicit false

namespace AutoImport

namespace MemoryTree

variable {tree : MemoryTree} {first second : String}

/-- Paths with one key resolve to one place. -/
theorem resolve_of_key_eq (h : tree.key first = tree.key second) :
    tree.resolve first = tree.resolve second := by
  unfold resolve
  rw [h]

/-- Paths with one key read the same text. -/
theorem readText_of_key_eq (h : tree.key first = tree.key second) :
    tree.readText first = tree.readText second := by
  unfold readText
  rw [resolve_of_key_eq h]

/-- Paths with one key are directories alike. -/
theorem directoryExists_of_key_eq (h : tree.key first = tree.key second) :
    tree.directoryExists first = tree.directoryExists second := by
  unfold directoryExists
  rw [resolve_of_key_eq h]

/-- Paths with one key are files alike. -/
theorem fileExists_of_key_eq (h : tree.key first = tree.key second) :
    tree.fileExists first = tree.fileExists second := by
  unfold fileExists
  rw [resolve_of_key_eq h]

/-- A path that is not a file has no text. -/
theorem readText_of_not_fileExists {path : String} (h : tree.fileExists path = false) :
    tree.readText path = none := by
  unfold fileExists Table.contains at h
  exact Option.isNone_iff_eq_none.1 (Option.isSome_eq_false_iff.1 h)

end MemoryTree

namespace Manifest

/-- A manifest without the place under which it was reached. -/
def contents (manifest : Manifest) : Manifest :=
  { manifest with fileName := "", directory := "" }

/-- What a text says does not depend on the name of its file. -/
theorem contents_ofJson? (first second text : String) :
    (ofJson? first text).map contents = (ofJson? second text).map contents := by
  unfold ofJson?
  cases Json.Strict.read? text with
  | none => rfl
  | some tree =>
    dsimp only
    cases schema.readRecord .strict .empty tree with
    | error fault => rfl
    | ok members => rfl

/-- Two spellings of one file have manifests of the same contents. -/
theorem contents_read?_of_key_eq {tree : MemoryTree} {first second : String}
    (h : tree.key first = tree.key second) :
    (read? tree.view first).map contents = (read? tree.view second).map contents := by
  have htext : tree.view.readText first = tree.view.readText second :=
    MemoryTree.readText_of_key_eq h
  unfold read?
  rw [htext]
  cases tree.view.readText second with
  | none => rfl
  | some text => exact contents_ofJson? first second text

/-- A manifest that cannot be read at one path cannot be read at another of the same key. -/
theorem read?_eq_none_of_key_eq {tree : MemoryTree} {first second : String}
    (h : tree.key first = tree.key second) (hnone : read? tree.view first = none) :
    read? tree.view second = none := by
  have hcontents := contents_read?_of_key_eq h
  rw [hnone] at hcontents
  exact Option.map_eq_none_iff.1 hcontents.symm

/-- A manifest remembers the path under which it was read. -/
theorem place_of_read? {view : FileView} {fileName : String} {manifest : Manifest}
    (h : read? view fileName = some manifest) :
    manifest.fileName = fileName ∧ manifest.directory = Path.directory fileName := by
  obtain ⟨text, -, htext⟩ := Option.bind_eq_some_iff.1 h
  unfold ofJson? at htext
  split at htext
  · exact absurd htext (by simp)
  · split at htext
    · rw [← Option.some.inj htext]
      exact ⟨rfl, rfl⟩
    · exact absurd htext (by simp)

/-- A file that is not there has no manifest. -/
theorem read?_of_not_fileExists {tree : MemoryTree} {fileName : String}
    (h : tree.fileExists fileName = false) : read? tree.view fileName = none := by
  have htext : tree.view.readText fileName = none := MemoryTree.readText_of_not_fileExists h
  unfold read?
  rw [htext]
  rfl

end Manifest

namespace Discovery

/-- Manifests of the same contents list the same dependencies. -/
theorem dependencyNames_of_contents_eq {first second : List Manifest}
    (h : first.map Manifest.contents = second.map Manifest.contents) :
    dependencyNames first = dependencyNames second := by
  have hnames : ∀ manifests : List Manifest,
      manifests.flatMap listedNames = (manifests.map Manifest.contents).flatMap listedNames := by
    intro manifests
    rw [List.flatMap_map]
    rfl
  unfold dependencyNames
  rw [hnames first, hnames second, h]

end Discovery

end AutoImport
