import AutoImport.Proofs.Files.FollowedLinks

/-!
# Writing and reading

A tree in memory writes a file under the key of its path as it is spelled, and reads the one that
the links on the way down the path lead to.  So a write changes what is read of the paths that lead
to its key, and of no others (`MemoryTree.readText_writeFile`); removing a file likewise
(`MemoryTree.fileExists_removeFile`).

What is written at a path is therefore read there if the path leads to its own key, and only then.
Unless links run in a circle, that is so exactly where no link lies on the way down
(`MemoryTree.seenByReads_iff`).
-/

set_option autoImplicit false

namespace AutoImport.MemoryTree

variable {tree : MemoryTree} {path : String}

/-- A text that is written at the path is read there, no other file changes with it, and a file that
is removed there is gone. -/
structure SeenByReads (tree : MemoryTree) (path : String) : Prop where
  fileExists : ∀ text, (tree.writeFile path text).fileExists path = true
  readText : ∀ text, (tree.writeFile path text).readText path = some text
  others : ∀ text other, tree.resolve other ≠ tree.resolve path →
    (tree.writeFile path text).readText other = tree.readText other
  removed : (tree.removeFile path).1 = true → (tree.removeFile path).2.fileExists path = false

/-! ## What changes -/

/-- Trees with the same links and the same view of case lead every path to the same key. -/
theorem resolve_eq_of_links_eq {other : MemoryTree} (hlinks : other.links = tree.links)
    (hcase : other.caseSensitive = tree.caseSensitive) (path : String) :
    other.resolve path = tree.resolve path := by
  have hhop : other.hop? = tree.hop? := by
    funext place
    unfold hop?
    rw [hlinks]
  have hfollow : ∀ hops place, other.follow hops place = tree.follow hops place := by
    intro hops
    induction hops with
    | zero => exact fun _ => rfl
    | succ hops ih =>
      intro place
      rw [follow, follow, hhop]
      cases tree.hop? place with
      | none => rfl
      | some next => exact ih next
  unfold resolve key
  rw [hfollow, hcase]

/-- Writing a file changes no resolution. -/
theorem resolve_writeFile (tree : MemoryTree) (path text other : String) :
    (tree.writeFile path text).resolve other = tree.resolve other :=
  resolve_eq_of_links_eq rfl rfl other

/-- Removing a file changes no resolution. -/
theorem resolve_removeFile (tree : MemoryTree) (path other : String) :
    (tree.removeFile path).2.resolve other = tree.resolve other :=
  resolve_eq_of_links_eq rfl rfl other

/-- After a write its text is read at the paths that lead to the key of its path. -/
theorem readText_writeFile (tree : MemoryTree) (path text other : String) :
    (tree.writeFile path text).readText other =
      if tree.resolve other = tree.key path then some text else tree.readText other := by
  have hread : (tree.writeFile path text).readText other =
      (tree.files.insert (tree.key path) text).get?
        ((tree.writeFile path text).resolve other) := rfl
  rw [hread, resolve_writeFile, Table.get?_insert]
  simp only [eq_comm]
  rfl

/-- A file exists when it has a text. -/
theorem fileExists_eq (tree : MemoryTree) (path : String) :
    tree.fileExists path = (tree.readText path).isSome := rfl

/-- After a file is removed nothing is there at the paths that lead to the key of its path. -/
theorem fileExists_removeFile (tree : MemoryTree) (path other : String) :
    (tree.removeFile path).2.fileExists other =
      (tree.fileExists other && tree.resolve other ≠ tree.key path) := by
  have hread : (tree.removeFile path).2.readText other =
      (tree.files.erase (tree.key path)).get? ((tree.removeFile path).2.resolve other) := rfl
  rw [fileExists_eq, hread, resolve_removeFile, Table.get?_erase, fileExists_eq]
  by_cases hkey : tree.resolve other = tree.key path
  · rw [if_pos hkey.symm, decide_eq_false (not_not.2 hkey), Bool.and_false]
    rfl
  · rw [if_neg (Ne.symm hkey), decide_eq_true hkey, Bool.and_true]
    rfl

/-! ## Paths that lead to themselves -/

/-- No link on the way down a path, no hop. -/
theorem hop?_eq_none_iff : tree.hop? path = none ↔
    ∀ ancestor ∈ Path.ancestors path, ancestor ∉ tree.links.keys := by
  unfold hop?
  rw [List.findSome?_eq_none_iff]
  refine forall₂_congr fun ancestor _ => ?_
  rw [Option.map_eq_none_iff, ← Table.contains_iff_mem_keys]
  unfold Table.contains
  rw [Option.not_isSome_iff_eq_none]

/-- A path that no link redirects is written where it is read. -/
theorem seenByReads_of_resolve_eq (h : tree.resolve path = tree.key path) :
    tree.SeenByReads path where
  fileExists text := by rw [fileExists_eq, readText_writeFile, if_pos h]; rfl
  readText text := by rw [readText_writeFile, if_pos h]
  others text other hother := by rw [readText_writeFile, if_neg (h ▸ hother)]
  removed _ := by rw [fileExists_removeFile, decide_eq_false (not_not.2 h), Bool.and_false]

/-- If the path leads elsewhere, two different texts cannot both be read there. -/
theorem SeenByReads.resolve_eq (h : tree.SeenByReads path) : tree.resolve path = tree.key path := by
  by_contra hkey
  have hsame : ∀ text, tree.readText path = some text := by
    intro text
    have hread := h.readText text
    rwa [readText_writeFile, if_neg hkey] at hread
  have htexts : ("" : String) = "a" := Option.some.inj ((hsame "").symm.trans (hsame "a"))
  exact absurd htexts (by decide)

/-- Take any tree and any path.  Reads see what is written and removed at the path if and only if
the path leads to its own key.  Where the links on the way come to an end, that means that no link
lies at the path or above it. -/
theorem seenByReads_iff (tree : MemoryTree) (path : String) :
    (tree.SeenByReads path ↔ tree.resolve path = tree.key path) ∧
      (tree.hop? (tree.resolve path) = none →
        (tree.SeenByReads path ↔
          ∀ ancestor ∈ Path.ancestors (tree.key path), ancestor ∉ tree.links.keys)) := by
  refine ⟨⟨SeenByReads.resolve_eq, seenByReads_of_resolve_eq⟩, fun hends => ?_⟩
  rw [← hop?_eq_none_iff]
  constructor
  · intro hseen
    rwa [hseen.resolve_eq] at hends
  · intro hnone
    exact seenByReads_of_resolve_eq (follow_of_no_hop hnone hopLimit)

/-- A tree with a file in `/t`, and a link to `/t` that has taken the place of a directory with a
file of the same name. -/
def relinked : MemoryTree :=
  (((MemoryTree.writeFile {} "/t/f" "a").writeFile "/l/f" "b").linkDirectory "/l" "/t")

/-- The place behind the example link holds no further link, and still a write through the link is
not seen; one at the place itself is. -/
theorem seenByReads_iff_relinked :
    relinked.hop? (relinked.resolve "/l/f") = none ∧ ¬relinked.SeenByReads "/l/f" ∧
      relinked.SeenByReads "/t/f" := by
  have hend : relinked.hop? (relinked.resolve "/l/f") = none := by decide +kernel
  refine ⟨hend, ?_, (seenByReads_iff relinked "/t/f").1.2 (by decide +kernel)⟩
  rw [(seenByReads_iff relinked "/l/f").2 hend]
  intro hnone
  exact hnone "/l" (by decide +kernel) (by decide +kernel)

/-- What is written through a link is not there, and what is removed through a link still is. -/
theorem unseen_through_link :
    Built relinked ∧ (relinked.writeFile "/l/g" "c").fileExists "/l/g" = false ∧
      (relinked.removeFile "/l/f").1 = true ∧
      (relinked.removeFile "/l/f").2.fileExists "/l/f" = true := by
  refine ⟨?_, by decide +kernel⟩
  exact .linkDirectory "/l" "/t" (.writeFile "/l/f" "b" (.writeFile "/t/f" "a" (.new true)))

end AutoImport.MemoryTree
