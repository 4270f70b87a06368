import AutoImport.Proofs.Path.AncestorSegments
import AutoImport.Proofs.Path.StableForms

/-!
# Ancestors as a list

Lookups walk the ancestors of a directory, and changes are routed by comparing texts.  For normal
paths behind `/` or a drive root both see the same paths: those with the same root whose parts are
the first parts of the child (`Path.contains_iff_ancestor_iff_prefix`).  The walk meets each of them
once, the child first, the root last, and each one as a shorter beginning of those before it.

Nothing of this holds behind a bare drive: the directory of `c:a` is the empty path, and `c:` is not
among the ancestors of `c:a`.
-/

set_option autoImplicit false

namespace AutoImport

namespace Chars

variable {root other : Chars} {front segments : List Chars}

/-- The root of a path that begins with an open root is that root. -/
theorem rootOf_append_open (hroot : IsRoot root) (hopen : '/' ∈ root) (rest : Chars) :
    rootOf (root ++ rest) = root := by
  unfold rootOf
  rw [rootLength_append_open hroot hopen]
  exact List.take_left

/-- What a path behind an open root contains has the same root. -/
theorem rootOf_of_contains (hroot : IsRoot root) (hopen : '/' ∈ root)
    (hfront : ∀ piece ∈ front, IsPiece piece) {child : Chars} (hslash : '/' ∈ child)
    (h : contains (build root front) child = true) : rootOf child = root := by
  rcases List.eq_nil_or_concat front with rfl | ⟨start, last, rfl⟩
  · -- The slash at the end of the root was dropped, so it is the one behind.
    obtain ⟨start, rfl, hstart⟩ := hroot.ends.resolve_right fun hbare => hbare hopen
    have htrimmed : Text.dropTrailingSlash (build (start ++ ['/']) []) = start := by
      rw [build_nil, Text.dropTrailingSlash_concat]
    have hlast : (Text.dropTrailingSlash (build (start ++ ['/']) [])).getLast? ≠ some '/' := by
      rw [htrimmed]
      exact fun hlast => hstart (List.mem_of_mem_getLast? hlast)
    rcases contains_cases hlast h with hsame | ⟨rest, hmore⟩
    · rw [hsame, htrimmed] at hslash
      exact absurd hslash hstart
    · rw [htrimmed, List.append_cons] at hmore
      rw [hmore]
      exact rootOf_append_open hroot hopen rest
  · rw [List.concat_eq_append] at *
    have hpiece := hfront last (by simp)
    have htrimmed := dropTrailingSlash_build root start hpiece
    have hends := getLast?_build_concat root start hpiece
    rcases contains_cases (by rwa [htrimmed]) h with hsame | ⟨rest, hmore⟩
    · rw [hsame, htrimmed]
      exact rootOf_append_open hroot hopen _
    · rw [hmore, htrimmed]
      unfold build
      rw [List.append_assoc]
      exact rootOf_append_open hroot hopen _

/-- A path contains another exactly if it has the same root and its segments come first there. -/
theorem contains_build_iff_root (hroot : IsRoot root) (hopen : '/' ∈ root) (hother : IsRoot other)
    (hotherOpen : '/' ∈ other) (hfront : ∀ piece ∈ front, IsPiece piece)
    (hsegments : ∀ piece ∈ segments, IsPiece piece) :
    contains (build root front) (build other segments) = true ↔
      root = other ∧ front <+: segments := by
  constructor
  · intro h
    have hslash : '/' ∈ build other segments := List.mem_append_left _ hotherOpen
    have hsame := rootOf_of_contains hroot hopen hfront hslash h
    rw [rootOf_build hother hsegments] at hsame
    subst hsame
    exact ⟨rfl, (contains_build_iff hroot hopen hfront hsegments).1 h⟩
  · rintro ⟨rfl, hfirst⟩
    exact (contains_build_iff hroot hopen hfront hsegments).2 hfirst

/-- A path of fewer segments is a beginning of the path of more. -/
theorem build_isPrefix (root : Chars) (h : front <+: segments) :
    build root front <+: build root segments := by
  obtain ⟨more, rfl⟩ := h
  by_cases hfront : front = []
  · rw [hfront, build_nil]
    exact List.prefix_append _ _
  · by_cases hmore : more = []
    · subst hmore
      simp
    · rw [build_append hfront hmore]
      exact List.prefix_append _ _

/-- Farther ancestors are shorter beginnings of nearer ones, and the root is the last. -/
theorem ancestors_build_descend (hroot : IsRoot root) (hopen : '/' ∈ root)
    (hsegments : ∀ piece ∈ segments, IsPiece piece) :
    (ancestors (build root segments)).Pairwise
        (fun nearer farther => farther <+: nearer ∧ farther.length < nearer.length) ∧
      (ancestors (build root segments)).head? = some (build root segments) ∧
      (ancestors (build root segments)).getLast? = some root := by
  induction segments using List.reverseRecOn with
  | nil =>
    rw [build_nil, ancestors_root hroot]
    exact ⟨List.pairwise_singleton _ _, rfl, rfl⟩
  | append_singleton start last ih =>
    have hstart : ∀ piece ∈ start, IsPiece piece := fun s hs => hsegments s (by simp [hs])
    obtain ⟨hdescend, hhead, hlast⟩ := ih hstart
    rw [ancestors_build_concat hroot hopen hsegments]
    refine ⟨List.pairwise_cons.2 ⟨fun farther hfarther => ?_, hdescend⟩, rfl, ?_⟩
    · obtain ⟨front, hfront, rfl⟩ := (mem_ancestors_build hroot hopen hstart).1 hfarther
      refine ⟨build_isPrefix root (hfront.trans (List.prefix_append _ _)), ?_⟩
      exact Nat.lt_of_le_of_lt (build_isPrefix root hfront).length_le
        (length_build_lt_concat hsegments)
    · rw [List.getLast?_cons, hlast]
      rfl

end Chars

namespace Path

/-- A normal path behind an open root, taken apart. -/
theorem exists_build_of_openRoot {path : String} (h : IsNormal path) (hopen : HasOpenRoot path) :
    ∃ root segments, Chars.IsRoot root ∧ '/' ∈ root ∧
      (∀ segment ∈ segments, Chars.IsSegment segment) ∧
      path = .ofList (Chars.build root segments) ∧ rootOf path = .ofList root ∧
      parts path = segments.map .ofList := by
  obtain ⟨hroot, hsegments, hbuild⟩ := Chars.IsNormal.eq_build h
  unfold HasOpenRoot rootOf at hopen
  rw [String.toList_ofList] at hopen
  refine ⟨_, _, hroot, hopen, hsegments, ?_, rfl, rfl⟩
  rw [← hbuild, String.ofList_toList]

/-- A path that begins with `/` has an open root. -/
theorem IsSlashRooted.hasOpenRoot {path : String} (h : IsSlashRooted path) : HasOpenRoot path := by
  obtain ⟨rest, hrest⟩ := h.toList_eq
  unfold HasOpenRoot rootOf
  rw [String.toList_ofList, hrest]
  exact List.mem_singleton_self '/'

/-- An open root followed by segments is a normal path with that root. -/
theorem openRoot_build {root : Chars} {segments : List Chars} (hroot : Chars.IsRoot root)
    (hopen : '/' ∈ root) (hsegments : ∀ segment ∈ segments, Chars.IsSegment segment) :
    IsNormal (.ofList (Chars.build root segments)) ∧
      HasOpenRoot (.ofList (Chars.build root segments)) := by
  have hpieces : ∀ segment ∈ segments, Chars.IsPiece segment := fun s hs => (hsegments s hs).isPiece
  unfold IsNormal HasOpenRoot rootOf
  rw [String.toList_ofList, String.toList_ofList, Chars.rootOf_build hroot hpieces]
  exact ⟨⟨root, segments, hroot, hsegments, rfl⟩, hopen⟩

/-- The ancestors of a text are those of its characters. -/
theorem ancestors_ofList (path : Chars) :
    ancestors (.ofList path) = (Chars.ancestors path).map .ofList := by
  unfold ancestors
  rw [String.toList_ofList]

section Comparison

variable {path child : String}

/-- The comparison of texts is that of the roots and the parts. -/
theorem contains_iff_parts (hpath : IsNormal path) (hopen : HasOpenRoot path)
    (hchild : IsNormal child) (hchildOpen : HasOpenRoot child) :
    contains path child = true ↔ rootOf path = rootOf child ∧ parts path <+: parts child := by
  obtain ⟨root, front, hroot, hrootOpen, hfront, rfl, hrootOf, hparts⟩ :=
    exists_build_of_openRoot hpath hopen
  obtain ⟨other, segments, hother, hotherOpen, hsegments, rfl, hotherOf, hotherParts⟩ :=
    exists_build_of_openRoot hchild hchildOpen
  rw [hrootOf, hparts, hotherOf, hotherParts, String.ofList_inj,
    List.prefix_map_iff_of_injective fun _ _ => String.ofList_injective]
  unfold contains
  rw [String.toList_ofList, String.toList_ofList]
  exact Chars.contains_build_iff_root hroot hrootOpen hother hotherOpen
    (fun s hs => (hfront s hs).isPiece) fun s hs => (hsegments s hs).isPiece

/-- And so is the walk. -/
theorem mem_ancestors_iff_parts (hpath : IsNormal path) (hopen : HasOpenRoot path)
    (hchild : IsNormal child) (hchildOpen : HasOpenRoot child) :
    path ∈ ancestors child ↔ rootOf path = rootOf child ∧ parts path <+: parts child := by
  obtain ⟨root, front, hroot, hrootOpen, hfront, rfl, hrootOf, hparts⟩ :=
    exists_build_of_openRoot hpath hopen
  obtain ⟨other, segments, hother, hotherOpen, hsegments, rfl, hotherOf, hotherParts⟩ :=
    exists_build_of_openRoot hchild hchildOpen
  have hinjective : Function.Injective String.ofList := fun _ _ => String.ofList_injective
  have hfrontPieces : ∀ s ∈ front, Chars.IsPiece s := fun s hs => (hfront s hs).isPiece
  have hpieces : ∀ s ∈ segments, Chars.IsPiece s := fun s hs => (hsegments s hs).isPiece
  rw [hrootOf, hparts, hotherOf, hotherParts, String.ofList_inj,
    List.prefix_map_iff_of_injective hinjective, ancestors_ofList,
    List.mem_map_of_injective hinjective, Chars.mem_ancestors_build hother hotherOpen hpieces]
  constructor
  · rintro ⟨shorter, hshorter, hsame⟩
    have hshorterPieces : ∀ s ∈ shorter, Chars.IsPiece s :=
      fun s hs => hpieces s (hshorter.subset hs)
    have hroots := Chars.rootOf_build hroot hfrontPieces
    have hrests := Chars.parts_build hroot hfrontPieces
    rw [hsame, Chars.rootOf_build hother hshorterPieces] at hroots
    rw [hsame, Chars.parts_build hother hshorterPieces] at hrests
    exact ⟨hroots.symm, hrests ▸ hshorter⟩
  · rintro ⟨rfl, hfirst⟩
    exact ⟨front, hfirst, rfl⟩

/-- The ancestors of a normal path with an open root are such paths too. -/
theorem openRoot_of_mem_ancestors (hchild : IsNormal child) (hchildOpen : HasOpenRoot child)
    (h : path ∈ ancestors child) : IsNormal path ∧ HasOpenRoot path := by
  obtain ⟨root, segments, hroot, hopen, hsegments, rfl, -, -⟩ :=
    exists_build_of_openRoot hchild hchildOpen
  rw [ancestors_ofList] at h
  obtain ⟨chars, hchars, rfl⟩ := List.mem_map.1 h
  obtain ⟨front, hfront, rfl⟩ :=
    (Chars.mem_ancestors_build hroot hopen fun s hs => (hsegments s hs).isPiece).1 hchars
  exact openRoot_build hroot hopen fun s hs => hsegments s (hfront.subset hs)

/-- The ancestors go down to the root, each shorter than the last and a beginning of it. -/
theorem ancestors_descend (hchild : IsNormal child) (hchildOpen : HasOpenRoot child) :
    (ancestors child).Pairwise
        (fun nearer farther => farther.toList <+: nearer.toList ∧ farther.length < nearer.length) ∧
      (ancestors child).head? = some child ∧ (ancestors child).getLast? = some (rootOf child) := by
  obtain ⟨root, segments, hroot, hopen, hsegments, rfl, hrootOf, -⟩ :=
    exists_build_of_openRoot hchild hchildOpen
  obtain ⟨hdescend, hhead, hlast⟩ :=
    Chars.ancestors_build_descend hroot hopen fun s hs => (hsegments s hs).isPiece
  rw [ancestors_ofList, List.pairwise_map, List.head?_map, List.getLast?_map, hhead, hlast, hrootOf]
  refine ⟨?_, rfl, rfl⟩
  simpa only [String.toList_ofList, String.length_ofList] using hdescend

/-- Let the roots of two normal paths be `/` or drive roots.  Then the one contains the other
exactly if it is among its ancestors, and exactly if the roots are the same and its parts are the
first parts of the other.  The ancestors of a path are all such paths that contain it, each once:
the path first, its root last, and each one a shorter beginning of those before it. -/
theorem contains_iff_ancestor_iff_prefix (hpath : IsNormal path) (hopen : HasOpenRoot path)
    (hchild : IsNormal child) (hchildOpen : HasOpenRoot child) :
    (contains path child = true ↔ path ∈ ancestors child) ∧
      (path ∈ ancestors child ↔ rootOf path = rootOf child ∧ parts path <+: parts child) ∧
      (∀ other, other ∈ ancestors child ↔
        IsNormal other ∧ HasOpenRoot other ∧ contains other child = true) ∧
      (ancestors child).Nodup ∧
      (ancestors child).head? = some child ∧
      (ancestors child).getLast? = some (rootOf child) ∧
      (ancestors child).Pairwise fun nearer farther =>
        farther.toList <+: nearer.toList ∧ farther.length < nearer.length := by
  have hsame : ∀ other, IsNormal other → HasOpenRoot other →
      (contains other child = true ↔ other ∈ ancestors child) := by
    intro other hother hotherOpen
    rw [contains_iff_parts hother hotherOpen hchild hchildOpen,
      mem_ancestors_iff_parts hother hotherOpen hchild hchildOpen]
  obtain ⟨hdescend, hhead, hlast⟩ := ancestors_descend hchild hchildOpen
  refine ⟨hsame path hpath hopen, mem_ancestors_iff_parts hpath hopen hchild hchildOpen,
    fun other => ⟨fun hother => ?_, ?_⟩, ?_, hhead, hlast, hdescend⟩
  · obtain ⟨hnormal, hotherOpen⟩ := openRoot_of_mem_ancestors hchild hchildOpen hother
    exact ⟨hnormal, hotherOpen, (hsame other hnormal hotherOpen).2 hother⟩
  · rintro ⟨hnormal, hotherOpen, hcontains⟩
    exact (hsame other hnormal hotherOpen).1 hcontains
  · -- A path would be shorter than itself.
    refine hdescend.imp ?_
    rintro nearer farther ⟨-, hshorter⟩ rfl
    exact Nat.lt_irrefl _ hshorter

end Comparison

/-- A drive and a directory on it. -/
theorem contains_iff_ancestor_iff_prefix_drive :
    (IsNormal "c:/" ∧ HasOpenRoot "c:/" ∧ IsNormal "c:/lib/a" ∧ HasOpenRoot "c:/lib/a") ∧
      contains "c:/" "c:/lib/a" = true ∧ "c:/" ∈ ancestors "c:/lib/a" ∧
      rootOf "c:/" = rootOf "c:/lib/a" ∧ parts "c:/" <+: parts "c:/lib/a" ∧
      (ancestors "c:/lib/a").head? = some "c:/lib/a" ∧
      (ancestors "c:/lib/a").getLast? = some "c:/" := by
  have hdrive : IsNormal "c:/" := isNormal_of_normalize_eq (by decide +kernel)
  have hchild : IsNormal "c:/lib/a" := isNormal_of_normalize_eq (by decide +kernel)
  have hdriveOpen : HasOpenRoot "c:/" := by decide +kernel
  have hchildOpen : HasOpenRoot "c:/lib/a" := by decide +kernel
  have hroot : rootOf "c:/lib/a" = "c:/" := by decide +kernel
  have hcontains : contains "c:/" "c:/lib/a" = true := by decide +kernel
  obtain ⟨hsame, hprefix, -, -, hfirst, hlast, -⟩ :=
    contains_iff_ancestor_iff_prefix hdrive hdriveOpen hchild hchildOpen
  have hancestor := hsame.1 hcontains
  obtain ⟨hroots, hparts⟩ := hprefix.1 hancestor
  rw [hroot] at hlast
  exact ⟨⟨hdrive, hdriveOpen, hchild, hchildOpen⟩, hcontains, hancestor, hroots, hparts, hfirst,
    hlast⟩

end Path

end AutoImport
