import AutoImport.Proofs.Path.RelativePaths
import AutoImport.Proofs.Text.SmallForms
import Mathlib.Data.List.Induction

/-!
# Keys, and paths with segments behind them

The key of a path is a normal path in small letters, so it is its own key, seen from anywhere
(`Path.canonical_canonical`).

Segments behind a path come behind its key (`Chars.canonical_append_trail`), however the path is
spelled, as long as the key is no root: behind a root there would be a `/` too many.  The ancestors
of the longer path are those of the shorter one, after the paths in between
(`Chars.ancestors_append_trail`).
-/

set_option autoImplicit false

namespace AutoImport

namespace Text

/-- A small form that is made of marks is the text itself. -/
theorem lowercaseAfter_eq_of_marks {before text : Chars}
    (h : ∀ m ∈ lowercaseAfter before text, IsMark m) : lowercaseAfter before text = text := by
  induction text generalizing before with
  | nil => rfl
  | cons c cs ih =>
    rw [lowercaseAfter] at h ⊢
    rw [ih fun m hm => h m (List.mem_append_right _ hm)]
    split
    · -- No sigma is a mark.
      rename_i hsigma
      rw [if_pos hsigma] at h
      split at h
      · exact absurd (h 'ς' (by simp)) (by decide)
      · exact absurd (h 'σ' (by simp)) (by decide)
    · rename_i hsigma
      rw [if_neg hsigma] at h
      obtain ⟨m, rest, hlower⟩ := List.exists_cons_of_ne_nil (lowerChar_ne_nil c)
      have hm : IsMark m := h m (List.mem_append_left _ (by simp [hlower]))
      obtain rfl : c = m := (mem_lowerChar_iff hm c).1 (by simp [hlower])
      have hascii : c.toNat < 0x80 := by
        unfold IsMark at hm
        omega
      unfold lowerChar
      rw [if_pos hascii, toLower_of_isMark hm]
      rfl

end Text

namespace Chars

/-! ## Keys are keys -/

/-- A segment written in small letters is a segment. -/
theorem isSegment_lowercaseAfter (before segment : Chars) (h : IsSegment segment) :
    IsSegment (Text.lowercaseAfter before segment) := by
  have hdots : ∀ n, segment ≠ List.replicate n '.' →
      Text.lowercaseAfter before segment ≠ List.replicate n '.' := by
    intro n hne heq
    have hmarks : ∀ m ∈ Text.lowercaseAfter before segment, Text.IsMark m := by
      rw [heq]
      intro m hm
      rw [List.eq_of_mem_replicate hm]
      decide
    exact hne ((Text.lowercaseAfter_eq_of_marks hmarks).symm.trans heq)
  exact
    { isPiece := isPiece_lowercaseAfter before h.isPiece
      noBackslash := fun hm =>
        h.noBackslash ((Text.mem_lowercaseAfter_iff (by decide) before segment).1 hm)
      notHere := hdots 1 h.notHere
      notUp := hdots 2 h.notUp }

/-- Segments stay pieces when their letters are folded. -/
theorem isPiece_of_mem_map_folded {caseSensitive : Bool} {segments : List Chars}
    (h : ∀ segment ∈ segments, IsSegment segment) :
    ∀ piece ∈ segments.map (folded caseSensitive), IsPiece piece := by
  intro small hsmall
  obtain ⟨segment, hsegment, rfl⟩ := List.mem_map.1 hsmall
  exact isPiece_folded _ (h segment hsegment).isPiece

/-- A normal path stays normal when its letters are folded. -/
theorem isNormal_folded (caseSensitive : Bool) {path : Chars} (h : IsNormal path) :
    IsNormal (folded caseSensitive path) := by
  cases caseSensitive with
  | true => exact h
  | false =>
    obtain ⟨root, segments, hroot, hsegments, rfl⟩ := h
    exact exists_lowercase_build isSegment_lowercaseAfter hroot hsegments

/-- A root stays a root when its letters are folded. -/
theorem isRoot_folded (caseSensitive : Bool) {root : Chars} (h : IsRoot root) :
    IsRoot (folded caseSensitive root) := by
  cases caseSensitive with
  | true => exact h
  | false =>
    have hnone : ∀ piece ∈ ([] : List Chars), False := by simp
    obtain ⟨smallRoot, small, hsmallRoot, hsmall, heq⟩ :=
      exists_lowercase_build (fun _ _ => id) h hnone
    obtain rfl : small = [] := List.eq_nil_iff_forall_not_mem.2 hsmall
    rw [build_nil, build_nil] at heq
    show IsRoot (Text.lowercase root)
    rw [heq]
    exact hsmallRoot

/-- Folding letters twice folds them once. -/
theorem folded_folded (caseSensitive : Bool) (path : Chars) :
    folded caseSensitive (folded caseSensitive path) = folded caseSensitive path := by
  cases caseSensitive with
  | true => rfl
  | false => exact Text.lowercase_lowercase path

/-- The key of a key is that key, wherever it is seen from. -/
theorem canonical_canonical (file other : Chars) {base : Chars} (h : IsNormal base)
    (caseSensitive : Bool) :
    canonical (canonical file base caseSensitive) other caseSensitive =
      canonical file base caseSensitive := by
  have hnormal := isNormal_folded caseSensitive (isNormal_normalize file h)
  rw [canonical_eq_folded, canonical_eq_folded, normalize_of_isNormal other hnormal, folded_folded]

/-! ## Segments behind a path -/

section Trail

variable {path : Chars} {more : List Chars}

/-- A trail with one more segment has `/` and that segment at its end. -/
theorem trail_concat (segments : List Chars) (last : Chars) :
    trail (segments ++ [last]) = trail segments ++ '/' :: last := by
  simp [trail]

/-- What stands behind the last `/` is told apart from what stands before it. -/
theorem append_slash_inj {first second : Chars} {piece other : Chars} (hpiece : '/' ∉ piece)
    (hother : '/' ∉ other) (h : first ++ '/' :: piece = second ++ '/' :: other) :
    first = second ∧ piece = other := by
  have hsplit := congrArg (Text.splitOn '/') h
  rw [Text.splitOn_append_piece first hpiece, Text.splitOn_append_piece second hother] at hsplit
  obtain ⟨hfirst, hlast⟩ := List.append_inj' hsplit rfl
  have hjoined := congrArg (Text.joinWith '/') hfirst
  rw [Text.joinWith_splitOn, Text.joinWith_splitOn] at hjoined
  exact ⟨hjoined, List.singleton_inj.1 hlast⟩

/-- As many pieces behind two paths are told apart from the paths. -/
theorem append_trail_inj {first second : Chars} {pieces others : List Chars}
    (hpieces : ∀ piece ∈ pieces, '/' ∉ piece) (hothers : ∀ other ∈ others, '/' ∉ other)
    (hlength : pieces.length = others.length) (h : first ++ trail pieces = second ++ trail others) :
    first = second ∧ pieces = others := by
  induction pieces using List.reverseRecOn generalizing others with
  | nil =>
    obtain rfl : others = [] := List.length_eq_zero_iff.1 hlength.symm
    simpa [trail] using h
  | append_singleton start last ih =>
    rcases List.eq_nil_or_concat others with rfl | ⟨otherStart, otherLast, rfl⟩
    · simp at hlength
    · rw [List.concat_eq_append] at *
      rw [trail_concat, trail_concat, ← List.append_assoc, ← List.append_assoc] at h
      obtain ⟨hbefore, rfl⟩ := append_slash_inj (hpieces last (by simp))
        (hothers otherLast (by simp)) h
      obtain ⟨hsame, rfl⟩ := ih (fun piece hpiece => hpieces piece (by simp [hpiece]))
        (fun other hother => hothers other (by simp [hother])) (by simpa using hlength) hbefore
      exact ⟨hsame, rfl⟩

/-- Folding a path with a trail folds the path and each segment of the trail. -/
theorem folded_append_trail (caseSensitive : Bool) (path : Chars) (segments : List Chars) :
    folded caseSensitive (path ++ trail segments) =
      folded caseSensitive path ++ trail (segments.map (folded caseSensitive)) := by
  induction segments using List.reverseRecOn with
  | nil => simp [trail]
  | append_singleton start last ih =>
    rw [trail_concat, ← List.append_assoc, folded_append_slash, ih, List.map_append,
      List.map_singleton, trail_concat, List.append_assoc]

/-- What follows a slash does not decide whether a path is rooted. -/
theorem isRooted_append_slash (hne : path ≠ []) (rest : Chars) :
    isRooted (path ++ '/' :: rest) = isRooted path := by
  by_cases hbare : ∃ c : Char, c.isAlpha = true ∧ path = [c, ':']
  · obtain ⟨c, hc, rfl⟩ := hbare
    have hrooted := isRooted_append (.bare c hc) []
    rw [List.append_nil] at hrooted
    rw [isRooted_append (.bare c hc), hrooted]
  · unfold isRooted
    rw [rootLength_append_slash hne fun c hc heq => hbare ⟨c, hc, heq⟩]

/-- What stands behind a path stands behind it wherever it is seen from. -/
theorem join_append_slash (hne : path ≠ []) {rest : Chars} (hback : '\\' ∉ rest) (base : Chars) :
    join base (path ++ '/' :: rest) = join base path ++ '/' :: rest := by
  have hslashed : slashed (path ++ '/' :: rest) = slashed path ++ '/' :: rest := by
    have hmap : slashed (path ++ '/' :: rest) = slashed path ++ '/' :: slashed rest :=
      List.map_append
    rw [hmap, slashed_of_not_mem hback]
  have hslashedNe : slashed path ≠ [] := by
    rw [← List.isEmpty_eq_false_iff, isEmpty_slashed, List.isEmpty_eq_false_iff]
    exact hne
  unfold join
  dsimp only
  rw [hslashed, isRooted_append_slash hslashedNe]
  split
  · rfl
  · have hempty : (slashed path).isEmpty = false := List.isEmpty_eq_false_iff.2 hslashedNe
    have hempty' : (slashed path ++ '/' :: rest).isEmpty = false := by simp
    simp only [hempty, hempty', Bool.false_eq_true, if_false]
    split
    · rw [List.append_assoc]
    · rw [List.append_assoc, List.cons_append]

/-! ## Normal forms -/

/-- The segments that remain in the normal form of a path. -/
def remaining (path : Chars) : List Chars :=
  collapse (0 < rootLength path) (Text.splitOn '/' (path.drop (rootLength path)))

/-- The normal form is the root followed by what remains behind it. -/
theorem normalForm_eq (path : Chars) :
    normalForm path = path.take (rootLength path) ++ Text.joinWith '/' (remaining path) := rfl

/-- Where segments remain, what comes behind the path comes behind them. -/
theorem normalForm_append_trail (hpath : remaining path ≠ []) (hslash : ∀ piece ∈ more, '/' ∉ piece)
    (hup : ['.', '.'] ∉ more) :
    normalForm (path ++ trail more) =
      normalForm path ++ trail (more.filter fun piece => piece ≠ [] ∧ piece ≠ ['.']) := by
  by_cases hmore : more = []
  · subst hmore
    simp [trail]
  · have hne : path ≠ [] := by
      rintro rfl
      exact hpath rfl
    have hbare : ∀ c : Char, c.isAlpha = true → path ≠ [c, ':'] := by
      rintro c hc rfl
      refine hpath ?_
      have hlength := rootLength_build (.bare c hc) (by simp : ∀ piece ∈ [], IsPiece piece)
      unfold remaining
      rw [build_nil] at hlength
      rw [hlength]
      rfl
    have hlength : rootLength (path ++ trail more) = rootLength path := by
      rw [trail_eq hmore]
      exact rootLength_append_slash hne hbare _
    have hle := rootLength_le path
    have hremaining : remaining (path ++ trail more) =
        remaining path ++ more.filter fun piece => piece ≠ [] ∧ piece ≠ ['.'] := by
      unfold remaining
      rw [hlength, List.drop_append_of_le_length hle, trail_eq hmore,
        Text.splitOn_append_separator, Text.splitOn_joinWith hmore hslash]
      exact collapse_append _ _ hup
    rw [normalForm_eq, normalForm_eq, hlength, hremaining, List.take_append_of_le_length hle]
    by_cases hkept : (more.filter fun piece => piece ≠ [] ∧ piece ≠ ['.']) = []
    · rw [hkept, List.append_nil]
      exact (List.append_nil _).symm
    · rw [Text.joinWith_append hpath hkept, trail_eq hkept, List.append_assoc]

/-- A root is not deep. -/
theorem not_isDeep_of_isRoot {root : Chars} (h : IsRoot root) : ¬IsDeep root := by
  rintro ⟨other, pieces, hother, hpieces, hne, rfl⟩
  obtain ⟨start, last, rfl⟩ := (List.eq_nil_or_concat pieces).resolve_left hne
  rw [List.concat_eq_append] at *
  have hwhole := rootLength_build h (by simp : ∀ piece ∈ [], IsPiece piece)
  rw [build_nil, rootLength_build hother hpieces] at hwhole
  have hlonger := length_lt_build other start (hpieces last (by simp))
  omega

/-- A path whose key lies below a root keeps segments. -/
theorem remaining_ne_nil {caseSensitive : Bool}
    (h : IsDeep (folded caseSensitive (normalForm path))) : remaining path ≠ [] := by
  intro hnil
  rw [normalForm_eq, hnil] at h
  have htake : path.take (rootLength path) ++ Text.joinWith '/' [] =
      path.take (rootLength path) := List.append_nil _
  rw [htake] at h
  by_cases hrooted : isRooted path = true
  · exact not_isDeep_of_isRoot (isRoot_folded caseSensitive (isRoot_take_rootLength hrooted)) h
  · have hzero : rootLength path = 0 := by
      unfold isRooted at hrooted
      simpa using hrooted
    rw [hzero] at h
    exact h.ne_nil (by cases caseSensitive <;> rfl)

section Keys

variable {base : Chars} {caseSensitive : Bool}

/-- The key of a deep path with pieces behind it is its key with those pieces that count, folded. -/
theorem canonical_append_pieces (hne : path ≠ []) (hback : '\\' ∉ trail more)
    (hslash : ∀ piece ∈ more, '/' ∉ piece) (hup : ['.', '.'] ∉ more)
    (hdeep : IsDeep (canonical path base caseSensitive)) :
    canonical (path ++ trail more) base caseSensitive =
      canonical path base caseSensitive ++
        trail ((more.filter fun piece => piece ≠ [] ∧ piece ≠ ['.']).map
          (folded caseSensitive)) := by
  by_cases hmore : more = []
  · subst hmore
    simp [trail]
  · have hjoin : join base (path ++ trail more) = join base path ++ trail more := by
      rw [trail_eq hmore] at hback ⊢
      exact join_append_slash hne (fun hmem => hback (List.mem_cons_of_mem _ hmem)) base
    rw [canonical_eq_folded] at hdeep
    rw [canonical_eq_folded, canonical_eq_folded, ← folded_append_trail]
    unfold normalize at hdeep ⊢
    rw [hjoin, normalForm_append_trail (remaining_ne_nil hdeep) hslash hup]

/-- Segments behind a path come behind its key, if that is no root. -/
theorem canonical_append_trail (hne : path ≠ []) (hmore : ∀ segment ∈ more, IsSegment segment)
    (hdeep : IsDeep (canonical path base caseSensitive)) :
    canonical (path ++ trail more) base caseSensitive =
      canonical path base caseSensitive ++ trail (more.map (folded caseSensitive)) := by
  have hback : '\\' ∉ trail more := by
    intro hmem
    obtain ⟨segment, hsegment, hmem⟩ := List.mem_flatMap.1 hmem
    rcases List.mem_cons.1 hmem with h | h
    · exact absurd h (by decide)
    · exact (hmore segment hsegment).noBackslash h
  have hfilter : (more.filter fun piece => piece ≠ [] ∧ piece ≠ ['.']) = more := by
    rw [List.filter_eq_self]
    intro segment hsegment
    exact decide_eq_true ⟨(hmore segment hsegment).isPiece.1, (hmore segment hsegment).notHere⟩
  rw [canonical_append_pieces hne hback (fun s hs => (hmore s hs).isPiece.2)
    (fun hmem => (hmore _ hmem).notUp rfl) hdeep, hfilter]

/-- A `/` at the end of a path does not change its key, if that is no root. -/
theorem canonical_concat_slash (hne : path ≠ [])
    (hdeep : IsDeep (canonical path base caseSensitive)) :
    canonical (path ++ ['/']) base caseSensitive = canonical path base caseSensitive := by
  have hslash : canonical (path ++ trail [[]]) base caseSensitive =
      canonical path base caseSensitive ++ trail [] :=
    canonical_append_pieces hne (by decide) (by simp) (by decide) hdeep
  simpa [trail] using hslash

end Keys

/-! ## Directories and ancestors -/

/-- Only a root has no base name. -/
theorem directory_of_baseName_eq_nil (h : IsNormal path) (hnil : baseName path = []) :
    directory path = path := by
  obtain ⟨root, segments, hroot, hsegments, rfl⟩ := h
  rcases List.eq_nil_or_concat segments with rfl | ⟨start, last, rfl⟩
  · rw [build_nil]
    exact directory_root hroot
  · rw [List.concat_eq_append] at hsegments hnil
    rw [baseName_build hroot fun s hs => (hsegments s hs).isPiece] at hnil
    have hlast := (hsegments last (by simp)).isPiece.1
    split at hnil
    · exact absurd (List.append_eq_nil_iff.1 hnil).2 hlast
    · exact absurd hnil hlast

/-- A path below a directory that is no root is that directory and the base name. -/
theorem eq_directory_append (h : IsNormal path) (hdeep : IsDeep (directory path)) :
    path = directory path ++ '/' :: baseName path := by
  obtain ⟨root, segments, hroot, hsegments, rfl⟩ := h
  rcases List.eq_nil_or_concat segments with rfl | ⟨start, last, rfl⟩
  · rw [build_nil, directory_root hroot] at hdeep
    exact absurd hdeep (not_isDeep_of_isRoot hroot)
  · rw [List.concat_eq_append] at *
    have hpieces : ∀ piece ∈ start ++ [last], IsPiece piece := fun s hs => (hsegments s hs).isPiece
    rw [directory_build hroot hpieces] at hdeep ⊢
    rw [baseName_build hroot hpieces]
    by_cases hstart : start = []
    · rw [if_pos hstart] at hdeep
      split at hdeep
      · exact absurd hdeep (not_isDeep_of_isRoot hroot)
      · exact absurd rfl hdeep.ne_nil
    · rw [if_neg hstart, if_neg fun hboth => hstart hboth.1, build_concat root hstart]

/-- A deep path with pieces behind it is deep. -/
theorem IsDeep.append_trail (h : IsDeep path) (hmore : ∀ piece ∈ more, IsPiece piece) :
    IsDeep (path ++ trail more) := by
  obtain ⟨root, pieces, hroot, hpieces, hne, rfl⟩ := h
  rw [← build_append_trail hne]
  exact ⟨root, pieces ++ more, hroot, List.forall_mem_append.2 ⟨hpieces, hmore⟩, by simp [hne], rfl⟩

/-- The paths between a path and what comes behind it stand before the ancestors of the path. -/
theorem ancestors_append_trail (h : IsDeep path) (hmore : ∀ piece ∈ more, IsPiece piece) :
    ∃ between, ancestors (path ++ trail more) = between ++ ancestors path ∧
      ∀ ancestor ∈ between, ∃ front, front <+: more ∧ front ≠ [] ∧
        ancestor = path ++ trail front := by
  induction more using List.reverseRecOn with
  | nil => exact ⟨[], by simp [trail], by simp⟩
  | append_singleton start last ih =>
    have hstart : ∀ piece ∈ start, IsPiece piece := fun piece hpiece =>
      hmore piece (List.mem_append_left _ hpiece)
    obtain ⟨between, hbetween, hfronts⟩ := ih hstart
    obtain ⟨-, hdirectory, -⟩ := (h.append_trail hstart).append (hmore last (by simp))
    refine ⟨(path ++ trail (start ++ [last])) :: between, ?_, ?_⟩
    · rw [trail_concat, ← List.append_assoc, ancestors, if_neg (by simp), hdirectory,
        if_pos (by simp), hbetween]
      rfl
    · intro ancestor hancestor
      rcases List.mem_cons.1 hancestor with rfl | hancestor
      · exact ⟨_, List.prefix_refl _, by simp, rfl⟩
      · obtain ⟨front, hfront, hne, heq⟩ := hfronts ancestor hancestor
        exact ⟨front, hfront.trans (List.prefix_append _ _), hne, heq⟩

/-- A path that is not empty is one of its own ancestors. -/
theorem mem_ancestors_self (hne : path ≠ []) : path ∈ ancestors path := by
  rw [ancestors, if_neg (by simpa using hne)]
  split <;> simp

/-- A path is an ancestor of what comes behind it. -/
theorem mem_ancestors_append_trail (h : IsDeep path) (hmore : ∀ piece ∈ more, IsPiece piece) :
    path ∈ ancestors (path ++ trail more) := by
  obtain ⟨between, hancestors, -⟩ := ancestors_append_trail h hmore
  rw [hancestors]
  exact List.mem_append_right _ (mem_ancestors_self h.ne_nil)

/-- No ancestor is longer than the path. -/
theorem length_le_of_mem_ancestors {ancestor : Chars} (h : ancestor ∈ ancestors path) :
    ancestor.length ≤ path.length := by
  fun_induction ancestors path with
  | case1 path hempty => simp at h
  | case2 path hempty hshorter ih =>
    rcases List.mem_cons.1 h with rfl | h
    · exact Nat.le_refl _
    · exact Nat.le_trans (ih h) (Nat.le_of_lt hshorter)
  | case3 path hempty hshorter =>
    exact Nat.le_of_eq (congrArg List.length (List.mem_singleton.1 h))

end Trail

end Chars

namespace Path

/-- The key of a path is its own key. -/
theorem canonical_canonical (file other : String) {base : String} (h : IsNormal base)
    (caseSensitive : Bool) :
    canonical (canonical file base caseSensitive) other caseSensitive =
      canonical file base caseSensitive := by
  unfold canonical
  rw [String.toList_ofList, Chars.canonical_canonical _ _ h]

/-- The path with pieces behind it. -/
def extend (path : String) (pieces : List Chars) : String :=
  .ofList (path.toList ++ Chars.trail pieces)

/-- Extending a path puts a trail behind its characters. -/
@[simp] theorem toList_extend (path : String) (pieces : List Chars) :
    (extend path pieces).toList = path.toList ++ Chars.trail pieces :=
  String.toList_ofList

/-- Segments behind a path come behind its key, if that is no root. -/
theorem canonical_extend {path base : String} {caseSensitive : Bool} {more : List Chars}
    (hne : path ≠ "") (hmore : ∀ segment ∈ more, Chars.IsSegment segment)
    (hdeep : Chars.IsDeep (canonical path base caseSensitive).toList) :
    canonical (extend path more) base caseSensitive =
      extend (canonical path base caseSensitive) (more.map (Chars.folded caseSensitive)) := by
  have hchars : path.toList ≠ [] := by simpa using hne
  unfold canonical at hdeep ⊢
  rw [String.toList_ofList] at hdeep
  rw [← String.toList_inj, toList_extend, toList_extend, String.toList_ofList, String.toList_ofList]
  exact Chars.canonical_append_trail hchars hmore hdeep

end Path

end AutoImport
