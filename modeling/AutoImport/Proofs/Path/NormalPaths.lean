import AutoImport.Path
import AutoImport.Proofs.Text.LowercasePieces

/-!
# Normal paths

A path is a root followed by segments with `/` between them.  The path is *tidy* when no segment is
empty, and *normal* when moreover none is `.` or `..` or holds a backslash.  Normalizing gives
normal paths and leaves them as they are; small letters make tidy paths out of normal ones.

For tidy paths the operations on text are operations on the list of segments: the directory drops
the last segment, the base name is that segment, and joining a name adds one.
-/

set_option autoImplicit false

namespace AutoImport.Chars

/-- The roots: `/`, a drive root `c:/` and a bare drive `c:`. -/
inductive IsRoot : Chars → Prop where
  | slash : IsRoot ['/']
  | drive (c : Char) (h : c.isAlpha = true) : IsRoot [c, ':', '/']
  | bare (c : Char) (h : c.isAlpha = true) : IsRoot [c, ':']

/-- What may stand between two `/` of a tidy path. -/
def IsPiece (piece : Chars) : Prop :=
  piece ≠ [] ∧ '/' ∉ piece

/-- What may stand between two `/` of a normal path. -/
structure IsSegment (segment : Chars) : Prop where
  isPiece : IsPiece segment
  noBackslash : '\\' ∉ segment
  notHere : segment ≠ ['.']
  notUp : segment ≠ ['.', '.']

/-- The path of a root and pieces. -/
def build (root : Chars) (pieces : List Chars) : Chars :=
  root ++ Text.joinWith '/' pieces

/-- Roots followed by nonempty pieces. -/
def IsTidy (path : Chars) : Prop :=
  ∃ root pieces, IsRoot root ∧ (∀ piece ∈ pieces, IsPiece piece) ∧ path = build root pieces

/-- Roots followed by segments. -/
def IsNormal (path : Chars) : Prop :=
  ∃ root segments, IsRoot root ∧ (∀ segment ∈ segments, IsSegment segment) ∧
    path = build root segments

/-- A normal path is tidy. -/
theorem IsNormal.isTidy {path : Chars} (h : IsNormal path) : IsTidy path := by
  obtain ⟨root, segments, hroot, hsegments, rfl⟩ := h
  exact ⟨root, segments, hroot, fun s hs => (hsegments s hs).isPiece, rfl⟩

/-! ## Roots -/

/-- No letter is a slash. -/
theorem ne_slash_of_isAlpha {c : Char} (h : c.isAlpha = true) : c ≠ '/' := by
  rintro rfl
  exact absurd h (by decide)

/-- No letter is a backslash. -/
theorem ne_backslash_of_isAlpha {c : Char} (h : c.isAlpha = true) : c ≠ '\\' := by
  rintro rfl
  exact absurd h (by decide)

/-- A root is not empty. -/
theorem IsRoot.ne_nil {root : Chars} (h : IsRoot root) : root ≠ [] := by
  cases h <;> simp

/-- A root has no backslash. -/
theorem IsRoot.noBackslash {root : Chars} (h : IsRoot root) : '\\' ∉ root := by
  cases h with
  | slash => decide
  | drive c hc => simp [(ne_backslash_of_isAlpha hc).symm]
  | bare c hc => simp [(ne_backslash_of_isAlpha hc).symm]

/-- A root ends in `/` or is a bare drive. -/
theorem IsRoot.ends {root : Chars} (h : IsRoot root) :
    (∃ start, root = start ++ ['/'] ∧ '/' ∉ start) ∨ '/' ∉ root := by
  cases h with
  | slash => exact Or.inl ⟨[], rfl, by simp⟩
  | drive c hc => exact Or.inl ⟨[c, ':'], rfl, by simp [(ne_slash_of_isAlpha hc).symm]⟩
  | bare c hc => exact Or.inr (by simp [(ne_slash_of_isAlpha hc).symm])

/-- The root of a path is found, unless a `/` after a bare drive belongs to it. -/
theorem rootLength_append {root : Chars} (h : IsRoot root) (rest : Chars)
    (hrest : rest.head? ≠ some '/') : rootLength (root ++ rest) = root.length := by
  cases h with
  | slash => rfl
  | drive c hc =>
    show rootLength (c :: ':' :: '/' :: rest) = 3
    rw [rootLength.eq_2 c _ (ne_slash_of_isAlpha hc), if_pos hc]
  | bare c hc =>
    show rootLength (c :: ':' :: rest) = 2
    have hnot : ∀ tail, rest = '/' :: tail → False := by
      rintro tail rfl
      exact hrest rfl
    rw [rootLength.eq_3 c rest (ne_slash_of_isAlpha hc) hnot, if_pos hc]

/-- What a rooted path begins with is a root, and no `/` follows it by itself. -/
theorem isRoot_take_rootLength {path : Chars} (h : isRooted path = true) :
    IsRoot (path.take (rootLength path)) := by
  unfold isRooted at h
  have hpos : 0 < rootLength path := of_decide_eq_true h
  revert hpos
  fun_cases rootLength path with
  | case1 rest => exact fun _ => .slash
  | case2 c hslash hc rest => exact fun _ => .drive c hc
  | case3 c rest hslash hc hrest => exact fun _ => .bare c hc
  | case4 c rest hslash hc =>
    intro hpos
    omega
  | case5 =>
    intro hpos
    omega

/-- Pieces put together do not begin with a slash. -/
theorem head?_joinWith_of_pieces {pieces : List Chars} (h : ∀ piece ∈ pieces, IsPiece piece) :
    (Text.joinWith '/' pieces).head? ≠ some '/' := by
  cases pieces with
  | nil => simp [Text.joinWith]
  | cons piece rest =>
    obtain ⟨hne, hslash⟩ := h piece List.mem_cons_self
    rw [Text.head?_joinWith hne]
    intro hhead
    exact hslash (List.mem_of_mem_head? hhead)

/-- The root of a path built on a root is that root. -/
theorem rootLength_build {root : Chars} (hroot : IsRoot root) {pieces : List Chars}
    (h : ∀ piece ∈ pieces, IsPiece piece) : rootLength (build root pieces) = root.length :=
  rootLength_append hroot _ (head?_joinWith_of_pieces h)

/-- What begins with a root is rooted. -/
theorem isRooted_append {root : Chars} (h : IsRoot root) (rest : Chars) :
    isRooted (root ++ rest) = true := by
  unfold isRooted
  refine decide_eq_true ?_
  by_cases hrest : rest.head? = some '/'
  · obtain ⟨tail, rfl⟩ := List.head?_eq_some_iff.1 hrest
    cases h with
    | slash => exact Nat.one_pos
    | drive c hc =>
      show 0 < rootLength (c :: ':' :: '/' :: '/' :: tail)
      rw [rootLength.eq_2 c _ (ne_slash_of_isAlpha hc), if_pos hc]
      omega
    | bare c hc =>
      show 0 < rootLength (c :: ':' :: '/' :: tail)
      rw [rootLength.eq_2 c _ (ne_slash_of_isAlpha hc), if_pos hc]
      omega
  · rw [rootLength_append h rest hrest]
    exact List.length_pos_iff.2 h.ne_nil

/-- A tidy path is rooted. -/
theorem IsTidy.isRooted {path : Chars} (h : IsTidy path) : Chars.isRooted path = true := by
  obtain ⟨root, pieces, hroot, -, rfl⟩ := h
  exact isRooted_append hroot _

/-- A tidy path is not empty. -/
theorem IsTidy.ne_nil {path : Chars} (h : IsTidy path) : path ≠ [] := by
  obtain ⟨root, pieces, hroot, -, rfl⟩ := h
  exact List.append_ne_nil_of_left_ne_nil hroot.ne_nil _

/-! ## Normalizing -/

/-- A path without backslashes is slashed already. -/
theorem slashed_of_not_mem {path : Chars} (h : '\\' ∉ path) : slashed path = path := by
  unfold slashed
  rw [List.map_congr_left (g := id)]
  · exact List.map_id path
  · intro c hc
    have hne : c ≠ '\\' := fun e => h (e ▸ hc)
    rw [if_neg hne]
    rfl

/-- A slashed path has no backslash. -/
theorem not_mem_slashed (path : Chars) : '\\' ∉ slashed path := by
  unfold slashed
  intro h
  obtain ⟨c, -, hc⟩ := List.mem_map.1 h
  split at hc
  · exact absurd hc (by decide)
  · rename_i hne
    exact hne hc

/-- A normal path has no backslash. -/
theorem IsNormal.noBackslash {path : Chars} (h : IsNormal path) : '\\' ∉ path := by
  obtain ⟨root, segments, hroot, hsegments, rfl⟩ := h
  unfold build
  rw [List.mem_append]
  rintro (hm | hm)
  · exact hroot.noBackslash hm
  · rcases Text.mem_joinWith hm with hm | ⟨segment, hs, hm⟩
    · exact absurd hm (by decide)
    · exact (hsegments segment hs).noBackslash hm

/-- A segment is kept as it is. -/
theorem pushSegment_of_isSegment (rooted : Bool) (kept : List Chars) {segment : Chars}
    (h : IsSegment segment) : pushSegment rooted kept segment = segment :: kept := by
  unfold pushSegment
  rw [if_neg (not_or.2 ⟨h.isPiece.1, h.notHere⟩), if_neg h.notUp]

/-- There is nothing to collapse in a list of segments. -/
theorem collapse_of_segments (rooted : Bool) {segments : List Chars}
    (h : ∀ segment ∈ segments, IsSegment segment) : collapse rooted segments = segments := by
  have hfold : ∀ kept, segments.foldl (pushSegment rooted) kept = segments.reverse ++ kept := by
    induction segments with
    | nil => intro kept; rfl
    | cons segment rest ih =>
      intro kept
      rw [List.foldl_cons, pushSegment_of_isSegment rooted kept (h segment List.mem_cons_self),
        ih fun s hs => h s (List.mem_cons_of_mem segment hs)]
      simp
  unfold collapse
  rw [hfold, List.append_nil, List.reverse_reverse]

/-- What is kept after one more piece was kept before, or is that piece. -/
theorem forall_mem_pushSegment {P : Chars → Prop} {rooted : Bool} {kept : List Chars}
    (hkept : ∀ s ∈ kept, P s) {piece : Chars}
    (h : piece ≠ [] → piece ≠ ['.'] → (rooted = true → piece ≠ ['.', '.']) → P piece) :
    ∀ s ∈ pushSegment rooted kept piece, P s := by
  have hpush : ∀ kept : List Chars, (∀ s ∈ kept, P s) → ¬(piece = [] ∨ piece = ['.']) →
      (rooted = true → piece ≠ ['.', '.']) → ∀ s ∈ piece :: kept, P s :=
    fun kept hkept hskip hup =>
      List.forall_mem_cons.2 ⟨h (not_or.1 hskip).1 (not_or.1 hskip).2 hup, hkept⟩
  fun_cases pushSegment rooted kept piece with
  | case1 => exact hkept
  | case2 _ _ last rest => exact fun s hs => hkept s (List.mem_cons_of_mem last hs)
  | case3 => exact hkept
  | case4 hskip _ _ _ _ hrooted => exact hpush _ hkept hskip (absurd · hrooted)
  | case5 => exact hkept
  | case6 hskip _ hrooted => exact hpush _ hkept hskip (absurd · hrooted)
  | case7 _ hskip hup => exact hpush _ hkept hskip fun _ => hup

/-- Whatever holds of the pieces that are kept holds of all that remain. -/
theorem forall_mem_collapse {P : Chars → Prop} {rooted : Bool} {pieces : List Chars}
    (h : ∀ piece ∈ pieces,
      piece ≠ [] → piece ≠ ['.'] → (rooted = true → piece ≠ ['.', '.']) → P piece) :
    ∀ s ∈ collapse rooted pieces, P s := by
  have hfold : ∀ kept : List Chars, (∀ s ∈ kept, P s) →
      ∀ s ∈ pieces.foldl (pushSegment rooted) kept, P s := by
    induction pieces with
    | nil => exact fun kept hkept => hkept
    | cons piece rest ih =>
      intro kept hkept
      rw [List.foldl_cons]
      exact ih (fun p hp => h p (List.mem_cons_of_mem piece hp)) _
        (forall_mem_pushSegment hkept (h piece List.mem_cons_self))
  intro s hs
  exact hfold [] (by simp) s (List.mem_reverse.1 hs)

/-- Below a root, what remains of texts without separators are segments. -/
theorem collapse_isSegment {pieces : List Chars}
    (h : ∀ piece ∈ pieces, '/' ∉ piece ∧ '\\' ∉ piece) :
    ∀ s ∈ collapse true pieces, IsSegment s := by
  refine forall_mem_collapse fun piece hpiece hne hhere hup => ?_
  obtain ⟨hslash, hback⟩ := h piece hpiece
  exact ⟨⟨hne, hslash⟩, hback, hhere, hup rfl⟩

/-- The normal form of a rooted path without backslashes is normal. -/
theorem isNormal_normalForm {path : Chars} (hrooted : isRooted path = true)
    (hback : '\\' ∉ path) : IsNormal (normalForm path) := by
  refine ⟨path.take (rootLength path),
    collapse true (Text.splitOn '/' (path.drop (rootLength path))),
    isRoot_take_rootLength hrooted, collapse_isSegment ?_, ?_⟩
  · intro piece hpiece
    refine ⟨Text.not_mem_of_mem_splitOn hpiece, fun hm => hback ?_⟩
    exact List.mem_of_mem_drop (Text.mem_of_mem_splitOn hpiece hm).1
  · unfold isRooted at hrooted
    unfold normalForm build
    dsimp only
    rw [hrooted]

/-- Normal paths are their own normal form. -/
theorem normalForm_of_isNormal {path : Chars} (h : IsNormal path) : normalForm path = path := by
  obtain ⟨root, segments, hroot, hsegments, rfl⟩ := h
  have hpieces : ∀ s ∈ segments, IsPiece s := fun s hs => (hsegments s hs).isPiece
  have hdrop : (build root segments).drop root.length = Text.joinWith '/' segments :=
    List.drop_left
  have htake : (build root segments).take root.length = root := List.take_left
  unfold normalForm
  dsimp only
  rw [rootLength_build hroot hpieces, hdrop, htake]
  cases segments with
  | nil => rfl
  | cons segment rest =>
    rw [Text.splitOn_joinWith (List.cons_ne_nil _ _) fun s hs => (hpieces s hs).2,
      collapse_of_segments _ hsegments]
    rfl

/-- A rooted path without backslashes is seen from everywhere as itself. -/
theorem join_of_isRooted (base : Chars) {path : Chars} (hrooted : isRooted path = true)
    (hback : '\\' ∉ path) : join base path = path := by
  unfold join
  dsimp only
  rw [slashed_of_not_mem hback, hrooted]
  simp

/-- A normal path is its own normal form, wherever it is seen from. -/
theorem normalize_of_isNormal (base : Chars) {path : Chars} (h : IsNormal path) :
    normalize path base = path := by
  unfold normalize
  rw [join_of_isRooted base h.isTidy.isRooted h.noBackslash, normalForm_of_isNormal h]

/-- Seen from a normal directory, every path has a normal form. -/
theorem isNormal_normalize (file : Chars) {base : Chars} (h : IsNormal base) :
    IsNormal (normalize file base) := by
  have hbase : base.isEmpty = false := by
    rw [List.isEmpty_eq_false_iff]
    exact h.isTidy.ne_nil
  have hback := not_mem_slashed file
  have hbackBase := h.noBackslash
  unfold normalize join
  dsimp only
  rw [hbase, slashed_of_not_mem hbackBase, Bool.false_or]
  obtain ⟨root, segments, hroot, -, hbuild⟩ := h
  split
  · rename_i hrooted
    exact isNormal_normalForm hrooted hback
  · have hparts : ∀ rest : Chars, '\\' ∉ rest → IsNormal (normalForm (base ++ rest)) := by
      intro rest hrest
      refine isNormal_normalForm ?_ ?_
      · rw [hbuild, build, List.append_assoc]
        exact isRooted_append hroot _
      · rw [List.mem_append]
        exact not_or.2 ⟨hbackBase, hrest⟩
    split
    · simpa using hparts [] (by simp)
    · split
      · exact hparts _ hback
      · exact hparts _ (by simpa using hback)

/-! ## Directories and base names -/

/-- One more piece goes behind a slash. -/
theorem build_concat (root : Chars) {pieces : List Chars} (h : pieces ≠ []) (last : Chars) :
    build root (pieces ++ [last]) = build root pieces ++ '/' :: last := by
  unfold build
  rw [Text.joinWith_concat h, List.append_assoc]

/-- A path that ends in a piece does not end in a slash. -/
theorem getLast?_append_piece (start : Chars) {piece : Chars} (h : IsPiece piece) :
    (start ++ piece).getLast? ≠ some '/' := by
  rw [List.getLast?_append, List.getLast?_eq_some_getLast h.1, Option.some_or]
  intro hlast
  have hmem := List.getLast_mem h.1
  rw [Option.some.inj hlast] at hmem
  exact h.2 hmem

/-- A path of at least one piece does not end in a slash. -/
theorem getLast?_build_concat (root : Chars) (pieces : List Chars) {last : Chars}
    (h : IsPiece last) : (build root (pieces ++ [last])).getLast? ≠ some '/' := by
  by_cases hp : pieces = []
  · subst hp
    exact getLast?_append_piece root h
  · have happ : build root (pieces ++ [last]) = (build root pieces ++ ['/']) ++ last := by
      rw [build_concat root hp, List.append_assoc]
      rfl
    rw [happ]
    exact getLast?_append_piece _ h

/-- The length of a path is above that of its root if it has a piece. -/
theorem length_lt_build (root : Chars) (pieces : List Chars) {last : Chars} (h : IsPiece last) :
    root.length < (build root (pieces ++ [last])).length := by
  have hlast : 0 < last.length := List.length_pos_iff.2 h.1
  by_cases hp : pieces = []
  · subst hp
    simp only [build, List.nil_append, Text.joinWith, List.length_append]
    omega
  · rw [build_concat root hp]
    simp only [build, List.length_append, List.length_cons]
    omega

/-- What the last `/` of a path is followed and preceded by. -/
theorem splitLast?_build {root : Chars} (hroot : IsRoot root) (pieces : List Chars)
    {last : Chars} (h : IsPiece last) :
    (pieces ≠ [] ∧ Text.splitLast? '/' (build root (pieces ++ [last])) =
        some (build root pieces, last)) ∨
      (pieces = [] ∧ ∃ start, root = start ++ ['/'] ∧
        Text.splitLast? '/' (build root (pieces ++ [last])) = some (start, last)) ∨
      (pieces = [] ∧ '/' ∉ root ∧ Text.splitLast? '/' (build root (pieces ++ [last])) = none) := by
  by_cases hp : pieces = []
  · subst hp
    have hbuild : build root ([] ++ [last]) = root ++ last := rfl
    rw [hbuild]
    rcases hroot.ends with ⟨start, rfl, -⟩ | hbare
    · refine Or.inr (Or.inl ⟨rfl, start, rfl, ?_⟩)
      rw [List.append_assoc]
      exact Text.splitLast?_append start h.2
    · refine Or.inr (Or.inr ⟨rfl, hbare, Text.splitLast?_of_not_mem ?_⟩)
      rw [List.mem_append]
      exact not_or.2 ⟨hbare, h.2⟩
  · refine Or.inl ⟨hp, ?_⟩
    rw [build_concat root hp]
    exact Text.splitLast?_append _ h.2

/-- A path of at least one piece has no slash to drop at its end. -/
theorem dropTrailingSlash_build (root : Chars) (pieces : List Chars) {last : Chars}
    (h : IsPiece last) :
    Text.dropTrailingSlash (build root (pieces ++ [last])) = build root (pieces ++ [last]) :=
  Text.dropTrailingSlash_of_getLast? (getLast?_build_concat root pieces h)

/-- A root is its own directory. -/
theorem directory_root {root : Chars} (hroot : IsRoot root) : directory root = root := by
  have hlength : rootLength root = root.length := by
    have := rootLength_append hroot [] (by simp)
    rwa [List.append_nil] at this
  unfold directory
  dsimp only
  rw [hlength, if_pos (Nat.le_refl _)]

/-- The directory of a path drops its last piece; below a bare drive nothing is left. -/
theorem directory_build {root : Chars} (hroot : IsRoot root) {pieces : List Chars} {last : Chars}
    (hpieces : ∀ piece ∈ pieces ++ [last], IsPiece piece) :
    directory (build root (pieces ++ [last])) =
      if pieces = [] then (if '/' ∈ root then root else []) else build root pieces := by
  have hlast : IsPiece last := hpieces last (by simp)
  have hlength := length_lt_build root pieces hlast
  unfold directory
  dsimp only
  rw [rootLength_build hroot hpieces, if_neg (Nat.not_le.2 hlength),
    dropTrailingSlash_build root pieces hlast]
  rcases splitLast?_build hroot pieces hlast with ⟨hp, hs⟩ | ⟨hp, start, hstart, hs⟩ | ⟨hp, hb, hs⟩
  · rw [hs, if_neg hp]
    dsimp only
    rw [if_pos]
    simp [build]
  · rw [hs, if_pos hp]
    subst hp hstart
    have hmem : '/' ∈ start ++ ['/'] := by simp
    dsimp only
    rw [if_pos hmem, if_neg (by simp)]
    exact List.take_left
  · rw [hs, if_pos hp, if_neg hb]

/-- A root has no base name. -/
theorem baseName_root {root : Chars} (hroot : IsRoot root) : baseName root = [] := by
  cases hroot with
  | slash => rfl
  | drive c hc =>
    have hdrop : Text.dropTrailingSlash [c, ':', '/'] = [c, ':'] :=
      Text.dropTrailingSlash_concat [c, ':']
    have hlength : rootLength [c, ':'] = 2 := rootLength_append (.bare c hc) [] (by simp)
    unfold baseName
    dsimp only
    rw [hdrop, hlength]
    rfl
  | bare c hc =>
    have hdrop : Text.dropTrailingSlash [c, ':'] = [c, ':'] :=
      Text.dropTrailingSlash_of_getLast? (by simp)
    have hlength : rootLength [c, ':'] = 2 := rootLength_append (.bare c hc) [] (by simp)
    unfold baseName
    dsimp only
    rw [hdrop, hlength]
    rfl

/-- The base name of a path is its last piece; on a bare drive the drive goes with it. -/
theorem baseName_build {root : Chars} (hroot : IsRoot root) {pieces : List Chars} {last : Chars}
    (hpieces : ∀ piece ∈ pieces ++ [last], IsPiece piece) :
    baseName (build root (pieces ++ [last])) =
      if pieces = [] ∧ '/' ∉ root then root ++ last else last := by
  have hlast : IsPiece last := hpieces last (by simp)
  have hlength := length_lt_build root pieces hlast
  unfold baseName
  dsimp only
  rw [dropTrailingSlash_build root pieces hlast, rootLength_build hroot hpieces,
    if_neg (Nat.not_le.2 hlength)]
  rcases splitLast?_build hroot pieces hlast with ⟨hp, hs⟩ | ⟨hp, start, hstart, hs⟩ | ⟨hp, hb, hs⟩
  · rw [hs, if_neg fun h => hp h.1]
  · have hmem : '/' ∈ root := by simp [hstart]
    rw [hs, if_neg fun h => h.2 hmem]
  · rw [hs, if_pos ⟨hp, hb⟩]
    subst hp
    rfl

end AutoImport.Chars
