import AutoImport.Proofs.Path.NormalPaths

/-!
# Names on the way to a path

A path is a row of names: its root and the names below it, where the root is written without the `/`
at its end (`Path.names`).  A normal form is cut at every `/` into just these names, except for a
root that ends in `/`, behind which an empty segment is left over
(`Path.normalize_cases`). -/

set_option autoImplicit false

namespace AutoImport

namespace Chars

/-- Pieces of which only the first may be empty. -/
structure IsRow (pieces : List Chars) : Prop where
  ne_nil : pieces ≠ []
  noSlash : ∀ piece ∈ pieces, '/' ∉ piece
  full : ∀ piece ∈ pieces.tail, piece ≠ []

/-- The front of a row is a row. -/
theorem IsRow.of_append {front back : List Chars} (h : IsRow (front ++ back))
    (hfront : front ≠ []) :
    IsRow front := by
  refine ⟨hfront, fun piece hp => h.noSlash piece (List.mem_append_left _ hp), fun piece hp => ?_⟩
  refine h.full piece ?_
  rw [List.tail_append_of_ne_nil hfront]
  exact List.mem_append_left _ hp

/-- Pieces in a list form a row. -/
theorem isRow_of_pieces {pieces : List Chars} (hne : pieces ≠ [])
    (h : ∀ piece ∈ pieces, IsPiece piece) : IsRow pieces :=
  ⟨hne, fun piece hp => (h piece hp).2, fun piece hp => (h piece (List.mem_of_mem_tail hp)).1⟩

/-- A first piece without a slash, be it empty or not, makes a row with the pieces behind it. -/
theorem isRow_cons {first : Chars} (hfirst : '/' ∉ first) {rest : List Chars}
    (h : ∀ piece ∈ rest, IsPiece piece) : IsRow (first :: rest) := by
  refine ⟨List.cons_ne_nil _ _, fun piece hp => ?_, fun piece hp => (h piece hp).1⟩
  rcases List.mem_cons.1 hp with rfl | hp
  · exact hfirst
  · exact (h piece hp).2

/-- A row does not end in `/`. -/
theorem IsRow.getLast?_joinWith {pieces : List Chars} (h : IsRow pieces) :
    (Text.joinWith '/' pieces).getLast? ≠ some '/' := by
  rcases List.eq_nil_or_concat pieces with rfl | ⟨front, last, rfl⟩
  · exact absurd rfl h.ne_nil
  · rw [List.concat_eq_append] at h ⊢
    have hlast : '/' ∉ last := h.noSlash last (by simp)
    by_cases hfront : front = []
    · subst hfront
      exact fun hslash => hlast (List.mem_of_getLast? hslash)
    · have hpiece : IsPiece last := by
        refine ⟨h.full last ?_, hlast⟩
        rw [List.tail_append_of_ne_nil hfront]
        simp
      rw [Text.joinWith_concat hfront, List.append_cons]
      exact getLast?_append_piece _ hpiece

/-- What remains of pieces are pieces again, and none is empty. -/
theorem collapse_isPiece (rooted : Bool) {pieces : List Chars} (h : ∀ piece ∈ pieces, '/' ∉ piece) :
    ∀ s ∈ collapse rooted pieces, IsPiece s :=
  forall_mem_collapse fun piece hpiece hne _ _ => ⟨hne, h piece hpiece⟩

/-- A normal form is a root that ends in `/`, or a row. -/
theorem normalForm_cases (path : Chars) :
    (∃ start, IsRoot (start ++ ['/']) ∧ normalForm path = start ++ ['/']) ∨
      ∃ pieces, IsRow pieces ∧ normalForm path = Text.joinWith '/' pieces := by
  have hpieces : ∀ s ∈ collapse (decide (0 < rootLength path))
      (Text.splitOn '/' (path.drop (rootLength path))), IsPiece s :=
    collapse_isPiece _ fun _ hp => Text.not_mem_of_mem_splitOn hp
  have hnormal : normalForm path = path.take (rootLength path) ++ Text.joinWith '/'
      (collapse (decide (0 < rootLength path))
        (Text.splitOn '/' (path.drop (rootLength path)))) := rfl
  rw [hnormal]
  generalize collapse _ _ = pieces at hpieces
  have hempty : IsRow [[]] := isRow_cons (by simp) (by simp)
  by_cases hrooted : isRooted path = true
  · have hroot := isRoot_take_rootLength hrooted
    generalize path.take (rootLength path) = root at hroot
    rcases hroot.ends with ⟨start, rfl, hstart⟩ | hbare
    · cases pieces with
      | nil => exact Or.inl ⟨start, hroot, List.append_nil _⟩
      | cons piece more =>
        refine Or.inr ⟨start :: piece :: more, isRow_cons hstart hpieces, ?_⟩
        rw [Text.joinWith_cons start (List.cons_ne_nil piece more), List.append_assoc]
        rfl
    · cases pieces with
      | nil => exact Or.inr ⟨[root], isRow_cons hbare (by simp), List.append_nil _⟩
      | cons piece more =>
        obtain ⟨⟨-, hpiece⟩, hmore⟩ := List.forall_mem_cons.1 hpieces
        have hfirst : '/' ∉ root ++ piece := by simp [hbare, hpiece]
        refine Or.inr ⟨(root ++ piece) :: more, isRow_cons hfirst hmore, ?_⟩
        cases more with
        | nil => rfl
        | cons other others => exact (List.append_assoc _ _ _).symm
  · have hlength : rootLength path = 0 := by simpa [isRooted] using hrooted
    rw [hlength, List.take_zero, List.nil_append]
    cases pieces with
    | nil => exact Or.inr ⟨[[]], hempty, rfl⟩
    | cons piece more =>
      exact Or.inr ⟨_, isRow_of_pieces (List.cons_ne_nil piece more) hpieces, rfl⟩

end Chars

namespace Path

/-- The names on the way to a path, from its root on. -/
def names (path : String) : List String :=
  (Text.splitOn '/' (Text.dropTrailingSlash path.toList)).map .ofList

/-- Names of which only the first, that of the root, may be empty. -/
def IsRow (names : List String) : Prop :=
  Chars.IsRow (names.map String.toList)

/-- The text of names with `/` between them. -/
def joined (names : List String) : String :=
  .ofList (Text.joinWith '/' (names.map String.toList))

/-- A row is not empty. -/
theorem IsRow.ne_nil {row : List String} (h : IsRow row) : row ≠ [] := by
  rintro rfl
  exact Chars.IsRow.ne_nil h rfl

/-- The front of a row is a row. -/
theorem IsRow.of_append {front back : List String} (h : IsRow (front ++ back))
    (hfront : front ≠ []) : IsRow front := by
  unfold IsRow at h ⊢
  rw [List.map_append] at h
  exact h.of_append (by simpa using hfront)

/-- A name of a row after the first is not empty. -/
theorem IsRow.last_ne_empty {front : List String} {last : String} (h : IsRow (front ++ [last]))
    (hfront : front ≠ []) : last ≠ "" := by
  rintro rfl
  unfold IsRow at h
  rw [List.map_append] at h
  refine h.full "".toList ?_ rfl
  rw [List.tail_append_of_ne_nil (by simpa using hfront)]
  simp

/-- The characters of a joined row are its pieces put together. -/
theorem toList_joined (row : List String) :
    (joined row).toList = Text.joinWith '/' (row.map String.toList) :=
  String.toList_ofList

/-- A joined row splits into the row. -/
theorem segments_joined {row : List String} (h : IsRow row) : segments (joined row) = row := by
  unfold segments
  rw [toList_joined, Text.splitOn_joinWith (Chars.IsRow.ne_nil h) (Chars.IsRow.noSlash h)]
  simp

/-- A joined row has the names of the row. -/
theorem names_joined {row : List String} (h : IsRow row) : names (joined row) = row := by
  unfold names
  rw [toList_joined, Text.dropTrailingSlash_of_getLast? (Chars.IsRow.getLast?_joinWith h),
    Text.splitOn_joinWith (Chars.IsRow.ne_nil h) (Chars.IsRow.noSlash h)]
  simp

/-- A joined row does not end in a slash. -/
theorem endsWith_slash_joined {row : List String} (h : IsRow row) :
    Text.endsWith "/" (joined row) = false := by
  refine Bool.eq_false_iff.2 fun hends => Chars.IsRow.getLast?_joinWith h ?_
  obtain ⟨start, hstart⟩ := List.isSuffixOf_iff_suffix.1 hends
  rw [← toList_joined, ← hstart]
  exact List.getLast?_concat

/-! ## Roots that end in `/` -/

/-- A root that ends in `/`, without it. -/
def IsOpenRoot (root : String) : Prop :=
  root = "" ∨ ∃ c : Char, c.isAlpha = true ∧ root = .ofList [c, ':']

/-- The name of an open root has no slash. -/
theorem IsOpenRoot.noSlash {root : String} (h : IsOpenRoot root) : '/' ∉ root.toList := by
  rcases h with rfl | ⟨c, hc, rfl⟩
  · decide
  · simp [(Chars.ne_slash_of_isAlpha hc).symm]

/-- The name of an open root is a row. -/
theorem IsOpenRoot.isRow {root : String} (h : IsOpenRoot root) : IsRow [root] :=
  Chars.isRow_cons h.noSlash (by simp)

/-- An open root splits into its name and an empty piece behind its slash. -/
theorem segments_openRoot {root : String} (h : IsOpenRoot root) :
    segments (root ++ "/") = [root, ""] := by
  unfold segments
  rw [String.toList_append, show "/".toList = '/' :: [] from rfl, Text.splitOn_append h.noSlash]
  simp [Text.splitOn]

/-- An open root has its name for its only name. -/
theorem names_openRoot {root : String} (h : IsOpenRoot root) : names (root ++ "/") = [root] := by
  unfold names
  rw [String.toList_append, show "/".toList = ['/'] from rfl, Text.dropTrailingSlash_concat,
    Text.splitOn_of_not_mem h.noSlash]
  simp

/-- An open root ends in a slash. -/
theorem endsWith_slash_openRoot (root : String) : Text.endsWith "/" (root ++ "/") = true := by
  unfold Text.endsWith
  rw [String.toList_append]
  exact List.isSuffixOf_iff_suffix.2 (List.suffix_append _ _)

/-- A normal form is a row of names, or a root that ends in `/`. -/
theorem normalize_cases (file directory : String) :
    (∃ row, IsRow row ∧ normalize file directory = joined row) ∨
      ∃ root, IsOpenRoot root ∧ normalize file directory = root ++ "/" := by
  rcases Chars.normalForm_cases (Chars.join directory.toList file.toList) with
    ⟨start, hroot, hnormal⟩ | ⟨pieces, hrow, hnormal⟩
  · have hnormalize : normalize file directory = .ofList start ++ "/" := by
      rw [← String.toList_inj, String.toList_append, String.toList_ofList]
      exact (String.toList_ofList ..).trans hnormal
    refine Or.inr ⟨.ofList start, ?_, hnormalize⟩
    generalize hopen : start ++ ['/'] = root at hroot
    cases hroot with
    | slash =>
      have hstart : start = [] := by simpa using hopen
      exact Or.inl (by rw [hstart])
    | drive c hc =>
      have hsplit : start ++ ['/'] = [c, ':'] ++ ['/'] := hopen
      have hstart : start = [c, ':'] := List.append_cancel_right hsplit
      exact Or.inr ⟨c, hc, by rw [hstart]⟩
    | bare c hc =>
      have hlast := congrArg List.getLast? hopen
      simp at hlast
  · have htexts : (pieces.map String.ofList).map String.toList = pieces := by simp
    refine Or.inl ⟨pieces.map .ofList, ?_, ?_⟩
    · unfold IsRow
      rwa [htexts]
    · unfold joined
      rw [htexts, ← hnormal]
      rfl

end Path

end AutoImport
