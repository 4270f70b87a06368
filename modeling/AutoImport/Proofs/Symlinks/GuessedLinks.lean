import AutoImport.Proofs.Path.PathNames
import AutoImport.Proofs.Text.AsciiNames
import AutoImport.Symlinks
import Mathlib.Data.Bool.AllAny
import Mathlib.Data.List.Forall2

/-!
# Guessed links

From a real file and a path to it through a link, the linked directories are guessed: the names at
the end of both paths are stripped as long as they agree, are no package of their own and leave a
name of each path.  `Cut` is such an end of two rows of names.  The guess is the *longest* cut
(`strip_longest`), and there is one whenever a single name can be stripped.

Two roots that end in `/` are the exception.  The empty text behind that slash is stripped like a
name, so a link between the roots is guessed though neither has a name to strip
(`guess_eq_some_iff`, `guess_root`).
-/

set_option autoImplicit false

namespace AutoImport.SymlinkTable

open AutoImport.Path (names joined IsRow IsOpenRoot)

variable {table : SymlinkTable} {real link rs ss xs ys : List String}

/-! ## Cuts -/

/-- A directory whose entries are packages or scopes of packages. -/
def IsPackageHolder (table : SymlinkTable) (name : String) : Prop :=
  table.agree name packagesName = true ∨ Text.startsWith "@" name = true

/-- No name stripped from behind `left` is an entry of such a directory. -/
def KeepsPackages (table : SymlinkTable) (left stripped : List String) : Prop :=
  ∀ upper name lower, stripped = upper ++ name :: lower →
    ∀ parent ∈ (left ++ upper).getLast?, ¬table.IsPackageHolder parent

/-- An end of two rows of names that can be stripped from both. -/
structure Cut (table : SymlinkTable) (real link rs ss xs ys : List String) : Prop where
  realRow : real = rs ++ xs
  linkRow : link = ss ++ ys
  realLeft : rs ≠ []
  linkLeft : ss ≠ []
  agree : List.Forall₂ (fun x y => table.agree x y = true) xs ys
  realKept : table.KeepsPackages rs xs
  linkKept : table.KeepsPackages ss ys

/-- The longest end, and not an empty one. -/
structure IsLongest (table : SymlinkTable) (real link rs ss xs ys : List String) : Prop extends
    Cut table real link rs ss xs ys where
  stripped : xs ≠ []
  longest : ∀ rs' ss' xs' ys', table.Cut real link rs' ss' xs' ys' → xs'.length ≤ xs.length

/-- As many names are cut from the one path as from the other. -/
theorem Cut.sameLength (h : table.Cut real link rs ss xs ys) : xs.length = ys.length :=
  List.Forall₂.length_eq h.agree

/-- What is left is known from how much is stripped. -/
theorem Cut.eq_of_length {rs' ss' xs' ys' : List String} (h : table.Cut real link rs ss xs ys)
    (h' : table.Cut real link rs' ss' xs' ys') (hlength : xs.length = xs'.length) :
    rs = rs' ∧ ss = ss' := by
  have hys : ys.length = ys'.length := by rw [← h.sameLength, hlength, h'.sameLength]
  have hreal := List.append_inj' (h.realRow.symm.trans h'.realRow) hlength
  have hlink := List.append_inj' (h.linkRow.symm.trans h'.linkRow) hys
  exact ⟨hreal.1, hlink.1⟩

/-! ## One name more -/

/-- Two rows are related name by name when their fronts and their last names are. -/
theorem forall₂_concat_iff {R : String → String → Prop} {x y : String} :
    List.Forall₂ R (xs ++ [x]) (ys ++ [y]) ↔ List.Forall₂ R xs ys ∧ R x y := by
  rw [← List.forall₂_reverse_iff, List.reverse_append, List.reverse_append]
  exact List.forall₂_cons.trans (and_comm.trans (and_congr_left' List.forall₂_reverse_iff))

/-- An end with no names strips no package. -/
theorem keepsPackages_nil (table : SymlinkTable) (left : List String) :
    table.KeepsPackages left [] := by
  intro upper name lower hsplit
  simp at hsplit

/-- One more name may be stripped when the one left above it does not hold packages. -/
theorem keepsPackages_concat_iff {left stripped : List String} {name : String} :
    table.KeepsPackages left (stripped ++ [name]) ↔
      table.KeepsPackages left stripped ∧
        ∀ parent ∈ (left ++ stripped).getLast?, ¬table.IsPackageHolder parent := by
  constructor
  · intro h
    refine ⟨fun upper other lower hsplit => ?_, h stripped name [] rfl⟩
    refine h upper other (lower ++ [name]) ?_
    rw [hsplit, List.append_assoc]
    rfl
  · rintro ⟨hbefore, hlast⟩ upper other lower hsplit
    rcases List.eq_nil_or_concat lower with rfl | ⟨start, last, rfl⟩
    · obtain ⟨rfl, -⟩ := List.append_inj' hsplit rfl
      exact hlast
    · rw [List.concat_eq_append, ← List.cons_append, ← List.append_assoc] at hsplit
      obtain ⟨hstripped, -⟩ := List.append_inj' hsplit rfl
      exact hbefore upper other start hstripped

/-- A cut can be made one name longer if the names that follow agree and are no packages. -/
theorem cut_concat_iff {r s : String} :
    table.Cut (real ++ [r]) (link ++ [s]) rs ss (xs ++ [r]) (ys ++ [s]) ↔
      table.Cut real link rs ss xs ys ∧ table.agree r s = true ∧
        (∀ parent ∈ real.getLast?, ¬table.IsPackageHolder parent) ∧
        ∀ parent ∈ link.getLast?, ¬table.IsPackageHolder parent := by
  constructor
  · rintro ⟨hreal, hlink, hrealLeft, hlinkLeft, hagree, hrealKept, hlinkKept⟩
    rw [← List.append_assoc] at hreal hlink
    obtain ⟨rfl, -⟩ := List.append_inj' hreal rfl
    obtain ⟨rfl, -⟩ := List.append_inj' hlink rfl
    obtain ⟨hbefore, hlast⟩ := forall₂_concat_iff.1 hagree
    obtain ⟨hrealBefore, hrealLast⟩ := keepsPackages_concat_iff.1 hrealKept
    obtain ⟨hlinkBefore, hlinkLast⟩ := keepsPackages_concat_iff.1 hlinkKept
    exact ⟨⟨rfl, rfl, hrealLeft, hlinkLeft, hbefore, hrealBefore, hlinkBefore⟩, hlast, hrealLast,
      hlinkLast⟩
  · rintro ⟨⟨rfl, rfl, hrealLeft, hlinkLeft, hagree, hrealKept, hlinkKept⟩, hlast, hrealLast,
      hlinkLast⟩
    exact ⟨List.append_assoc _ _ _, List.append_assoc _ _ _, hrealLeft, hlinkLeft,
      forall₂_concat_iff.2 ⟨hagree, hlast⟩, keepsPackages_concat_iff.2 ⟨hrealKept, hrealLast⟩,
      keepsPackages_concat_iff.2 ⟨hlinkKept, hlinkLast⟩⟩

/-- What is stripped is nothing, or ends in the last names. -/
theorem Cut.eq_nil_or_concat {r s : String}
    (h : table.Cut (real ++ [r]) (link ++ [s]) rs ss xs ys) :
    xs = [] ∨ ∃ xs' ys', xs = xs' ++ [r] ∧ ys = ys' ++ [s] := by
  have hreal := h.realRow
  have hlink := h.linkRow
  have hlength := h.sameLength
  rcases List.eq_nil_or_concat xs with hxs | ⟨xs', x, rfl⟩
  · exact Or.inl hxs
  · rcases List.eq_nil_or_concat ys with rfl | ⟨ys', y, rfl⟩
    · simp at hlength
    · rw [List.concat_eq_append, ← List.append_assoc] at hreal hlink
      obtain ⟨-, hx⟩ := List.append_inj' hreal rfl
      obtain ⟨-, hy⟩ := List.append_inj' hlink rfl
      rw [List.concat_eq_append, List.concat_eq_append, hx, hy]
      exact Or.inr ⟨xs', ys', rfl, rfl⟩

/-- Rows that are not empty need nothing cut from them. -/
theorem cut_nil (table : SymlinkTable) (hreal : real ≠ []) (hlink : link ≠ []) :
    table.Cut real link real link [] [] :=
  ⟨(List.append_nil _).symm, (List.append_nil _).symm, hreal, hlink, .nil,
    keepsPackages_nil table real, keepsPackages_nil table link⟩

/-! ## Stripping -/

/-- The test of a single name tells `node_modules` from other names as names are compared. -/
theorem holdsPackages_iff {name : String} :
    table.holdsPackages name = true ↔ table.IsPackageHolder name := by
  have hown : ∀ c ∈ packagesName.toList, Text.IsOwnSmallForm c :=
    List.all_iff_forall_prop.1 (by decide)
  have hsmall : Text.asciiLowercase packagesName.toList = packagesName.toList := by decide
  unfold holdsPackages IsPackageHolder agree
  rw [Bool.or_eq_true, decide_eq_true_iff]
  cases table.caseSensitive with
  | true => simp
  | false =>
    refine or_congr ?_ Iff.rfl
    simp only [Bool.false_eq_true, if_false, decide_eq_true_iff]
    rw [← String.toList_inj, String.toList_ofList, Text.lowercase_eq_iff hown, hsmall]

/-- The last of a reversed row is its first. -/
theorem forall_mem_getLast?_reverse {P : String → Prop} {name : String} {others : List String} :
    (∀ parent ∈ (name :: others).reverse.getLast?, P parent) ↔ P name := by
  simp [List.getLast?_reverse]

/-- Two paths of which one has a single name only cannot be cut. -/
theorem Cut.two_le_length (h : table.Cut real link rs ss xs ys) (hxs : xs ≠ []) :
    2 ≤ real.length ∧ 2 ≤ link.length := by
  have hrs := List.length_pos_iff.2 h.realLeft
  have hss := List.length_pos_iff.2 h.linkLeft
  have hstripped := List.length_pos_iff.2 hxs
  have hlength := h.sameLength
  rw [h.realRow, h.linkRow, List.length_append, List.length_append]
  omega

/-- Stripping two rows, last name first, makes their longest cut. -/
theorem strip_longest (table : SymlinkTable) (real link : List String) (hreal : real ≠ [])
    (hlink : link ≠ []) :
    let left := table.strip real link
    ∃ xs ys, table.Cut real.reverse link.reverse left.2.1.reverse left.2.2.reverse xs ys ∧
      (left.1 = true ↔ xs ≠ []) ∧
      ∀ rs' ss' xs' ys', table.Cut real.reverse link.reverse rs' ss' xs' ys' →
        xs'.length ≤ xs.length := by
  induction real, link using strip.induct table with
  | case1 r rParent rs s sParent ss hstrip _ _ _ ih =>
    obtain ⟨xs, ys, hcut, -, hlongest⟩ := ih (List.cons_ne_nil _ _) (List.cons_ne_nil _ _)
    rw [strip, if_pos hstrip]
    simp only [Bool.and_eq_true, Bool.not_eq_true', ← Bool.not_eq_true, holdsPackages_iff]
      at hstrip
    obtain ⟨⟨hagree, hrealKept⟩, hlinkKept⟩ := hstrip
    rw [List.reverse_cons (a := r), List.reverse_cons (a := s)]
    refine ⟨xs ++ [r], ys ++ [s], ?_, iff_of_true rfl (by simp), ?_⟩
    · exact cut_concat_iff.2 ⟨hcut, hagree, forall_mem_getLast?_reverse.2 hrealKept,
        forall_mem_getLast?_reverse.2 hlinkKept⟩
    · intro rs' ss' xs' ys' hother
      rcases hother.eq_nil_or_concat with rfl | ⟨xs'', ys'', rfl, rfl⟩
      · exact Nat.zero_le _
      · have hbefore := hlongest _ _ _ _ (cut_concat_iff.1 hother).1
        rw [List.length_append, List.length_append]
        exact Nat.add_le_add_right hbefore 1
  | case2 r rParent rs s sParent ss hstop =>
    rw [strip, if_neg hstop]
    refine ⟨[], [], cut_nil table (by simp) (by simp), by simp, ?_⟩
    intro rs' ss' xs' ys' hother
    rw [List.reverse_cons (a := r), List.reverse_cons (a := s)] at hother
    rcases hother.eq_nil_or_concat with rfl | ⟨xs'', ys'', rfl, rfl⟩
    · exact Nat.le_refl _
    · refine absurd ?_ hstop
      obtain ⟨-, hagree, hrealKept, hlinkKept⟩ := cut_concat_iff.1 hother
      simp only [Bool.and_eq_true, Bool.not_eq_true', ← Bool.not_eq_true, holdsPackages_iff]
      exact ⟨⟨hagree, forall_mem_getLast?_reverse.1 hrealKept⟩,
        forall_mem_getLast?_reverse.1 hlinkKept⟩
  | case3 real link hshort =>
    rw [strip.eq_2 table real link hshort]
    refine ⟨[], [], cut_nil table (by simpa using hreal) (by simpa using hlink), by simp, ?_⟩
    intro rs' ss' xs' ys' hother
    rcases xs' with - | ⟨x, xs'⟩
    · exact Nat.le_refl _
    · obtain ⟨hrealLength, hlinkLength⟩ := hother.two_le_length (List.cons_ne_nil x xs')
      rw [List.length_reverse] at hrealLength hlinkLength
      rcases real with - | ⟨r, - | ⟨rParent, rs⟩⟩
      · simp at hrealLength
      · simp at hrealLength
      · rcases link with - | ⟨s, - | ⟨sParent, ss⟩⟩
        · simp at hlinkLength
        · simp at hlinkLength
        · exact (hshort r rParent rs s sParent ss rfl rfl).elim

/-! ## Guessing -/

variable {realFile linkFile R S : String}

/-- A path put together from a row has the names of the row. -/
theorem names_pathOf {row : List String} (h : IsRow row) : names (pathOf row) = row := by
  unfold pathOf
  split
  · rename_i hroot
    rw [hroot]
    exact Path.names_openRoot (Or.inl rfl)
  · exact Path.names_joined h

/-- A guess depends on nothing but the segments of the two normal forms. -/
theorem guess_eq_of_segments
    (hreal : Path.segments (Path.normalize realFile table.base) = real)
    (hlink : Path.segments (Path.normalize linkFile table.base) = link) :
    table.guess realFile linkFile =
      let left := table.strip real.reverse link.reverse
      if left.1 then some (pathOf left.2.1.reverse, pathOf left.2.2.reverse) else none := by
  unfold guess
  dsimp only
  rw [hreal, hlink]
  generalize table.strip real.reverse link.reverse = left
  obtain ⟨stripped, rs, ss⟩ := left
  cases stripped <;> rfl

/-- Between rows of names the longest cut is made, and what it leaves are rows. -/
theorem guess_of_rows (hreal : IsRow real) (hlink : IsRow link)
    (hrealFile : Path.normalize realFile table.base = joined real)
    (hlinkFile : Path.normalize linkFile table.base = joined link) :
    ∃ rs ss xs ys, table.Cut real link rs ss xs ys ∧
      (∀ rs' ss' xs' ys', table.Cut real link rs' ss' xs' ys' → xs'.length ≤ xs.length) ∧
      IsRow rs ∧ IsRow ss ∧
      table.guess realFile linkFile = if xs = [] then none else some (pathOf rs, pathOf ss) := by
  have hstrip := table.strip_longest real.reverse link.reverse (by simpa using hreal.ne_nil)
    (by simpa using hlink.ne_nil)
  have hguess := guess_eq_of_segments (by rw [hrealFile, Path.segments_joined hreal])
    (by rw [hlinkFile, Path.segments_joined hlink])
  generalize table.strip real.reverse link.reverse = left at hstrip hguess
  dsimp only at hstrip hguess
  rw [List.reverse_reverse, List.reverse_reverse] at hstrip
  obtain ⟨xs, ys, hcut, hstripped, hlongest⟩ := hstrip
  refine ⟨_, _, xs, ys, hcut, hlongest, IsRow.of_append (hcut.realRow ▸ hreal) hcut.realLeft,
    IsRow.of_append (hcut.linkRow ▸ hlink) hcut.linkLeft, ?_⟩
  rw [hguess]
  by_cases hxs : xs = []
  · rw [if_neg fun h => hstripped.1 h hxs, if_pos hxs]
  · rw [if_pos (hstripped.2 hxs), if_neg hxs]

/-- There is a guess for two rows exactly when something can be cut from both. -/
theorem isSome_guess_of_rows (hreal : IsRow real) (hlink : IsRow link)
    (hrealFile : Path.normalize realFile table.base = joined real)
    (hlinkFile : Path.normalize linkFile table.base = joined link) :
    (table.guess realFile linkFile).isSome = true ↔
      ∃ rs ss xs ys, table.Cut real link rs ss xs ys ∧ xs ≠ [] := by
  obtain ⟨rs, ss, xs, ys, hcut, hlongest, -, -, hguess⟩ :=
    guess_of_rows hreal hlink hrealFile hlinkFile
  rw [hguess]
  constructor
  · intro h
    refine ⟨rs, ss, xs, ys, hcut, fun hxs => ?_⟩
    rw [if_pos hxs] at h
    cases h
  · rintro ⟨rs', ss', xs', ys', hother, hne⟩
    have hlength := hlongest _ _ _ _ hother
    rw [← List.length_pos_iff] at hne
    rw [if_neg (List.length_pos_iff.1 (Nat.lt_of_lt_of_le hne hlength))]
    rfl

/-- Between rows of names the longest cut is guessed. -/
theorem guess_eq_some_iff_of_rows (hreal : IsRow real) (hlink : IsRow link)
    (hrealFile : Path.normalize realFile table.base = joined real)
    (hlinkFile : Path.normalize linkFile table.base = joined link) :
    table.guess realFile linkFile = some (R, S) ↔
      R = pathOf (names R) ∧ S = pathOf (names S) ∧
        ∃ xs ys, table.IsLongest real link (names R) (names S) xs ys := by
  obtain ⟨rs, ss, xs, ys, hcut, hlongest, hrs, hss, hguess⟩ :=
    guess_of_rows hreal hlink hrealFile hlinkFile
  rw [hguess]
  constructor
  · intro h
    obtain ⟨hne, hsome⟩ := Option.ite_none_left_eq_some.1 h
    obtain ⟨rfl, rfl⟩ := Prod.mk.inj (Option.some.inj hsome)
    rw [names_pathOf hrs, names_pathOf hss]
    exact ⟨rfl, rfl, xs, ys, hcut, hne, hlongest⟩
  · rintro ⟨hR, hS, xs', ys', hother⟩
    have hlength : xs.length = xs'.length :=
      Nat.le_antisymm (hother.longest _ _ _ _ hcut) (hlongest _ _ _ _ hother.toCut)
    have hne : xs ≠ [] := by
      rw [← List.length_pos_iff, hlength, List.length_pos_iff]
      exact hother.stripped
    obtain ⟨rfl, rfl⟩ := hcut.eq_of_length hother.toCut hlength
    rw [if_neg hne, ← hR, ← hS]

/-! ### Roots that end in `/` -/

/-- Agreement does not depend on the order of the segments. -/
theorem agree_comm (table : SymlinkTable) (first second : String) :
    table.agree first second = table.agree second first := by
  unfold agree
  split
  · exact decide_eq_decide.2 eq_comm
  · exact decide_eq_decide.2 eq_comm

/-- The empty text agrees with itself only. -/
theorem agree_empty_iff {name : String} : table.agree "" name = true ↔ name = "" := by
  unfold agree
  split
  · rw [decide_eq_true_iff, eq_comm]
  · rw [decide_eq_true_iff, ← String.toList_eq_nil_iff]
    exact eq_comm.trans List.map_eq_nil_iff

/-- Segments that agree are of one length. -/
theorem length_of_agree {first second : String} (h : table.agree first second = true) :
    first.toList.length = second.toList.length := by
  unfold agree at h
  split at h
  · rw [of_decide_eq_true h]
  · simpa [Text.asciiLowercase] using congrArg List.length (of_decide_eq_true h)

/-- A root holds no packages: it is too short, and no scope. -/
theorem holdsPackages_openRoot {root : String} (h : IsOpenRoot root) :
    table.holdsPackages root = false := by
  refine Bool.eq_false_iff.2 fun hholds => ?_
  have hlength : packagesName.toList.length = 12 := by decide
  rcases holdsPackages_iff.1 hholds with hname | hscope
  · have hsame := length_of_agree hname
    rcases h with rfl | ⟨c, -, rfl⟩
    · simp [hlength] at hsame
    · simp [hlength] at hsame
  · rcases h with rfl | ⟨c, hc, rfl⟩
    · exact absurd hscope (by decide)
    · obtain ⟨rest, hrest⟩ := List.isPrefixOf_iff_prefix.1 hscope
      obtain ⟨rfl, -⟩ := List.cons.inj (hrest.trans String.toList_ofList)
      exact absurd hc (by decide)

/-- Nothing is stripped where the last names do not agree. -/
theorem strip_of_not_agree {r s : String} (h : table.agree r s = false) (rs ss : List String) :
    (table.strip (r :: rs) (s :: ss)).1 = false := by
  cases rs with
  | nil => rfl
  | cons rParent rs =>
    cases ss with
    | nil => rfl
    | cons sParent ss => simp [strip, h]

/-- The slash behind a root does not agree with the last of several names. -/
theorem strip_openRoot_row (root : String) {row : List String} (hrow : IsRow row) :
    (table.strip ["", root] row.reverse).1 = false ∧
      (table.strip row.reverse ["", root]).1 = false := by
  rcases List.eq_nil_or_concat row with rfl | ⟨front, last, rfl⟩
  · exact absurd rfl hrow.ne_nil
  · rw [List.concat_eq_append] at hrow ⊢
    rw [List.reverse_append, List.reverse_singleton, List.singleton_append]
    by_cases hfront : front = []
    · rw [hfront]
      exact ⟨rfl, rfl⟩
    · have hdiffer : table.agree "" last = false :=
        Bool.eq_false_iff.2 fun h => hrow.last_ne_empty hfront (agree_empty_iff.1 h)
      exact ⟨strip_of_not_agree hdiffer _ _,
        strip_of_not_agree (by rw [agree_comm, hdiffer]) _ _⟩

section

variable {root other : String} {row : List String}

/-- Of two roots that end in `/` just that slash is stripped. -/
theorem guess_of_openRoots (hroot : IsOpenRoot root) (hother : IsOpenRoot other)
    (hreal : Path.normalize realFile table.base = root ++ "/")
    (hlink : Path.normalize linkFile table.base = other ++ "/") :
    table.guess realFile linkFile = some (pathOf [root], pathOf [other]) := by
  have hstrip : table.strip ["", root] ["", other] = (true, [root], [other]) := by
    have hempty : table.agree "" "" = true := agree_empty_iff.2 rfl
    simp [strip, hempty, holdsPackages_openRoot hroot, holdsPackages_openRoot hother]
  rw [guess_eq_of_segments (by rw [hreal, Path.segments_openRoot hroot])
    (by rw [hlink, Path.segments_openRoot hother])]
  exact congrArg (fun left : Bool × List String × List String =>
    if left.1 then some (pathOf left.2.1.reverse, pathOf left.2.2.reverse) else none) hstrip

/-- Behind a root that ends in `/` there is no name to strip. -/
theorem guess_of_openRoot_row (hroot : IsOpenRoot root) (hrow : IsRow row)
    (hreal : Path.normalize realFile table.base = root ++ "/")
    (hlink : Path.normalize linkFile table.base = joined row) :
    table.guess realFile linkFile = none := by
  rw [guess_eq_of_segments (by rw [hreal, Path.segments_openRoot hroot])
    (by rw [hlink, Path.segments_joined hrow])]
  exact if_neg (Bool.eq_false_iff.1 (strip_openRoot_row root hrow).1)

/-- There is no guess for a row and a root that ends in a slash. -/
theorem guess_of_row_openRoot (hroot : IsOpenRoot root) (hrow : IsRow row)
    (hreal : Path.normalize realFile table.base = joined row)
    (hlink : Path.normalize linkFile table.base = root ++ "/") :
    table.guess realFile linkFile = none := by
  rw [guess_eq_of_segments (by rw [hreal, Path.segments_joined hrow])
    (by rw [hlink, Path.segments_openRoot hroot])]
  exact if_neg (Bool.eq_false_iff.1 (strip_openRoot_row root hrow).2)

end

/-- Nothing is stripped from a single name. -/
theorem Cut.eq_nil_of_single (h : table.Cut real link rs ss xs ys)
    (hsingle : real.length < 2 ∨ link.length < 2) : xs = [] := by
  by_contra hxs
  obtain ⟨hreal, hlink⟩ := h.two_le_length hxs
  omega

/-- Two normal forms are rows or roots alike, or one of them is a root and nothing is guessed. -/
theorem guess_cases (table : SymlinkTable) (realFile linkFile : String) :
    let real := Path.normalize realFile table.base
    let link := Path.normalize linkFile table.base
    (∃ realRow linkRow, IsRow realRow ∧ IsRow linkRow ∧
      real = joined realRow ∧ link = joined linkRow) ∨
    (∃ realRoot linkRoot, IsOpenRoot realRoot ∧ IsOpenRoot linkRoot ∧
      real = realRoot ++ "/" ∧ link = linkRoot ++ "/") ∨
    table.guess realFile linkFile = none ∧
      ((names real).length < 2 ∨ (names link).length < 2) ∧
      ¬(Text.endsWith "/" real = true ∧ Text.endsWith "/" link = true) := by
  dsimp only
  rcases Path.normalize_cases realFile table.base with
    ⟨realRow, hrealRow, hreal⟩ | ⟨realRoot, hrealRoot, hreal⟩
  · rcases Path.normalize_cases linkFile table.base with
      ⟨linkRow, hlinkRow, hlink⟩ | ⟨linkRoot, hlinkRoot, hlink⟩
    · exact Or.inl ⟨realRow, linkRow, hrealRow, hlinkRow, hreal, hlink⟩
    · refine Or.inr (Or.inr ⟨guess_of_row_openRoot hlinkRoot hrealRow hreal hlink, Or.inr ?_, ?_⟩)
      · rw [hlink, Path.names_openRoot hlinkRoot]
        exact Nat.one_lt_two
      · rw [hreal, Path.endsWith_slash_joined hrealRow]
        exact fun h => Bool.false_ne_true h.1
  · rcases Path.normalize_cases linkFile table.base with
      ⟨linkRow, hlinkRow, hlink⟩ | ⟨linkRoot, hlinkRoot, hlink⟩
    · refine Or.inr (Or.inr ⟨guess_of_openRoot_row hrealRoot hlinkRow hreal hlink, Or.inl ?_, ?_⟩)
      · rw [hreal, Path.names_openRoot hrealRoot]
        exact Nat.one_lt_two
      · rw [hlink, Path.endsWith_slash_joined hlinkRow]
        exact fun h => Bool.false_ne_true h.2
    · exact Or.inr (Or.inl ⟨realRoot, linkRoot, hrealRoot, hlinkRoot, hreal, hlink⟩)

/-- A link is guessed between two roots that end in `/`, and where a name can be stripped. -/
theorem isSome_guess_iff (table : SymlinkTable) (realFile linkFile : String) :
    let real := Path.normalize realFile table.base
    let link := Path.normalize linkFile table.base
    (table.guess realFile linkFile).isSome = true ↔
      (Text.endsWith "/" real = true ∧ Text.endsWith "/" link = true) ∨
        ∃ rs ss xs ys, table.Cut (names real) (names link) rs ss xs ys ∧ xs ≠ [] := by
  dsimp only
  rcases table.guess_cases realFile linkFile with
    ⟨realRow, linkRow, hrealRow, hlinkRow, hreal, hlink⟩ |
    ⟨realRoot, linkRoot, hrealRoot, hlinkRoot, hreal, hlink⟩ | ⟨hnone, hsingle, hends⟩
  · rw [isSome_guess_of_rows hrealRow hlinkRow hreal hlink, hreal, hlink,
      Path.names_joined hrealRow, Path.names_joined hlinkRow, Path.endsWith_slash_joined hrealRow]
    simp
  · rw [guess_of_openRoots hrealRoot hlinkRoot hreal hlink, hreal, hlink]
    exact iff_of_true rfl
      (Or.inl ⟨Path.endsWith_slash_openRoot realRoot, Path.endsWith_slash_openRoot linkRoot⟩)
  · rw [hnone]
    refine iff_of_false Bool.false_ne_true ?_
    rintro (hroots | ⟨rs, ss, xs, ys, hcut, hne⟩)
    · exact hends hroots
    · exact hne (hcut.eq_nil_of_single hsingle)

/-- What is guessed depends on how the two normal forms end: of two roots that end in `/` the roots
are guessed though nothing can be stripped, and otherwise the longest cut, if there is one. -/
theorem guess_eq_some_iff (table : SymlinkTable) (realFile linkFile R S : String) :
    let real := Path.normalize realFile table.base
    let link := Path.normalize linkFile table.base
    (table.guess realFile linkFile = some (R, S) ↔
      R = pathOf (names R) ∧ S = pathOf (names S) ∧
        ((Text.endsWith "/" real = true ∧ Text.endsWith "/" link = true ∧
            names R = names real ∧ names S = names link) ∨
          ∃ xs ys, table.IsLongest (names real) (names link) (names R) (names S) xs ys)) ∧
    ((table.guess realFile linkFile).isSome = true ↔
      (Text.endsWith "/" real = true ∧ Text.endsWith "/" link = true) ∨
        ∃ rs ss xs ys, table.Cut (names real) (names link) rs ss xs ys ∧ xs ≠ []) := by
  dsimp only
  refine ⟨?_, isSome_guess_iff table realFile linkFile⟩
  rcases table.guess_cases realFile linkFile with
    ⟨realRow, linkRow, hrealRow, hlinkRow, hreal, hlink⟩ |
    ⟨realRoot, linkRoot, hrealRoot, hlinkRoot, hreal, hlink⟩ | ⟨hnone, hsingle, hends⟩
  · rw [guess_eq_some_iff_of_rows hrealRow hlinkRow hreal hlink, hreal, hlink,
      Path.names_joined hrealRow, Path.names_joined hlinkRow, Path.endsWith_slash_joined hrealRow]
    simp
  · rw [guess_of_openRoots hrealRoot hlinkRoot hreal hlink, hreal, hlink,
      Path.names_openRoot hrealRoot, Path.names_openRoot hlinkRoot]
    constructor
    · intro h
      obtain ⟨rfl, rfl⟩ := Prod.mk.inj (Option.some.inj h)
      rw [names_pathOf hrealRoot.isRow, names_pathOf hlinkRoot.isRow]
      exact ⟨rfl, rfl, Or.inl ⟨Path.endsWith_slash_openRoot realRoot,
        Path.endsWith_slash_openRoot linkRoot, rfl, rfl⟩⟩
    · rintro ⟨hR, hS, ⟨-, -, hnamesR, hnamesS⟩ | ⟨xs, ys, hlongest⟩⟩
      · rw [hR, hS, hnamesR, hnamesS]
      · exact absurd (hlongest.toCut.eq_nil_of_single (Or.inl Nat.one_lt_two)) hlongest.stripped
  · rw [hnone]
    refine iff_of_false nofun ?_
    rintro ⟨-, -, ⟨hreal, hlink, -⟩ | ⟨xs, ys, hlongest⟩⟩
    · exact hends ⟨hreal, hlink⟩
    · exact hlongest.stripped (hlongest.toCut.eq_nil_of_single hsingle)

/-- A link from `/` to `/` is guessed.  Whatever is taken for the segments of a path, none are
stripped there. -/
theorem guess_root :
    let table : SymlinkTable := { base := "/", caseSensitive := true }
    table.guess "/" "/" = some ("/", "/") ∧
      ¬∃ segments : String → List String, ∀ R S, table.guess "/" "/" = some (R, S) →
        ∃ stripped, stripped ≠ [] ∧
          segments (Path.normalize "/" table.base) = segments R ++ stripped := by
  intro table
  have hguess : table.guess "/" "/" = some ("/", "/") := by decide
  have hnormal : Path.normalize "/" table.base = "/" := by decide
  refine ⟨hguess, ?_⟩
  rintro ⟨segments, h⟩
  obtain ⟨stripped, hne, hsegments⟩ := h "/" "/" hguess
  rw [hnormal] at hsegments
  exact hne (List.self_eq_append_right.1 hsegments)

end AutoImport.SymlinkTable
