import AutoImport.Text.Basic
import Mathlib.Data.List.Pairwise

/-!
# The order of names

Among names in ascending order those with a common beginning stand together, right behind the
beginning itself.  So they are found without looking at all names: what comes before the beginning
is skipped, and the rest is taken as long as it has it (`filter_startsWith_of_ascending`).

Things that are sorted by a name, and stably, are determined by what belongs to each single name:
a sorted list with the same parts of equal names is the stable sort
(`eq_mergeSort_of_filter_eq`). -/

set_option autoImplicit false

namespace AutoImport.Text

/-! ## Names with a common beginning -/

/-- What begins with a text does not come before it. -/
theorem not_lt_of_isPrefix {start text : Chars} (h : start <+: text) : ¬text < start := by
  induction start generalizing text with
  | nil => exact List.not_lt_nil text
  | cons c start ih =>
    obtain ⟨rest, rfl⟩ := h
    rw [List.cons_append, List.cons_lt_cons_iff]
    rintro (hlt | ⟨-, hlt⟩)
    · exact Char.lt_irrefl c hlt
    · exact ih (List.prefix_append start rest) hlt

/-- What lies between a beginning and a text that has it, has it too. -/
theorem isPrefix_of_lt {start first second : Chars} (hstart : ¬first < start)
    (hlt : first < second) (h : start <+: second) : start <+: first := by
  induction start generalizing first second with
  | nil => exact List.nil_prefix
  | cons c start ih =>
    obtain ⟨rest, rfl⟩ := h
    cases first with
    | nil => exact absurd (List.nil_lt_cons c start) hstart
    | cons d first =>
      rw [List.cons_lt_cons_iff, not_or, not_and] at hstart
      rw [List.cons_append, List.cons_lt_cons_iff] at hlt
      rcases hlt with hlt | ⟨rfl, hlt⟩
      · exact absurd hlt hstart.1
      · rw [List.cons_prefix_cons]
        exact ⟨rfl, ih (hstart.2 rfl) hlt (List.prefix_append start rest)⟩

/-- One text starts with another when its characters do. -/
theorem startsWith_iff (start text : String) :
    startsWith start text = true ↔ start.toList <+: text.toList := by
  unfold startsWith
  exact List.isPrefixOf_iff_prefix

/-- A text never sorts before what it starts with. -/
theorem not_lt_of_startsWith {start text : String} (h : startsWith start text = true) :
    ¬text < start :=
  not_lt_of_isPrefix ((startsWith_iff start text).1 h)

/-- The texts with a given start lie together: one that sorts between the start and such a text has
it too. -/
theorem startsWith_of_lt {start first second : String} (hstart : ¬first < start)
    (hlt : first < second) (h : startsWith start second = true) :
    startsWith start first = true := by
  rw [startsWith_iff] at h ⊢
  exact isPrefix_of_lt hstart hlt h

section Ascending

variable {α : Type} {groups : List (String × α)}

/-- From the beginning itself on, the names that have it come first. -/
theorem takeWhile_startsWith_of_ascending (start : String)
    (h : groups.Pairwise fun first second => first.1 < second.1)
    (hstart : ∀ group ∈ groups, ¬group.1 < start) :
    (groups.takeWhile fun group => startsWith start group.1) =
      groups.filter fun group => startsWith start group.1 := by
  induction groups with
  | nil => rfl
  | cons group rest ih =>
    rw [List.pairwise_cons] at h
    have hrest := ih h.2 fun other hother => hstart other (List.mem_cons_of_mem group hother)
    by_cases hhere : startsWith start group.1 = true
    · simp [hhere, hrest]
    · have hlater : ∀ other ∈ rest, ¬startsWith start other.1 = true := by
        intro other hother hlater
        exact hhere (startsWith_of_lt (hstart group List.mem_cons_self) (h.1 other hother) hlater)
      have hnone : (rest.filter fun other => startsWith start other.1) = [] :=
        List.filter_eq_nil_iff.2 hlater
      simp [hhere, hnone]

/-- Among ascending names, those with a common beginning are found without looking at all. -/
theorem filter_startsWith_of_ascending (start : String)
    (h : groups.Pairwise fun first second => first.1 < second.1) :
    ((groups.dropWhile fun group => group.1 < start).takeWhile fun group =>
        startsWith start group.1) =
      groups.filter fun group => startsWith start group.1 := by
  induction groups with
  | nil => rfl
  | cons group rest ih =>
    by_cases hbefore : group.1 < start
    · have hhere : ¬startsWith start group.1 = true := fun h => not_lt_of_startsWith h hbefore
      rw [List.dropWhile_cons, if_pos (decide_eq_true hbefore), List.filter_cons, if_neg hhere]
      exact ih (List.pairwise_cons.1 h).2
    · rw [List.dropWhile_cons, if_neg fun h => hbefore (of_decide_eq_true h)]
      apply takeWhile_startsWith_of_ascending start h
      intro other hother
      rcases List.mem_cons.1 hother with rfl | hother
      · exact hbefore
      · intro hlt
        exact hbefore (String.lt_trans ((List.pairwise_cons.1 h).1 other hother) hlt)

end Ascending

/-! ## Stable sorts -/

section StableSorts

variable {α : Type} {key : α → String} {first second : List α}

/-- Sorted lists with the same elements of each key, in the same order, are the same. -/
theorem eq_of_filter_eq (hfirst : first.Pairwise fun a b => key a ≤ key b)
    (hsecond : second.Pairwise fun a b => key a ≤ key b)
    (h : ∀ name, (first.filter fun a => key a = name) = second.filter fun a => key a = name) :
    first = second := by
  have hmem : ∀ a, a ∈ first ↔ a ∈ second := by
    intro a
    have hclass : a ∈ (first.filter fun b => key b = key a) ↔
        a ∈ second.filter fun b => key b = key a := by rw [h]
    simpa using hclass
  induction first generalizing second with
  | nil =>
    symm
    rw [List.eq_nil_iff_forall_not_mem]
    intro a ha
    exact absurd ((hmem a).2 ha) (by simp)
  | cons a first ih =>
    cases second with
    | nil => exact absurd ((hmem a).1 List.mem_cons_self) (by simp)
    | cons b second =>
      rw [List.pairwise_cons] at hfirst hsecond
      -- Each of the two heads comes first among all, so they have one key and head one class.
      have hkey : key a = key b := by
        apply String.le_antisymm
        · rcases List.mem_cons.1 ((hmem b).2 List.mem_cons_self) with rfl | hb
          · exact String.le_refl _
          · exact hfirst.1 b hb
        · rcases List.mem_cons.1 ((hmem a).1 List.mem_cons_self) with rfl | ha
          · exact String.le_refl _
          · exact hsecond.1 a ha
      have hclass := h (key a)
      rw [List.filter_cons_of_pos (by simp), List.filter_cons_of_pos (by simp [hkey]),
        List.cons.injEq] at hclass
      obtain ⟨rfl, hclass⟩ := hclass
      have hrest : ∀ name, (first.filter fun c => key c = name) =
          second.filter fun c => key c = name := by
        intro name
        by_cases hname : key a = name
        · rw [← hname]
          exact hclass
        · have hwhole := h name
          rwa [List.filter_cons_of_neg (by simpa using hname),
            List.filter_cons_of_neg (by simpa using hname)] at hwhole
      have hrestMem : ∀ c, c ∈ first ↔ c ∈ second := by
        intro c
        have hc : c ∈ (first.filter fun d => key d = key c) ↔
            c ∈ second.filter fun d => key d = key c := by rw [hrest]
        simpa using hc
      rw [ih hfirst.2 hsecond.2 hrest hrestMem]

/-- The order of keys. -/
def keyLE (key : α → String) (a b : α) : Bool :=
  key a ≤ key b

/-- The order by key is transitive. -/
theorem keyLE_trans (a b c : α) (hab : keyLE key a b = true) (hbc : keyLE key b c = true) :
    keyLE key a c = true := by
  unfold keyLE at *
  rw [decide_eq_true_eq] at *
  exact String.le_trans hab hbc

/-- Any two elements are in order by key, one way or the other. -/
theorem keyLE_total (a b : α) : (keyLE key a b || keyLE key b a) = true := by
  unfold keyLE
  simpa using String.le_total (key a) (key b)

/-- A stable sort leaves the elements of one key in order. -/
theorem filter_mergeSort (key : α → String) (list : List α) (name : String) :
    ((list.mergeSort (keyLE key)).filter fun a => key a = name) =
      list.filter fun a => key a = name := by
  have hsorted : (list.filter fun a => key a = name).Pairwise fun a b => keyLE key a b = true := by
    apply List.pairwise_of_forall_mem_list
    intro a ha b hb
    have hkeyA : key a = name := by simpa using (List.mem_filter.1 ha).2
    have hkeyB : key b = name := by simpa using (List.mem_filter.1 hb).2
    simp [keyLE, hkeyA, hkeyB]
  have hsublist := List.sublist_mergeSort keyLE_trans keyLE_total hsorted List.filter_sublist
  have hclass := hsublist.filter fun a => decide (key a = name)
  simp only [List.filter_filter, Bool.and_self] at hclass
  symm
  apply hclass.eq_of_length_le
  exact Nat.le_of_eq ((List.mergeSort_perm list (keyLE key)).filter _).length_eq

/-- What is sorted and keeps the elements of each key in order is the stable sort. -/
theorem eq_mergeSort_of_filter_eq {list : List α} (hfirst : first.Pairwise fun a b => key a ≤ key b)
    (h : ∀ name, (first.filter fun a => key a = name) = list.filter fun a => key a = name) :
    first = list.mergeSort (keyLE key) := by
  apply eq_of_filter_eq hfirst
  · apply (List.pairwise_mergeSort keyLE_trans keyLE_total list).imp
    intro a b hab
    exact of_decide_eq_true hab
  · intro name
    rw [h, filter_mergeSort]

end StableSorts

end AutoImport.Text
