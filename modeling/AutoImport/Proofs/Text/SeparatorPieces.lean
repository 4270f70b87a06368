import Mathlib.Data.List.Basic
import AutoImport.Text.Basic

/-!
# Pieces between separators

Cutting a text at a separator and joining the pieces are inverse to each other: joining gives the
text back, and cutting a joined list gives back its pieces when none of them holds the separator.
The last separator of a text is the one before its last piece.  A `/` at the end of a text is
dropped once.
-/

set_option autoImplicit false

namespace AutoImport.Text

/-- A text without the separator is one piece. -/
theorem splitOn_of_not_mem {sep : Char} {text : Chars} (h : sep ∉ text) :
    splitOn sep text = [text] := by
  induction text with
  | nil => rfl
  | cons c cs ih =>
    have hc : c ≠ sep := fun e => h (e ▸ List.mem_cons_self)
    have hcs : sep ∉ cs := fun hm => h (List.mem_cons_of_mem c hm)
    simp [splitOn, hc, ih hcs]

/-- The text up to the first separator is the first piece. -/
theorem splitOn_append {sep : Char} {piece : Chars} (h : sep ∉ piece) (rest : Chars) :
    splitOn sep (piece ++ sep :: rest) = piece :: splitOn sep rest := by
  induction piece with
  | nil => simp [splitOn]
  | cons c cs ih =>
    have hc : c ≠ sep := fun e => h (e ▸ List.mem_cons_self)
    have hcs : sep ∉ cs := fun hm => h (List.mem_cons_of_mem c hm)
    rw [List.cons_append, splitOn, if_neg hc, ih hcs]

/-- A text has at least one piece. -/
theorem splitOn_ne_nil (sep : Char) (text : Chars) : splitOn sep text ≠ [] := by
  cases text with
  | nil => simp [splitOn]
  | cons c cs =>
    rw [splitOn]
    split
    · simp
    · split <;> simp

/-- Every character of a piece is a character of the text other than the separator. -/
theorem mem_of_mem_splitOn {sep : Char} {text piece : Chars} (h : piece ∈ splitOn sep text)
    {c : Char} (hc : c ∈ piece) : c ∈ text ∧ c ≠ sep := by
  induction text generalizing piece with
  | nil =>
    have : piece = [] := by simpa [splitOn] using h
    simp [this] at hc
  | cons d ds ih =>
    rw [splitOn] at h
    split at h
    · rcases List.mem_cons.1 h with rfl | h
      · simp at hc
      · exact ⟨List.mem_cons_of_mem _ (ih h hc).1, (ih h hc).2⟩
    · rename_i hd
      cases hs : splitOn sep ds with
      | nil => exact absurd hs (splitOn_ne_nil sep ds)
      | cons first others =>
        rw [hs] at h ih
        rcases List.mem_cons.1 h with rfl | h
        · rcases List.mem_cons.1 hc with rfl | hc
          · exact ⟨List.mem_cons_self, hd⟩
          · exact ⟨List.mem_cons_of_mem _ (ih List.mem_cons_self hc).1,
              (ih List.mem_cons_self hc).2⟩
        · exact ⟨List.mem_cons_of_mem _ (ih (List.mem_cons_of_mem _ h) hc).1,
            (ih (List.mem_cons_of_mem _ h) hc).2⟩

/-- No piece holds the separator. -/
theorem not_mem_of_mem_splitOn {sep : Char} {text piece : Chars}
    (h : piece ∈ splitOn sep text) : sep ∉ piece :=
  fun hm => (mem_of_mem_splitOn h hm).2 rfl

/-- The first of several pieces has a separator behind it. -/
theorem joinWith_cons {sep : Char} (piece : Chars) {pieces : List Chars} (h : pieces ≠ []) :
    joinWith sep (piece :: pieces) = piece ++ sep :: joinWith sep pieces := by
  cases pieces with
  | nil => exact absurd rfl h
  | cons other others => rfl

/-- Cutting a joined list gives back its pieces. -/
theorem splitOn_joinWith {sep : Char} {pieces : List Chars} (hne : pieces ≠ [])
    (h : ∀ piece ∈ pieces, sep ∉ piece) : splitOn sep (joinWith sep pieces) = pieces := by
  induction pieces with
  | nil => exact absurd rfl hne
  | cons piece rest ih =>
    have hp : sep ∉ piece := h piece List.mem_cons_self
    by_cases hr : rest = []
    · subst hr
      exact splitOn_of_not_mem hp
    · rw [joinWith_cons piece hr, splitOn_append hp,
        ih hr fun other ho => h other (List.mem_cons_of_mem piece ho)]

/-- A piece at the end of a list is joined with a separator before it. -/
theorem joinWith_concat {sep : Char} {pieces : List Chars} (hne : pieces ≠ []) (last : Chars) :
    joinWith sep (pieces ++ [last]) = joinWith sep pieces ++ sep :: last := by
  induction pieces with
  | nil => exact absurd rfl hne
  | cons piece rest ih =>
    by_cases hr : rest = []
    · subst hr
      rfl
    · rw [List.cons_append, joinWith_cons piece (by simp), ih hr, joinWith_cons piece hr]
      simp

/-- What a joined list begins with: the first character of its first piece. -/
theorem head?_joinWith {sep : Char} {piece : Chars} (hp : piece ≠ []) (rest : List Chars) :
    (joinWith sep (piece :: rest)).head? = piece.head? := by
  obtain ⟨c, cs, rfl⟩ := List.exists_cons_of_ne_nil hp
  cases rest with
  | nil => rfl
  | cons other others =>
    rw [joinWith_cons (c :: cs) (by simp)]
    rfl

/-- What is put together consists of separators and of characters of the pieces. -/
theorem mem_joinWith {sep : Char} {pieces : List Chars} {c : Char}
    (h : c ∈ joinWith sep pieces) : c = sep ∨ ∃ piece ∈ pieces, c ∈ piece := by
  induction pieces with
  | nil => simp [joinWith] at h
  | cons piece rest ih =>
    by_cases hr : rest = []
    · subst hr
      exact Or.inr ⟨piece, List.mem_cons_self, h⟩
    · rw [joinWith_cons piece hr] at h
      rcases List.mem_append.1 h with h | h
      · exact Or.inr ⟨piece, List.mem_cons_self, h⟩
      · rcases List.mem_cons.1 h with h | h
        · exact Or.inl h
        · rcases ih h with h | ⟨other, ho, hc⟩
          · exact Or.inl h
          · exact Or.inr ⟨other, List.mem_cons_of_mem piece ho, hc⟩

/-- A text without the separator has no last one. -/
theorem splitLast?_of_not_mem {sep : Char} {text : Chars} (h : sep ∉ text) :
    splitLast? sep text = none := by
  induction text with
  | nil => rfl
  | cons c cs ih =>
    have hc : c ≠ sep := fun e => h (e ▸ List.mem_cons_self)
    have hcs : sep ∉ cs := fun hm => h (List.mem_cons_of_mem c hm)
    simp [splitLast?, ih hcs, hc]

/-- The last separator is the one that no other follows. -/
theorem splitLast?_append {sep : Char} (before : Chars) {after : Chars} (h : sep ∉ after) :
    splitLast? sep (before ++ sep :: after) = some (before, after) := by
  induction before with
  | nil => simp [splitLast?, splitLast?_of_not_mem h]
  | cons c cs ih => rw [List.cons_append, splitLast?, ih]

/-- A slash at the end is dropped. -/
theorem dropTrailingSlash_concat (text : Chars) : dropTrailingSlash (text ++ ['/']) = text := by
  have hstrip : stripSuffix? ['/'] (text ++ ['/']) = some text :=
    List.isSuffixOf?_eq_some_iff_append_eq.2 rfl
  unfold dropTrailingSlash
  rw [hstrip]
  rfl

/-- Nothing is dropped from a text that ends in something else. -/
theorem dropTrailingSlash_of_getLast? {text : Chars} (h : text.getLast? ≠ some '/') :
    dropTrailingSlash text = text := by
  unfold dropTrailingSlash
  cases hstrip : stripSuffix? ['/'] text with
  | none => rfl
  | some start =>
    have happend : start ++ ['/'] = text := List.isSuffixOf?_eq_some_iff_append_eq.1 hstrip
    rw [← happend] at h
    exact absurd (by simp) h

/-- What stands behind a prefix is left when it is stripped. -/
theorem stripPrefix?_append (start rest : Chars) :
    stripPrefix? start (start ++ rest) = some rest :=
  List.isPrefixOf?_eq_some_iff_append_eq.2 rfl

/-- A text that begins with another character does not have the prefix. -/
theorem stripPrefix?_of_head?_ne {c : Char} (rest : Chars) {text : Chars}
    (h : text.head? ≠ some c) : stripPrefix? (c :: rest) text = none := by
  cases hstrip : stripPrefix? (c :: rest) text with
  | none => rfl
  | some after =>
    have happend : c :: rest ++ after = text := List.isPrefixOf?_eq_some_iff_append_eq.1 hstrip
    rw [← happend] at h
    exact absurd rfl h

end AutoImport.Text
