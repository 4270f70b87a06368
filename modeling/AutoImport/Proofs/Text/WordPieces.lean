import Mathlib.Data.List.Basic
import AutoImport.Text.Blank

/-!
# Pieces between blanks and bars

A text without blanks is not trimmed.  Cutting a text at its blanks gives the words that stand
between them, however many blanks there are, and cutting it at `||` gives the pieces between the
bars, as long as no piece holds a bar itself.
-/

set_option autoImplicit false

namespace AutoImport.Text

/-- Nothing is dropped from a text whose characters are all kept. -/
theorem dropWhile_of_forall {p : Char → Bool} {text : Chars} (h : ∀ c ∈ text, p c = false) :
    text.dropWhile p = text := by
  cases text with
  | nil => rfl
  | cons c cs => exact List.dropWhile_cons_of_neg (by simp [h c List.mem_cons_self])

/-- A text without blanks is trimmed already. -/
theorem trim_of_forall {text : Chars} (h : ∀ c ∈ text, isBlank c = false) : trim text = text := by
  unfold trim trimRight
  rw [dropWhile_of_forall h, dropWhile_of_forall (by simpa using h), List.reverse_reverse]

/-! ## Blanks -/

/-- A blank in front of a text adds no word. -/
theorem words_cons_of_isBlank {c : Char} (hc : isBlank c = true) (cs : Chars) :
    words (c :: cs) = words cs := by
  cases cs with
  | nil => exact if_pos hc
  | cons d ds => exact if_pos hc

/-- Blanks before a text do not matter. -/
theorem words_append_of_isBlank {blanks : Chars} (h : ∀ c ∈ blanks, isBlank c = true)
    (rest : Chars) : words (blanks ++ rest) = words rest := by
  induction blanks with
  | nil => rfl
  | cons c cs ih =>
    rw [List.cons_append, words_cons_of_isBlank (h c List.mem_cons_self)]
    exact ih fun d hd => h d (List.mem_cons_of_mem c hd)

/-- Blanks alone hold no word. -/
theorem words_of_isBlank {blanks : Chars} (h : ∀ c ∈ blanks, isBlank c = true) :
    words blanks = [] := by
  rw [← List.append_nil blanks, words_append_of_isBlank h]
  rfl

/-- A word ends where the text ends or a blank follows. -/
theorem words_append {word : Chars} (hne : word ≠ []) (hword : ∀ c ∈ word, isBlank c = false)
    {rest : Chars} (hrest : ∀ c ∈ rest.head?, isBlank c = true) :
    words (word ++ rest) = word :: words rest := by
  induction word with
  | nil => exact absurd rfl hne
  | cons c cs ih =>
    have hc : isBlank c = false := hword c List.mem_cons_self
    cases cs with
    | nil =>
      cases rest with
      | nil => simp [words, hc]
      | cons d ds =>
        have hd : isBlank d = true := hrest d rfl
        simp [words, hc, hd]
    | cons d ds =>
      have hd : isBlank d = false := hword d (List.mem_cons_of_mem c List.mem_cons_self)
      have hcs := ih (List.cons_ne_nil d ds) fun e he => hword e (List.mem_cons_of_mem c he)
      rw [List.cons_append] at hcs
      rw [List.cons_append, List.cons_append, words, hc, hcs]
      simp [hd]

/-! ## Bars -/

/-- A character in front of a text belongs to its first piece, unless it is a bar. -/
theorem splitOnDoubleBar_cons {c : Char} (hc : c ≠ '|') {cs piece : Chars} {pieces : List Chars}
    (h : splitOnDoubleBar cs = piece :: pieces) :
    splitOnDoubleBar (c :: cs) = (c :: piece) :: pieces := by
  rw [splitOnDoubleBar]
  · rw [h]
  · rintro _ rfl
    exact absurd rfl hc

/-- A text without bars is one piece. -/
theorem splitOnDoubleBar_of_not_mem {piece : Chars} (h : '|' ∉ piece) :
    splitOnDoubleBar piece = [piece] := by
  induction piece with
  | nil => rfl
  | cons c cs ih =>
    have hc : c ≠ '|' := (List.ne_of_not_mem_cons h).symm
    exact splitOnDoubleBar_cons hc (ih (List.not_mem_of_not_mem_cons h))

/-- The text up to the first `||` is the first piece. -/
theorem splitOnDoubleBar_append {piece : Chars} (h : '|' ∉ piece) (rest : Chars) :
    splitOnDoubleBar (piece ++ '|' :: '|' :: rest) = piece :: splitOnDoubleBar rest := by
  induction piece with
  | nil => rfl
  | cons c cs ih =>
    have hc : c ≠ '|' := (List.ne_of_not_mem_cons h).symm
    exact splitOnDoubleBar_cons hc (ih (List.not_mem_of_not_mem_cons h))

end AutoImport.Text
