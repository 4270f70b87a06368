import AutoImport.Proofs.Text.SeparatorPieces
import AutoImport.Text.Lowercase

/-!
# Small letters piece by piece

Writing a text in small letters looks at the neighbours of a character only as far as the next `/`,
because `/` is neither a letter nor passed over.  So the small form of a path is made of the small
forms of its segments.  Marks, among them `/`, the backslash, `.`, `:` and `@`, are kept where they
are, and none is made out of another character.
-/

set_option autoImplicit false

namespace AutoImport.Text

/-- A character of ASCII that is no letter and not the zero character. -/
def IsMark (c : Char) : Prop :=
  (0 < c.toNat ∧ c.toNat < 65) ∨ (90 < c.toNat ∧ c.toNat < 97)

instance (c : Char) : Decidable (IsMark c) :=
  inferInstanceAs (Decidable (_ ∨ _))

/-- No run of the table leads below the small letters of ASCII. -/
theorem le_of_mem_lowerRuns :
    ∀ run ∈ lowerRuns, (97 : Int) ≤ (run.1 : Int) + run.2.2.2 := by
  decide +kernel

/-- A code point is that of its character, or it has none and the character is zero. -/
theorem toNat_ofNat_cases (n : Nat) : (Char.ofNat n).toNat = n ∨ (Char.ofNat n).toNat = 0 := by
  unfold Char.ofNat
  by_cases hvalid : n.isValidChar
  · rw [dif_pos hvalid]
    exact Or.inl rfl
  · rw [dif_neg hvalid]
    exact Or.inr rfl

/-- The small form of a character outside ASCII is no mark. -/
theorem not_isMark_lowerOutsideAscii {c : Char} (hc : 0x80 ≤ c.toNat) :
    ¬IsMark (lowerOutsideAscii c) := by
  unfold lowerOutsideAscii
  dsimp only
  split
  · rename_i first last step distance hfind
    have hmem := List.mem_of_find?_eq_some hfind
    have hin := List.find?_some hfind
    have hrun := le_of_mem_lowerRuns _ hmem
    simp only [Bool.and_eq_true, decide_eq_true_eq] at hin hrun
    unfold IsMark
    rcases toNat_ofNat_cases (c.toNat + distance).toNat with h | h
    · rw [h]
      omega
    · rw [h]
      omega
  · unfold IsMark
    omega

/-- A mark is its own small form. -/
theorem toLower_of_isMark {m : Char} (hm : IsMark m) : m.toLower = m := by
  unfold Char.toLower
  split
  · rename_i h
    unfold IsMark at hm
    have h1 : 65 ≤ m.toNat := UInt32.le_iff_toNat_le.1 h.1
    have h2 : m.toNat ≤ 90 := UInt32.le_iff_toNat_le.1 h.2
    omega
  · rfl

/-- No capital letter has a mark for its small letter. -/
theorem eq_of_isMark_toLower {c : Char} (h : IsMark c.toLower) : c.toLower = c := by
  unfold Char.toLower at h ⊢
  split at h
  · rename_i hc
    have h1 : 65 ≤ c.toNat := UInt32.le_iff_toNat_le.1 hc.1
    have h2 : c.toNat ≤ 90 := UInt32.le_iff_toNat_le.1 hc.2
    have hsum : (c.val + ('a'.val - 'A'.val)).toNat = c.toNat + 32 := by
      rw [UInt32.toNat_add]
      show (c.toNat + 32) % 4294967296 = c.toNat + 32
      omega
    unfold IsMark Char.toNat at h
    rw [hsum] at h
    omega
  · rename_i hc
    rw [dif_neg hc]

/-- The small form of a character holds a mark only if the character is that mark. -/
theorem mem_lowerChar_iff {m : Char} (hm : IsMark m) (c : Char) : m ∈ lowerChar c ↔ c = m := by
  unfold lowerChar
  split
  · rw [List.mem_singleton]
    constructor
    · rintro rfl
      exact (eq_of_isMark_toLower hm).symm
    · rintro rfl
      exact (toLower_of_isMark hm).symm
  · rename_i hascii
    have hmc : c ≠ m := by
      rintro rfl
      unfold IsMark at hm
      omega
    split
    · have hi : ¬(m = 'i' ∨ m = Char.ofNat 0x307) := by
        rintro (rfl | rfl) <;> exact absurd hm (by decide)
      simpa [hmc] using hi
    · simp only [List.mem_singleton, hmc, iff_false]
      rintro rfl
      exact not_isMark_lowerOutsideAscii (by omega) hm

/-- A text holds the same marks as its small form. -/
theorem mem_lowercaseAfter_iff {m : Char} (hm : IsMark m) (before text : Chars) :
    m ∈ lowercaseAfter before text ↔ m ∈ text := by
  induction text generalizing before with
  | nil => simp [lowercaseAfter]
  | cons c cs ih =>
    rw [lowercaseAfter, List.mem_append, List.mem_cons, ih]
    refine or_congr ?_ Iff.rfl
    split
    · rename_i hc
      subst hc
      have hsigma : m ≠ 'Σ' ∧ m ≠ 'ς' ∧ m ≠ 'σ' := by
        refine ⟨?_, ?_, ?_⟩ <;> rintro rfl <;> exact absurd hm (by decide)
      split <;> simp [hsigma]
    · rw [mem_lowerChar_iff hm]
      exact eq_comm

/-- No character has an empty small form. -/
theorem lowerChar_ne_nil (c : Char) : lowerChar c ≠ [] := by
  unfold lowerChar
  split
  · simp
  · split <;> simp

/-- Only the empty text has an empty small form. -/
theorem lowercaseAfter_ne_nil (before : Chars) {text : Chars} (h : text ≠ []) :
    lowercaseAfter before text ≠ [] := by
  obtain ⟨c, cs, rfl⟩ := List.exists_cons_of_ne_nil h
  rw [lowercaseAfter]
  refine List.append_ne_nil_of_left_ne_nil ?_ _
  split
  · split <;> simp
  · exact lowerChar_ne_nil c

/-- The search for a letter stops at `/` and finds none there. -/
theorem meetsCased_append_slash (text rest : Chars) :
    meetsCased (text ++ '/' :: rest) = meetsCased text := by
  have hslash : inRanges caseIgnorableRanges '/'.toNat = false := by decide +kernel
  have hcased : inRanges casedRanges '/'.toNat = false := by decide +kernel
  induction text with
  | nil =>
    rw [List.nil_append]
    unfold meetsCased
    rw [List.dropWhile_cons, hslash]
    exact hcased
  | cons c cs ih =>
    unfold meetsCased at ih ⊢
    by_cases hc : inRanges caseIgnorableRanges c.toNat = true
    · simpa only [List.cons_append, List.dropWhile_cons, hc, if_true] using ih
    · simp only [List.cons_append, List.dropWhile_cons, hc, Bool.false_eq_true, if_false]

/-- What stands before a `/` does not matter to what follows it. -/
theorem lowercaseAfter_of_slash (before earlier text : Chars) :
    lowercaseAfter (before ++ '/' :: earlier) text = lowercaseAfter before text := by
  induction text generalizing before with
  | nil => rfl
  | cons c cs ih =>
    have hrest := ih (c :: before)
    rw [List.cons_append] at hrest
    rw [lowercaseAfter, lowercaseAfter, meetsCased_append_slash, hrest]

/-- A slash is its own small form, and what follows it is lowered as if it stood at the
beginning. -/
theorem lowercaseAfter_slash_cons (before text : Chars) :
    lowercaseAfter before ('/' :: text) = '/' :: lowercase text := by
  have hslash : lowerChar '/' = ['/'] := by decide
  have hne : ('/' : Char) ≠ 'Σ' := by decide
  have hrest := lowercaseAfter_of_slash [] before text
  rw [List.nil_append] at hrest
  rw [lowercaseAfter, if_neg hne, hslash, hrest]
  rfl

/-- The small form of a text with a `/` in it is that of both sides. -/
theorem lowercaseAfter_append_slash (before text rest : Chars) :
    lowercaseAfter before (text ++ '/' :: rest) =
      lowercaseAfter before text ++ '/' :: lowercase rest := by
  induction text generalizing before with
  | nil => exact lowercaseAfter_slash_cons before rest
  | cons c cs ih =>
    rw [List.cons_append, lowercaseAfter, lowercaseAfter, meetsCased_append_slash, ih,
      List.append_assoc]

/-- The small form of joined pieces: what stands before the first matters to the first only. -/
theorem lowercaseAfter_joinWith (before piece : Chars) (pieces : List Chars) :
    lowercaseAfter before (joinWith '/' (piece :: pieces)) =
      joinWith '/' (lowercaseAfter before piece :: pieces.map lowercase) := by
  induction pieces generalizing before piece with
  | nil => rfl
  | cons other others ih =>
    have hrest : lowercase (joinWith '/' (other :: others)) =
        joinWith '/' ((other :: others).map lowercase) := ih [] other
    have hmap : (other :: others).map lowercase ≠ [] := by simp
    rw [joinWith_cons piece (List.cons_ne_nil other others), lowercaseAfter_append_slash, hrest,
      joinWith_cons _ hmap]

/-- A character of ASCII has its small letter whatever its neighbours. -/
theorem lowercaseAfter_cons_ascii (before : Chars) {c : Char} (h : c.toNat < 0x80) (rest : Chars) :
    lowercaseAfter before (c :: rest) = c.toLower :: lowercaseAfter (c :: before) rest := by
  have hsigma : c ≠ 'Σ' := by
    rintro rfl
    exact absurd h (by decide)
  rw [lowercaseAfter, if_neg hsigma, lowerChar, if_pos h]
  rfl

/-- The small form of a text ends with the small form of its end, seen in its place. -/
theorem lowercaseAfter_append (before first second : Chars) :
    ∃ start, lowercaseAfter before (first ++ second) =
      start ++ lowercaseAfter (first.reverse ++ before) second := by
  induction first generalizing before with
  | nil => exact ⟨[], rfl⟩
  | cons c cs ih =>
    obtain ⟨start, hstart⟩ := ih (c :: before)
    rw [List.cons_append, lowercaseAfter, hstart, List.reverse_cons, List.append_assoc]
    exact ⟨_, (List.append_assoc _ _ _).symm⟩

/-- A text ends in `/` when its small form does. -/
theorem getLast?_lowercase_ne_slash {text : Chars} (h : text.getLast? ≠ some '/') :
    (lowercase text).getLast? ≠ some '/' := by
  rcases List.eq_nil_or_concat text with rfl | ⟨start, last, rfl⟩
  · simp [lowercase, lowercaseAfter]
  · have hlast : last ≠ '/' := by simpa using h
    obtain ⟨small, hsmall⟩ := lowercaseAfter_append [] start [last]
    have hne : lowercaseAfter (start.reverse ++ []) [last] ≠ [] :=
      lowercaseAfter_ne_nil _ (by simp)
    have hmem := List.getLast_mem hne
    rw [lowercase, List.concat_eq_append, hsmall, List.getLast?_append,
      List.getLast?_eq_some_getLast hne, Option.some_or]
    intro hslash
    rw [Option.some.inj hslash, mem_lowercaseAfter_iff (by decide)] at hmem
    exact hlast (List.mem_singleton.1 hmem).symm

end AutoImport.Text
