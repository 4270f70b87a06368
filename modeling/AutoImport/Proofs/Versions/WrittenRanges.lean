import AutoImport.Proofs.Text.SeparatorPieces
import AutoImport.Proofs.Versions.RangeLayouts
import Mathlib.Data.Bool.AllAny
import Mathlib.Data.List.TakeWhile
import Mathlib.Data.Prod.Lex

/-!
# Version ranges are read as written

A token of a range is `*`, which holds of every version; a series `4.x` or `4.*`, which fixes the
major number; or a bound such as `>=4.1`, compared in the lexicographic order of the three numbers,
where a number that is not written is zero.  `Token` is the syntax and `Token.Holds` the meaning.

There is no parser between the two: a token is told by how it ends, then by how it begins, and the
rest is cut at the dots.  No written token is taken for one of another kind (`meetsToken_text`), so
a range admits the versions of which every token of some alternative holds (`admits_text_iff`), with
any blanks around the tokens and any zeros before the numbers.
-/

set_option autoImplicit false

namespace AutoImport

/-- A digit is not a character that is no digit. -/
theorem ne_of_isDigit {c d : Char} (hc : c.isDigit = true) (hd : d.isDigit = false) : c ≠ d := by
  rintro rfl
  rw [hc] at hd
  cases hd

/-! ## Versions in order -/

/-- The numbers of a version in lexicographic order. -/
def Version.key (version : Version) : ℕ ×ₗ ℕ ×ₗ ℕ :=
  toLex (version.major, toLex (version.minor, version.patch))

/-- Versions with the same key are the same. -/
theorem Version.key_inj {v w : Version} : v.key = w.key ↔ v = w := by
  obtain ⟨major, minor, patch⟩ := v
  obtain ⟨major', minor', patch'⟩ := w
  simp [key]

/-- A version is less than another when its key is. -/
theorem Version.less_iff {v w : Version} : v.less w = true ↔ v.key < w.key := by
  unfold less key
  rw [Prod.Lex.toLex_lt_toLex, Prod.Lex.toLex_lt_toLex]
  simp only [Bool.or_eq_true, Bool.and_eq_true, decide_eq_true_eq]

namespace Comparison

/-- What a comparison says of two elements of an order. -/
def Relates {α : Type} [LE α] [LT α] : Comparison → α → α → Prop
  | .atLeast, a, b => b ≤ a
  | .atMost, a, b => a ≤ b
  | .above, a, b => b < a
  | .below, a, b => a < b
  | .equal, a, b => a = b

/-- A comparison of versions is that of their keys. -/
theorem holds_iff_relates {comparison : Comparison} {version bound : Version} :
    comparison.holds version bound = true ↔ comparison.Relates version.key bound.key := by
  cases comparison with
  | atLeast => simp [holds, Relates, ← not_lt, ← Version.less_iff]
  | atMost => simp [holds, Relates, ← not_lt, ← Version.less_iff]
  | above => exact Version.less_iff
  | below => exact Version.less_iff
  | equal => simp [holds, Relates, Version.key_inj]

/-- How a comparison is written. -/
def sign : Comparison → Chars
  | .atLeast => ['>', '=']
  | .atMost => ['<', '=']
  | .above => ['>']
  | .below => ['<']
  | .equal => ['=']

/-- What stands before a bound: a sign or nothing, which is read as equality. -/
def lead : Option Comparison → Chars
  | some comparison => comparison.sign
  | none => []

/-- What stands before a bound consists of signs. -/
theorem lead_subset (comparison : Option Comparison) : lead comparison ⊆ ['>', '<', '='] := by
  cases comparison with
  | none => decide
  | some comparison => cases comparison <;> decide

/-- What is read before a bound is what was written: no sign is taken for the beginning of a longer
one, nor a digit for a sign. -/
theorem split_lead_append (comparison : Option Comparison) {d : Char} (hd : d.isDigit = true)
    (rest : Chars) :
    split (lead comparison ++ d :: rest) = (comparison.getD .equal, d :: rest) := by
  have hequal : d ≠ '=' := ne_of_isDigit hd (by decide)
  rcases comparison with - | (- | - | - | - | -)
  · have habove : d ≠ '>' := ne_of_isDigit hd (by decide)
    have hbelow : d ≠ '<' := ne_of_isDigit hd (by decide)
    simp [lead, split, habove, hbelow, hequal]
  · rfl
  · rfl
  · simp [lead, sign, split, hequal]
  · simp [lead, sign, split, hequal]
  · rfl

end Comparison

namespace VersionRange

/-! ## Numbers -/

/-- A number below 2³² as it is written: in decimal digits, perhaps after zeros. -/
structure Numeral where
  value : UInt32
  zeros : Nat := 0

/-- The digits of a number. -/
def Numeral.text (numeral : Numeral) : Chars :=
  List.replicate numeral.zeros '0' ++ Nat.toDigits 10 numeral.value.toNat

/-- A numeral consists of digits. -/
theorem Numeral.isDigit (numeral : Numeral) : ∀ c ∈ numeral.text, c.isDigit = true := by
  intro c hc
  rcases List.mem_append.1 hc with hc | hc
  · rw [List.eq_of_mem_replicate hc]
    rfl
  · exact Nat.isDigit_of_mem_toDigits (by decide) (by decide) hc

/-- A numeral is not empty. -/
theorem Numeral.ne_nil (numeral : Numeral) : numeral.text ≠ [] :=
  List.append_ne_nil_of_right_ne_nil _ Nat.toDigits_ne_nil

/-- A numeral is read as its value. -/
theorem Numeral.decimalValue?_text (numeral : Numeral) :
    Text.decimalValue? numeral.text = some numeral.value.toNat := by
  have hvalue : Nat.ofDigitChars 10 numeral.text 0 = numeral.value.toNat := by
    rw [text, Nat.ofDigitChars_append, Nat.ofDigitChars_replicate_zero, Nat.mul_zero,
      Nat.ofDigitChars_ten_toDigits]
  have hdigits : numeral.text.all Char.isDigit = true := List.all_eq_true.2 numeral.isDigit
  unfold Text.decimalValue?
  rw [hdigits, if_neg (by simp [numeral.ne_nil])]
  exact congrArg some hvalue

/-- No digit is a blank. -/
theorem isBlank_of_isDigit {c : Char} (hc : c.isDigit = true) : Text.isBlank c = false := by
  have hdigit : 48 ≤ c.toNat ∧ c.toNat ≤ 57 := by
    simpa [Char.isDigit, UInt32.le_iff_toNat_le] using hc
  have hbeside : ∀ range ∈ Text.blankRanges, range.2 < 48 ∨ 57 < range.1 :=
    List.all_iff_forall_prop.1 (by decide)
  refine List.any_eq_false.2 fun range hrange hinside => ?_
  obtain ⟨hfirst, hlast⟩ : range.1 ≤ c.toNat ∧ c.toNat ≤ range.2 := by simpa using hinside
  have := hbeside range hrange
  omega

/-- A numeral begins with a digit. -/
theorem Numeral.exists_cons (numeral : Numeral) :
    ∃ d ds, numeral.text = d :: ds ∧ d.isDigit = true := by
  obtain ⟨d, ds, htext⟩ := List.exists_cons_of_ne_nil numeral.ne_nil
  exact ⟨d, ds, htext, numeral.isDigit d (htext ▸ List.mem_cons_self)⟩

/-- A character that is no digit does not occur in a numeral. -/
theorem Numeral.not_mem (numeral : Numeral) {c : Char} (hc : c.isDigit = false) :
    c ∉ numeral.text := fun h =>
  ne_of_isDigit (numeral.isDigit c h) hc rfl

/-- A written number is read as its value. -/
theorem Numeral.unsigned32?_text (numeral : Numeral) :
    Text.unsigned32? numeral.text = some numeral.value.toNat := by
  obtain ⟨d, ds, htext, hd⟩ := numeral.exists_cons
  have hplus : Text.stripPrefix? ['+'] numeral.text = none := by
    refine Text.stripPrefix?_of_head?_ne [] ?_
    rw [htext]
    simpa using ne_of_isDigit hd (by decide)
  unfold Text.unsigned32?
  dsimp only
  rw [hplus, Option.getD_none, numeral.decimalValue?_text]
  exact if_pos numeral.value.toNat_lt

/-! ## Bounds -/

/-- One, two or three numbers with dots between them. -/
inductive Bound where
  | one (major : Numeral)
  | two (major minor : Numeral)
  | three (major minor patch : Numeral)

namespace Bound

/-- The numbers that are written. -/
def numerals : Bound → List Numeral
  | .one major => [major]
  | .two major minor => [major, minor]
  | .three major minor patch => [major, minor, patch]

/-- The text of a bound. -/
def text (bound : Bound) : Chars :=
  Text.joinWith '.' (bound.numerals.map Numeral.text)

/-- The version that a bound stands for. -/
def version : Bound → Version
  | .one major => ⟨major.value.toNat, 0, 0⟩
  | .two major minor => ⟨major.value.toNat, minor.value.toNat, 0⟩
  | .three major minor patch => ⟨major.value.toNat, minor.value.toNat, patch.value.toNat⟩

/-- A bound consists of digits and dots. -/
theorem isDigit_or_dot (bound : Bound) : ∀ c ∈ bound.text, c.isDigit = true ∨ c = '.' := by
  intro c hc
  rcases Text.mem_joinWith hc with hdot | ⟨piece, hpiece, hc⟩
  · exact Or.inr hdot
  · obtain ⟨numeral, -, rfl⟩ := List.mem_map.1 hpiece
    exact Or.inl (numeral.isDigit c hc)

/-- A bound begins with a digit. -/
theorem exists_cons (bound : Bound) : ∃ d ds, bound.text = d :: ds ∧ d.isDigit = true := by
  obtain ⟨first, others, hnumerals⟩ :
      ∃ first others, bound.numerals = first :: others := by
    cases bound <;> exact ⟨_, _, rfl⟩
  obtain ⟨d, ds, hfirst, hd⟩ := first.exists_cons
  have hhead : bound.text.head? = some d := by
    rw [text, hnumerals, List.map_cons, Text.head?_joinWith first.ne_nil, hfirst]
    rfl
  obtain ⟨tail, htail⟩ := List.head?_eq_some_iff.1 hhead
  exact ⟨d, tail, htail, hd⟩

/-- A bound splits at its dots into its numerals. -/
theorem splitOn_text (bound : Bound) :
    Text.splitOn '.' bound.text = bound.numerals.map Numeral.text := by
  refine Text.splitOn_joinWith ?_ ?_
  · cases bound <;> exact List.cons_ne_nil _ _
  · intro piece hpiece
    obtain ⟨numeral, -, rfl⟩ := List.mem_map.1 hpiece
    exact numeral.not_mem (by decide)

/-- A written bound is read as its version: nothing of it is trimmed or cut off. -/
theorem ofChars?_text (bound : Bound) : Version.ofChars? bound.text = some bound.version := by
  obtain ⟨d, ds, htext, hd⟩ := bound.exists_cons
  have htrim : Text.trim bound.text = bound.text := by
    refine Text.trim_of_forall fun c hc => ?_
    rcases bound.isDigit_or_dot c hc with hc | rfl
    · exact isBlank_of_isDigit hc
    · decide
  have hmark : bound.text.dropWhile (· = 'v') = bound.text := by
    rw [htext]
    exact List.dropWhile_cons_of_neg (by simpa using ne_of_isDigit hd (by decide))
  have hcore : bound.text.takeWhile (fun c => c ≠ '-' ∧ c ≠ '+') = bound.text := by
    refine List.takeWhile_eq_self_iff.2 fun c hc => ?_
    rcases bound.isDigit_or_dot c hc with hc | rfl
    · simp [ne_of_isDigit hc (d := '-') (by decide), ne_of_isDigit hc (d := '+') (by decide)]
    · decide
  unfold Version.ofChars?
  dsimp only
  rw [htrim, hmark, hcore, bound.splitOn_text]
  cases bound with
  | one major => simp [numerals, version, Version.part?, Numeral.unsigned32?_text]
  | two major minor => simp [numerals, version, Version.part?, Numeral.unsigned32?_text]
  | three major minor patch => simp [numerals, version, Version.part?, Numeral.unsigned32?_text]

end Bound

/-! ## Tokens -/

/-- What stands for all numbers that follow. -/
inductive Wildcard where
  | letter
  | star

/-- How a wildcard is written. -/
def Wildcard.mark : Wildcard → Char
  | .letter => 'x'
  | .star => '*'

/-- The syntax of tokens. -/
inductive Token where
  | any
  | series (major : Numeral) (wildcard : Wildcard)
  | compared (comparison : Option Comparison) (bound : Bound)

namespace Token

/-- The text of a token. -/
def text : Token → Chars
  | .any => ['*']
  | .series major wildcard => major.text ++ '.' :: [wildcard.mark]
  | .compared comparison bound => Comparison.lead comparison ++ bound.text

/-- The meaning of a token; a bound without a comparison is to be met exactly. -/
def Holds (version : Version) : Token → Prop
  | .any => True
  | .series major _ => version.major = major.value.toNat
  | .compared comparison bound =>
    (comparison.getD .equal).Relates version.key bound.version.key

end Token

/-- What tokens are made of besides digits. -/
def marks : Chars :=
  ['.', 'x', '*', '>', '<', '=']

/-- Wildcards are among the marks. -/
theorem Wildcard.mem_marks (wildcard : Wildcard) : wildcard.mark ∈ marks := by
  cases wildcard <;> decide

/-- What stands before a bound is among the marks. -/
theorem lead_subset_marks (comparison : Option Comparison) :
    Comparison.lead comparison ⊆ marks :=
  List.Subset.trans (Comparison.lead_subset comparison) (by decide)

/-- What consists of digits and marks is a word. -/
theorem isWord_of_marks {word : Chars} (hne : word ≠ [])
    (h : ∀ c ∈ word, c.isDigit = true ∨ c ∈ marks) : IsWord word := by
  have hmarks : ∀ c ∈ marks, Text.isBlank c = false ∧ c ≠ '|' :=
    List.all_iff_forall_prop.1 (by decide)
  refine ⟨hne, fun c hc => ?_, fun hbar => ?_⟩
  · rcases h c hc with hc | hc
    · exact isBlank_of_isDigit hc
    · exact (hmarks c hc).1
  · rcases h '|' hbar with hc | hc
    · exact absurd hc (by decide)
    · exact absurd rfl (hmarks '|' hc).2

/-! ## Reading a token -/

/-- A dot and a wildcard at its end make a token one that only looks at the major number. -/
theorem isWildcard_append (start : Chars) (wildcard : Wildcard) :
    isWildcard (start ++ ['.', wildcard.mark]) = true := by
  have hsuffix : ['.', wildcard.mark].isSuffixOf (start ++ ['.', wildcard.mark]) = true :=
    List.isSuffixOf_iff_suffix.2 (List.suffix_append _ _)
  unfold isWildcard
  rw [Bool.or_eq_true, Bool.or_eq_true]
  cases wildcard with
  | letter => exact Or.inl (Or.inr hsuffix)
  | star => exact Or.inr hsuffix

/-- What holds neither an `x` nor a star is no wildcard. -/
theorem isWildcard_of_not_mem {token : Chars} (hletter : 'x' ∉ token) (hstar : '*' ∉ token) :
    isWildcard token = false := by
  have hsuffix : ∀ {mark : Char}, mark ∉ token → ['.', mark].isSuffixOf token = false := by
    intro mark hmark
    refine Bool.eq_false_iff.2 fun h => hmark ?_
    exact (List.isSuffixOf_iff_suffix.1 h).subset (by simp)
  have hany : token ≠ ['*'] := by
    rintro rfl
    exact hstar List.mem_cons_self
  simp [isWildcard, hany, hsuffix hletter, hsuffix hstar]

/-- Of a token that ends in a wildcard the piece before the first dot is read. -/
theorem meetsToken_of_isWildcard (version : Version) {piece more : Chars} (hdot : '.' ∉ piece)
    (hwildcard : isWildcard (piece ++ '.' :: more) = true) :
    meetsToken version (piece ++ '.' :: more) =
      match Text.unsigned32? piece with
      | some major => decide (major = version.major)
      | none => true := by
  unfold meetsToken
  rw [if_pos hwildcard, Text.splitOn_append hdot]
  rfl

/-- A token that is no wildcard is met as its comparison with its bound says. -/
theorem meetsToken_of_not_isWildcard (version : Version) {token : Chars}
    (hwildcard : isWildcard token = false) {comparison : Comparison} {bound : Bound}
    (hsplit : Comparison.split token = (comparison, bound.text)) :
    meetsToken version token = comparison.holds version bound.version := by
  unfold meetsToken
  rw [hwildcard, hsplit]
  simp [bound.ofChars?_text]

namespace Token

/-- A token consists of digits and marks. -/
theorem isDigit_or_mark (token : Token) : ∀ c ∈ token.text, c.isDigit = true ∨ c ∈ marks := by
  intro c hc
  cases token with
  | any => exact Or.inr (List.mem_singleton.1 hc ▸ by decide)
  | series major wildcard =>
    rcases List.mem_append.1 hc with hc | hc
    · exact Or.inl (major.isDigit c hc)
    · rcases List.mem_pair.1 hc with rfl | rfl
      · exact Or.inr List.mem_cons_self
      · exact Or.inr wildcard.mem_marks
  | compared comparison bound =>
    rcases List.mem_append.1 hc with hc | hc
    · exact Or.inr (lead_subset_marks comparison hc)
    · rcases bound.isDigit_or_dot c hc with hc | rfl
      · exact Or.inl hc
      · exact Or.inr List.mem_cons_self

/-- A token is not empty. -/
theorem ne_nil (token : Token) : token.text ≠ [] := by
  cases token with
  | any => exact List.cons_ne_nil _ _
  | series major wildcard => exact List.append_ne_nil_of_left_ne_nil major.ne_nil _
  | compared comparison bound =>
    obtain ⟨d, ds, htext, -⟩ := bound.exists_cons
    simp [text, htext]

/-- Every token is written as a word. -/
theorem isWord (token : Token) : IsWord token.text :=
  isWord_of_marks token.ne_nil token.isDigit_or_mark

/-- A bound is not taken for a wildcard. -/
theorem isWildcard_compared (comparison : Option Comparison) (bound : Bound) :
    isWildcard (text (.compared comparison bound)) = false := by
  have hnot : ∀ {c : Char}, c.isDigit = false → c ∉ ['.', '>', '<', '='] →
      c ∉ text (.compared comparison bound) := by
    intro c hdigit hmark hc
    rcases List.mem_append.1 hc with hc | hc
    · exact hmark (List.mem_cons_of_mem _ (Comparison.lead_subset comparison hc))
    · rcases bound.isDigit_or_dot c hc with hc | rfl
      · exact ne_of_isDigit hc hdigit rfl
      · exact hmark List.mem_cons_self
  exact isWildcard_of_not_mem (hnot (by decide) (by decide)) (hnot (by decide) (by decide))

/-- A version meets a written token if what the token says holds of it. -/
theorem meetsToken_text (version : Version) (token : Token) :
    meetsToken version token.text = true ↔ token.Holds version := by
  cases token with
  | any => exact iff_of_true rfl trivial
  | series major wildcard =>
    have hread := meetsToken_of_isWildcard version (major.not_mem (c := '.') (by decide))
      (isWildcard_append major.text wildcard)
    rw [text, hread, major.unsigned32?_text]
    simp [Holds, eq_comm]
  | compared comparison bound =>
    obtain ⟨d, ds, htext, hd⟩ := bound.exists_cons
    have hsplit : Comparison.split (text (.compared comparison bound)) =
        (comparison.getD .equal, bound.text) := by
      rw [text, htext, Comparison.split_lead_append comparison hd]
    rw [meetsToken_of_not_isWildcard version (isWildcard_compared comparison bound) hsplit,
      Comparison.holds_iff_relates]
    rfl

end Token

/-! ## Ranges -/

/-- A version lies in a written range if, and only if, every token of some alternative holds of it:
no token is read as anything but what is written, whatever the blanks and the zeros. -/
theorem admits_text_iff (range : Layout Token) (version : Version) :
    admits (.ofList (range.text Token.text)) version = true ↔
      ∃ alternative ∈ range.alternatives, ∀ token ∈ alternative.tokens, token.Holds version := by
  rw [range.admits_text Token.isWord]
  simp only [List.any_eq_true, List.all_eq_true, Token.meetsToken_text]

end VersionRange

end AutoImport
