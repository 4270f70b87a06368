import AutoImport.Proofs.Text.WordPieces
import AutoImport.Version

/-!
# Layouts of version ranges

A range is written as alternatives with `||` between them, and an alternative as tokens with blanks
between them; blanks may also stand around the tokens, and an alternative may have none at all.
`Layout` is a range as it stands in a text, over tokens of any kind, and `Layout.text` that text.

A range is read by cutting at `||` and then at blanks.  If no token is empty or holds a blank or a
bar, this gives the alternatives and their tokens back (`Layout.admits_text`), whatever the blanks.
So what a range admits is settled token by token.
-/

set_option autoImplicit false

namespace AutoImport.VersionRange

/-! ## Texts -/

/-- What may stand between blanks and bars. -/
structure IsWord (word : Chars) : Prop where
  ne_nil : word ≠ []
  noBlank : ∀ c ∈ word, Text.isBlank c = false
  noBar : '|' ∉ word

/-- Blanks, or nothing. -/
structure Blanks where
  text : Chars
  isBlank : ∀ c ∈ text, Text.isBlank c = true

/-- At least one blank. -/
structure Gap extends Blanks where
  ne_nil : text ≠ []

/-- An alternative as it is written. -/
inductive Alternative (α : Type) where
  | blank (blanks : Blanks)
  | row (lead : Blanks) (first : α) (others : List (Gap × α)) (trail : Blanks)

/-- A range as it is written; it has at least one alternative. -/
structure Layout (α : Type) where
  first : Alternative α
  others : List (Alternative α)

section

variable {α : Type} (write : α → Chars)

/-- The tokens of an alternative. -/
def Alternative.tokens : Alternative α → List α
  | .blank _ => []
  | .row _ first others _ => first :: others.map Prod.snd

/-- Further tokens, with a gap before each. -/
def followers (others : List (Gap × α)) : Chars :=
  others.flatMap fun (gap, token) => gap.text ++ write token

/-- The text of an alternative. -/
def Alternative.text : Alternative α → Chars
  | .blank blanks => blanks.text
  | .row lead first others trail =>
    lead.text ++ (write first ++ (followers write others ++ trail.text))

/-- The alternatives of a range. -/
def Layout.alternatives (layout : Layout α) : List (Alternative α) :=
  layout.first :: layout.others

/-- The text of a range. -/
def Layout.text (layout : Layout α) : Chars :=
  layout.first.text write ++
    layout.others.flatMap fun alternative => '|' :: '|' :: alternative.text write

end

/-! ## Cutting at blanks -/

section

variable {α : Type} {write : α → Chars}

/-- After a token there is a blank or nothing. -/
theorem isBlank_head?_followers (write : α → Chars) (others : List (Gap × α)) (trail : Blanks) :
    ∀ c ∈ (followers write others ++ trail.text).head?, Text.isBlank c = true := by
  intro c hc
  cases others with
  | nil => exact trail.isBlank c (List.mem_of_mem_head? hc)
  | cons other rest =>
    obtain ⟨gap, token⟩ := other
    obtain ⟨d, ds, hgap⟩ := List.exists_cons_of_ne_nil gap.ne_nil
    have hd : d = c := by simpa [followers, hgap] using hc
    exact gap.isBlank c (by simp [hgap, hd])

/-- The words of written tokens are those tokens, whatever blanks stand between them. -/
theorem words_append_followers (hwrite : ∀ token, IsWord (write token)) (token : α)
    (others : List (Gap × α)) (trail : Blanks) :
    Text.words (write token ++ (followers write others ++ trail.text)) =
      (token :: others.map Prod.snd).map write := by
  have hblank := isBlank_head?_followers write others trail
  rw [Text.words_append (hwrite token).ne_nil (hwrite token).noBlank hblank]
  induction others generalizing token with
  | nil => simp [followers, Text.words_of_isBlank trail.isBlank]
  | cons other rest ih =>
    obtain ⟨gap, next⟩ := other
    have hrest := isBlank_head?_followers write rest trail
    have hsplit : followers write ((gap, next) :: rest) ++ trail.text =
        gap.text ++ (write next ++ (followers write rest ++ trail.text)) := by
      simp [followers]
    rw [hsplit, Text.words_append_of_isBlank gap.isBlank,
      Text.words_append (hwrite next).ne_nil (hwrite next).noBlank hrest, ih next hrest]
    rfl

/-- Cutting an alternative at blanks gives its tokens. -/
theorem Alternative.words_text (hwrite : ∀ token, IsWord (write token))
    (alternative : Alternative α) :
    Text.words (alternative.text write) = alternative.tokens.map write := by
  cases alternative with
  | blank blanks => exact Text.words_of_isBlank blanks.isBlank
  | row lead first others trail =>
    unfold Alternative.text
    rw [Text.words_append_of_isBlank lead.isBlank, words_append_followers hwrite]
    rfl

/-! ## Cutting at bars -/

/-- There is no bar among blanks. -/
theorem Blanks.noBar (blanks : Blanks) : '|' ∉ blanks.text := fun h =>
  absurd (blanks.isBlank '|' h) (by decide)

/-- There is no bar in a written alternative. -/
theorem Alternative.noBar (hwrite : ∀ token, IsWord (write token))
    (alternative : Alternative α) : '|' ∉ alternative.text write := by
  cases alternative with
  | blank blanks => exact blanks.noBar
  | row lead first others trail =>
    have hothers : '|' ∉ followers write others := by
      intro hbar
      obtain ⟨⟨gap, token⟩, -, hbar⟩ := List.mem_flatMap.1 hbar
      rcases List.mem_append.1 hbar with hbar | hbar
      · exact gap.noBar hbar
      · exact (hwrite token).noBar hbar
    simp only [Alternative.text, List.mem_append, not_or]
    exact ⟨lead.noBar, (hwrite first).noBar, hothers, trail.noBar⟩

/-- Cutting a range at `||` gives its alternatives. -/
theorem Layout.splitOnDoubleBar_text (hwrite : ∀ token, IsWord (write token))
    (layout : Layout α) :
    Text.splitOnDoubleBar (layout.text write) =
      layout.alternatives.map (Alternative.text write) := by
  obtain ⟨first, others⟩ := layout
  unfold Layout.text Layout.alternatives
  induction others generalizing first with
  | nil => simp [Text.splitOnDoubleBar_of_not_mem (first.noBar hwrite)]
  | cons next rest ih =>
    rw [List.flatMap_cons, List.cons_append, List.cons_append,
      Text.splitOnDoubleBar_append (first.noBar hwrite), ih next]
    rfl

/-- A version lies in a written range if it meets every token of some alternative. -/
theorem Layout.admits_text (hwrite : ∀ token, IsWord (write token)) (layout : Layout α)
    (version : Version) :
    admits (.ofList (layout.text write)) version =
      layout.alternatives.any fun alternative =>
        alternative.tokens.all fun token => meetsToken version (write token) := by
  unfold admits
  rw [String.toList_ofList, layout.splitOnDoubleBar_text hwrite, List.any_map]
  congr 1
  funext alternative
  rw [Function.comp_apply, meetsAlternative, alternative.words_text hwrite, List.all_map]
  rfl

end

end AutoImport.VersionRange
