import AutoImport.Entrypoints
import AutoImport.Proofs.Versions.WrittenRanges

/-!
# Refined wildcards

A wildcard may be refined: `4.1.x` means the versions whose major number is 4 and whose minor number
is 1, and `<4.x` those whose major number is below 4.  Neither is read so.  Any token that ends in a
wildcard is settled before its comparison and its minor number are looked at: `4.1.x` is read as
`4.x`, and `<4.x`, whose piece before the dot is no number, as `*` (`RefinedToken.readAs`).

So a refined wildcard never refuses a version that it means, but it admits others
(`admits_refined_iff`): old declarations under `<4.x` are offered to every compiler
(`admits_below_series`).
-/

set_option autoImplicit false

namespace AutoImport.VersionRange

/-- The syntax of tokens with refined wildcards. -/
inductive RefinedToken where
  | plain (token : Token)
  | minorSeries (major minor : Numeral) (wildcard : Wildcard)
  | comparedSeries (comparison : Comparison) (major : Numeral) (wildcard : Wildcard)

namespace RefinedToken

/-- The text of a token. -/
def text : RefinedToken → Chars
  | .plain token => token.text
  | .minorSeries major minor wildcard => major.text ++ '.' :: (Token.series minor wildcard).text
  | .comparedSeries comparison major wildcard =>
    comparison.sign ++ (Token.series major wildcard).text

/-- What a token means. -/
def Means (version : Version) : RefinedToken → Prop
  | .plain token => token.Holds version
  | .minorSeries major minor _ =>
    version.major = major.value.toNat ∧ version.minor = minor.value.toNat
  | .comparedSeries comparison major _ => comparison.Relates version.major major.value.toNat

/-- The token that a token is read as. -/
def readAs : RefinedToken → Token
  | .plain token => token
  | .minorSeries major _ wildcard => .series major wildcard
  | .comparedSeries _ _ _ => .any

/-- What is meant is not refused. -/
theorem holds_readAs_of_means {version : Version} {token : RefinedToken}
    (h : token.Means version) : token.readAs.Holds version := by
  cases token with
  | plain token => exact h
  | minorSeries major minor wildcard => exact h.1
  | comparedSeries comparison major wildcard => trivial

/-- Every refined token is written as a word. -/
theorem isWord (token : RefinedToken) : IsWord token.text := by
  cases token with
  | plain token => exact token.isWord
  | minorSeries major minor wildcard =>
    refine isWord_of_marks (List.append_ne_nil_of_left_ne_nil major.ne_nil _) fun c hc => ?_
    rcases List.mem_append.1 hc with hc | hc
    · exact Or.inl (major.isDigit c hc)
    · rcases List.mem_cons.1 hc with rfl | hc
      · exact Or.inr List.mem_cons_self
      · exact (Token.series minor wildcard).isDigit_or_mark c hc
  | comparedSeries comparison major wildcard =>
    have hne := (Token.series major wildcard).ne_nil
    refine isWord_of_marks (List.append_ne_nil_of_right_ne_nil _ hne) fun c hc => ?_
    rcases List.mem_append.1 hc with hc | hc
    · exact Or.inr (lead_subset_marks (some comparison) hc)
    · exact (Token.series major wildcard).isDigit_or_mark c hc

/-! ## Reading a refined wildcard -/

/-- No number begins with a sign. -/
theorem unsigned32?_sign_append (comparison : Comparison) (rest : Chars) :
    Text.unsigned32? (comparison.sign ++ rest) = none := by
  cases comparison <;> rfl

/-- A series of minor versions is met by the whole major series. -/
theorem meetsToken_minorSeries (version : Version) (major minor : Numeral) (wildcard : Wildcard) :
    meetsToken version (text (.minorSeries major minor wildcard)) =
      decide (major.value.toNat = version.major) := by
  have hwildcard := isWildcard_append (major.text ++ '.' :: minor.text) wildcard
  rw [List.append_assoc] at hwildcard
  have hread := meetsToken_of_isWildcard version (major.not_mem (c := '.') (by decide)) hwildcard
  rw [major.unsigned32?_text] at hread
  exact hread

/-- A compared series is met by every version. -/
theorem meetsToken_comparedSeries (version : Version) (comparison : Comparison) (major : Numeral)
    (wildcard : Wildcard) :
    meetsToken version (text (.comparedSeries comparison major wildcard)) = true := by
  have hwildcard := isWildcard_append (comparison.sign ++ major.text) wildcard
  have hdot : '.' ∉ comparison.sign ++ major.text := by
    rw [List.mem_append]
    rintro (hsign | hmajor)
    · exact absurd (Comparison.lead_subset (some comparison) hsign) (by decide)
    · exact major.not_mem (by decide) hmajor
  have hread := meetsToken_of_isWildcard version hdot hwildcard
  rw [unsigned32?_sign_append, List.append_assoc] at hread
  exact hread

/-- A version meets a token if the one that it is read as holds of the version. -/
theorem meetsToken_text (version : Version) (token : RefinedToken) :
    meetsToken version token.text = true ↔ token.readAs.Holds version := by
  cases token with
  | plain token => exact token.meetsToken_text version
  | minorSeries major minor wildcard =>
    rw [meetsToken_minorSeries, decide_eq_true_iff, eq_comm]
    rfl
  | comparedSeries comparison major wildcard =>
    exact iff_of_true (meetsToken_comparedSeries version comparison major wildcard) trivial

end RefinedToken

/-! ## Ranges with refined wildcards -/

/-- A written range admits a version exactly when the tokens that one alternative is read as all
hold. -/
theorem admits_iff_readAs (range : Layout RefinedToken) (version : Version) :
    admits (.ofList (range.text RefinedToken.text)) version = true ↔
      ∃ alternative ∈ range.alternatives,
        ∀ token ∈ alternative.tokens, token.readAs.Holds version := by
  rw [range.admits_text RefinedToken.isWord]
  simp only [List.any_eq_true, List.all_eq_true, RefinedToken.meetsToken_text]

/-- A range of one token. -/
def Layout.single {α : Type} (token : α) : Layout α :=
  { first := .row ⟨[], by simp⟩ token [] ⟨[], by simp⟩, others := [] }

/-- A single token is written as itself. -/
theorem Layout.text_single {α : Type} (write : α → Chars) (token : α) :
    (Layout.single token).text write = write token := by
  simp [single, Layout.text, Alternative.text, followers]

/-- A token alone admits a version exactly when what it is read as holds. -/
theorem admits_token_iff (token : RefinedToken) (version : Version) :
    admits (.ofList token.text) version = true ↔ token.readAs.Holds version := by
  have hsingle := admits_iff_readAs (.single token) version
  rw [Layout.text_single] at hsingle
  simpa [Layout.single, Layout.alternatives, Alternative.tokens] using hsingle

/-- A range with refined wildcards is read as if `4.1.x` were `4.x` and `<4.x` were `*`, and so it
admits every version that it means.  A refined wildcard keeps its meaning only at the versions where
the refinement makes no difference: those that have the minor number if they have the major number,
and those of which the comparison holds. -/
theorem admits_refined_iff (version : Version) :
    (∀ range : Layout RefinedToken,
      (admits (.ofList (range.text RefinedToken.text)) version = true ↔
        ∃ alternative ∈ range.alternatives,
          ∀ token ∈ alternative.tokens, token.readAs.Holds version) ∧
      ((∃ alternative ∈ range.alternatives, ∀ token ∈ alternative.tokens, token.Means version) →
        admits (.ofList (range.text RefinedToken.text)) version = true)) ∧
    (∀ (major minor : Numeral) (wildcard : Wildcard),
      (admits (.ofList (RefinedToken.text (.minorSeries major minor wildcard))) version = true →
          version.major = major.value.toNat ∧ version.minor = minor.value.toNat) ↔
        (version.major = major.value.toNat → version.minor = minor.value.toNat)) ∧
    (∀ (comparison : Comparison) (major : Numeral) (wildcard : Wildcard),
      (admits (.ofList (RefinedToken.text (.comparedSeries comparison major wildcard))) version =
          true ↔ comparison.Relates version.major major.value.toNat) ↔
        comparison.Relates version.major major.value.toNat) := by
  refine ⟨fun range => ⟨admits_iff_readAs range version, ?_⟩, ?_, ?_⟩
  · rintro ⟨alternative, hmem, hmeans⟩
    exact (admits_iff_readAs range version).2
      ⟨alternative, hmem, fun token ht => RefinedToken.holds_readAs_of_means (hmeans token ht)⟩
  · intro major minor wildcard
    have hread := admits_token_iff (.minorSeries major minor wildcard) version
    rw [hread]
    exact ⟨fun h hmajor => (h hmajor).2, fun h hmajor => ⟨hmajor, h hmajor⟩⟩
  · intro comparison major wildcard
    have hread := admits_token_iff (.comparedSeries comparison major wildcard) version
    rw [hread]
    exact iff_of_eq (true_iff _)

/-- Declarations for compilers below 4 are offered to compiler 6, and those for 6.1 to 6.0. -/
theorem admits_below_series :
    let ranges : Json.Value := .object [("<4.x", .object [("*", .array [.text "old/*"])])]
    ¬Version.compiler.major < 4 ∧ admits "<4.x" .compiler = true ∧
      admits "<4.0" .compiler = false ∧
      Entrypoints.versionedIndex? ranges = some ["old/index"] ∧
      Version.compiler.minor ≠ 1 ∧ admits "6.1.x" .compiler = true := by
  decide

end AutoImport.VersionRange
