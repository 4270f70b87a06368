import AutoImport.Proofs.Text.SmallForms

/-!
# Names in ASCII

Case is ignored in two ways: by the small form of a text, which knows all letters, and by the small
letters of ASCII alone.  They find the same spellings of a name in ASCII (`lowercase_eq_iff`), for
no letter outside ASCII has its small form there, except the Kelvin sign, whose small form is
`k`. -/

set_option autoImplicit false

namespace AutoImport.Text

/-- A character of ASCII that no character outside ASCII has for its small form. -/
def IsOwnSmallForm (c : Char) : Prop :=
  0 < c.toNat ∧ c.toNat < 0x80 ∧ c ≠ 'k'

instance (c : Char) : Decidable (IsOwnSmallForm c) :=
  inferInstanceAs (Decidable (_ ∧ _))

/-- The runs of the table lead out of ASCII, but for one of a single character. -/
theorem outsideAscii_of_mem_lowerRuns :
    ∀ run ∈ lowerRuns, (0x80 : Int) ≤ (run.1 : Int) + run.2.2.2 ∨
      run.1 = run.2.1 ∧ (run.1 : Int) + run.2.2.2 = 'k'.toNat := by
  decide +kernel

/-- The small form of a character outside ASCII is one that other characters have too, or not of
ASCII. -/
theorem not_isOwn_lowerOutsideAscii {c : Char} (hc : 0x80 ≤ c.toNat) :
    ¬IsOwnSmallForm (lowerOutsideAscii c) := by
  rintro ⟨hpos, hascii, hk⟩
  rcases lowerOutsideAscii_cases c with ⟨run, hrun, ⟨hfirst, hlast, -⟩, hsmall⟩ | ⟨-, hself⟩
  · rw [hsmall] at hpos hascii hk
    rcases toNat_ofNat_cases (c.toNat + run.2.2.2).toNat with hvalid | hzero
    · rcases outsideAscii_of_mem_lowerRuns run hrun with hout | ⟨hsingle, hkelvin⟩
      · omega
      · have hcode : (c.toNat + run.2.2.2).toNat = 'k'.toNat := by omega
        exact hk (by rw [hcode, Char.ofNat_toNat])
    · omega
  · rw [hself] at hascii
    omega

/-- A character with such a small form is one of ASCII. -/
theorem ascii_of_lowerChar {c : Char} (h : ∀ small ∈ lowerChar c, IsOwnSmallForm small) :
    c.toNat < 0x80 := by
  by_contra hc
  have houtside : 0x80 ≤ c.toNat := Nat.not_lt.1 hc
  unfold lowerChar at h
  rw [if_neg hc] at h
  split at h
  · exact absurd (h (Char.ofNat 0x307) (by simp)) (by decide)
  · exact not_isOwn_lowerOutsideAscii houtside (h _ List.mem_cons_self)

/-- A character is of ASCII when its small form is. -/
theorem ascii_of_toLower {c : Char} (h : c.toLower.toNat < 0x80) : c.toNat < 0x80 := by
  by_contra hc
  have hself : c.toLower = c := by
    unfold Char.toLower
    rw [dif_neg]
    rintro ⟨-, hcapital⟩
    have : c.toNat ≤ 90 := UInt32.le_iff_toNat_le.1 hcapital
    omega
  exact hc (hself ▸ h)

/-- In ASCII the small form is taken letter by letter. -/
theorem lowercaseAfter_of_ascii {text : Chars} (h : ∀ c ∈ text, c.toNat < 0x80) (before : Chars) :
    lowercaseAfter before text = asciiLowercase text := by
  induction text generalizing before with
  | nil => rfl
  | cons c cs ih =>
    rw [lowercaseAfter_cons_ascii before (h c List.mem_cons_self),
      ih fun d hd => h d (List.mem_cons_of_mem c hd)]
    rfl

/-- A text is of ASCII when its small form has only characters that nothing else becomes. -/
theorem ascii_of_lowercaseAfter {before text : Chars}
    (h : ∀ small ∈ lowercaseAfter before text, IsOwnSmallForm small) :
    ∀ c ∈ text, c.toNat < 0x80 := by
  induction text generalizing before with
  | nil => simp
  | cons c cs ih =>
    rw [lowercaseAfter] at h
    have hfirst := fun small hs => h small (List.mem_append_left _ hs)
    have hrest := ih fun small hs => h small (List.mem_append_right _ hs)
    intro d hd
    rcases List.mem_cons.1 hd with rfl | hd
    · split at hfirst
      · split at hfirst
        · exact absurd (hfirst 'ς' List.mem_cons_self) (by decide)
        · exact absurd (hfirst 'σ' List.mem_cons_self) (by decide)
      · exact ascii_of_lowerChar hfirst
    · exact hrest d hd

/-- A text spells a name of ASCII in one way of ignoring case if it does in the other. -/
theorem lowercase_eq_iff {text name : Chars} (hname : ∀ c ∈ name, IsOwnSmallForm c) :
    lowercase text = name ↔ asciiLowercase text = name := by
  unfold lowercase
  constructor
  · rintro rfl
    exact (lowercaseAfter_of_ascii (ascii_of_lowercaseAfter hname) []).symm
  · rintro rfl
    refine lowercaseAfter_of_ascii (fun c hc => ?_) []
    exact ascii_of_toLower (hname c.toLower (List.mem_map_of_mem hc)).2.1

end AutoImport.Text
