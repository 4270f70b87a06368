import AutoImport.Proofs.Text.LowercasePieces

/-!
# Small forms stay as they are

A text in small letters is its own small form (`lowercase_lowercase`), so the key of a path is a
key.  It comes down to the table of runs: no small letter that a run leads to is a capital of any
run.  Two runs may overlap where both leave out every second code point, as capitals and small
letters often take turns; then they are out of step.
-/

set_option autoImplicit false

namespace AutoImport.Text

/-- Characters that every small form keeps. -/
structure IsSmall (c : Char) : Prop where
  notSigma : c ≠ 'Σ'
  lowerChar : lowerChar c = [c]

/-! ## The table -/

/-- A code point is a capital of the run. -/
def IsCapitalOf (run : Nat × Nat × Nat × Int) (n : Nat) : Prop :=
  run.1 ≤ n ∧ n ≤ run.2.1 ∧ (n - run.1) % run.2.2.1 = 0

/-- A character outside ASCII is a capital of one of the runs and is moved by its distance, or stays
as it is. -/
theorem lowerOutsideAscii_cases (c : Char) :
    (∃ run ∈ lowerRuns, IsCapitalOf run c.toNat ∧
      lowerOutsideAscii c = Char.ofNat (c.toNat + run.2.2.2).toNat) ∨
    (∀ run ∈ lowerRuns, ¬IsCapitalOf run c.toNat) ∧ lowerOutsideAscii c = c := by
  unfold lowerOutsideAscii
  dsimp only
  split
  · rename_i first last step distance hfind
    have hin := List.find?_some hfind
    simp only [Bool.and_eq_true, decide_eq_true_eq, and_assoc] at hin
    exact Or.inl ⟨_, List.mem_of_find?_eq_some hfind, hin, rfl⟩
  · rename_i hfind
    refine Or.inr ⟨fun run hrun => ?_, rfl⟩
    have hnot := List.find?_eq_none.1 hfind run hrun
    simpa [IsCapitalOf, and_assoc] using hnot

/-- Whether no code point from `first` to `last` is a capital of the run.  A sparse range leaves out
every second code point. -/
def avoids (first last : Nat) (isSparse : Bool) (run : Nat × Nat × Nat × Int) : Bool :=
  Nat.blt last run.1 || Nat.blt run.2.1 first ||
    (isSparse && Nat.beq run.2.2.1 2 && Nat.beq ((first + run.1) % 2) 1)

/-- The capitals outside ASCII: those of the table, and the one with a small form of two
characters. -/
def capitalRuns : List (Nat × Nat × Nat × Int) :=
  (0x130, 0x130, 1, 0) :: lowerRuns

/-- No run moves its capitals onto capitals. -/
theorem avoids_of_mem_lowerRuns :
    ∀ run ∈ lowerRuns, capitalRuns.all (avoids (run.1 + run.2.2.2).toNat
      (run.2.1 + run.2.2.2).toNat (Nat.beq run.2.2.1 2 || Nat.beq run.1 run.2.1)) = true := by
  decide +kernel

/-- The small letter of a capital is no capital. -/
theorem not_capital_of_small {n : Nat} {run : Nat × Nat × Nat × Int} (hrun : run ∈ lowerRuns)
    (hcapital : IsCapitalOf run n) {other : Nat × Nat × Nat × Int} (hother : other ∈ capitalRuns) :
    ¬IsCapitalOf other (n + run.2.2.2).toNat := by
  obtain ⟨first, last, step, distance⟩ := run
  obtain ⟨first', last', step', distance'⟩ := other
  obtain ⟨hfirst, hlast, hstep⟩ := hcapital
  have hlow := le_of_mem_lowerRuns _ hrun
  have havoids := List.all_eq_true.1 (avoids_of_mem_lowerRuns _ hrun) _ hother
  unfold avoids at havoids
  simp only [Bool.or_eq_true, Bool.and_eq_true, Nat.blt_eq, Nat.beq_eq] at havoids
  dsimp only at hlow hfirst hlast hstep ⊢
  rintro ⟨hfirst', hlast', hstep'⟩
  dsimp only at hfirst' hlast' hstep'
  rcases havoids with (hbefore | hbehind) | ⟨⟨hsparse, rfl⟩, hturns⟩
  · omega
  · omega
  · rcases hsparse with rfl | rfl <;> omega

/-! ## Characters -/

/-- The small form of a character of ASCII stays small. -/
theorem isSmall_toLower {c : Char} (h : c.toNat < 0x80) : IsSmall c.toLower := by
  have hascii : ∀ n, n < 0x80 → (Char.ofNat n).toLower ≠ 'Σ' ∧
      lowerChar (Char.ofNat n).toLower = [(Char.ofNat n).toLower] := by decide +kernel
  have hc := hascii c.toNat h
  rw [Char.ofNat_toNat] at hc
  exact ⟨hc.1, hc.2⟩

/-- Outside of the capitals a character is its own small form. -/
theorem isSmall_of_not_capital {c : Char} (hc : 97 ≤ c.toNat)
    (h : ∀ run ∈ capitalRuns, ¬IsCapitalOf run c.toNat) : IsSmall c := by
  have hdotted : c.toNat ≠ 0x130 := by
    intro hdotted
    refine h (0x130, 0x130, 1, 0) List.mem_cons_self ?_
    rw [hdotted]
    exact ⟨Nat.le_refl _, Nat.le_refl _, rfl⟩
  have hself : lowerOutsideAscii c = c := by
    rcases lowerOutsideAscii_cases c with ⟨run, hrun, hcapital, -⟩ | ⟨-, hself⟩
    · exact absurd hcapital (h run (List.mem_cons_of_mem _ hrun))
    · exact hself
  constructor
  · rintro rfl
    exact absurd hself (by decide +kernel)
  · unfold lowerChar
    split
    · have hlow : c.toLower = c := by
        unfold Char.toLower
        rw [dif_neg]
        rintro ⟨-, hcapital⟩
        have : c.toNat ≤ 90 := UInt32.le_iff_toNat_le.1 hcapital
        omega
      rw [hlow]
    · rw [hself]

/-- The small form of a character outside ASCII stays small. -/
theorem isSmall_lowerOutsideAscii {c : Char} (hascii : 0x80 ≤ c.toNat) (hdotted : c.toNat ≠ 0x130) :
    IsSmall (lowerOutsideAscii c) := by
  rcases lowerOutsideAscii_cases c with ⟨run, hrun, hcapital, hsmall⟩ | ⟨hnone, hself⟩
  · rw [hsmall]
    have hlow := le_of_mem_lowerRuns _ hrun
    have hfirst : run.1 ≤ c.toNat := hcapital.1
    rcases toNat_ofNat_cases (c.toNat + run.2.2.2).toNat with hvalid | hzero
    · refine isSmall_of_not_capital (by omega) fun other hother => ?_
      rw [hvalid]
      exact not_capital_of_small hrun hcapital hother
    · rw [show Char.ofNat (c.toNat + run.2.2.2).toNat = Char.ofNat 0 from Char.toNat_inj.1 hzero]
      exact ⟨by decide, by decide⟩
  · rw [hself]
    refine isSmall_of_not_capital (by omega) fun run hrun => ?_
    rcases List.mem_cons.1 hrun with rfl | hrun
    · rintro ⟨hfirst, hlast, -⟩
      exact hdotted (Nat.le_antisymm hlast hfirst)
    · exact hnone run hrun

/-- Every character of a small form stays small. -/
theorem isSmall_of_mem_lowerChar {c small : Char} (h : small ∈ lowerChar c) : IsSmall small := by
  unfold lowerChar at h
  split at h
  · rename_i hascii
    rw [List.mem_singleton.1 h]
    exact isSmall_toLower hascii
  · split at h
    · rcases List.mem_pair.1 h with rfl | rfl
      · exact ⟨by decide +kernel, by decide +kernel⟩
      · exact ⟨by decide +kernel, by decide +kernel⟩
    · rename_i hascii hdotted
      rw [List.mem_singleton.1 h]
      exact isSmall_lowerOutsideAscii (Nat.not_lt.1 hascii) hdotted

/-! ## Texts -/

/-- Every character of a lowered text stays small. -/
theorem isSmall_of_mem_lowercaseAfter {before text : Chars} {small : Char}
    (h : small ∈ lowercaseAfter before text) : IsSmall small := by
  induction text generalizing before with
  | nil => simp [lowercaseAfter] at h
  | cons c cs ih =>
    rw [lowercaseAfter, List.mem_append] at h
    rcases h with hhere | hrest
    · split at hhere
      · split at hhere
        · rw [List.mem_singleton.1 hhere]
          exact ⟨by decide +kernel, by decide +kernel⟩
        · rw [List.mem_singleton.1 hhere]
          exact ⟨by decide +kernel, by decide +kernel⟩
      · exact isSmall_of_mem_lowerChar hhere
    · exact ih hrest

/-- A text of small characters is its own small form. -/
theorem lowercaseAfter_of_isSmall {text : Chars} (h : ∀ c ∈ text, IsSmall c) (before : Chars) :
    lowercaseAfter before text = text := by
  induction text generalizing before with
  | nil => rfl
  | cons c cs ih =>
    obtain ⟨hsigma, hlower⟩ := h c List.mem_cons_self
    rw [lowercaseAfter, if_neg hsigma, hlower, ih fun d hd => h d (List.mem_cons_of_mem c hd)]
    rfl

/-- A text in small letters is its own small form. -/
theorem lowercase_lowercase (text : Chars) : lowercase (lowercase text) = lowercase text :=
  lowercaseAfter_of_isSmall (fun _ hc => isSmall_of_mem_lowercaseAfter hc) []

end AutoImport.Text
