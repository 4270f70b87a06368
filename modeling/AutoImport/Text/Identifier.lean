import AutoImport.Text.Basic
import AutoImport.Text.LetterRanges

/-!
# Identifiers

Relaxed JSON lets a member name stand without quotes when it is an identifier: a letter, `$` or `_`,
then any number of these, of marks, digits and connectors, and of the two joiners.
-/

set_option autoImplicit false

namespace AutoImport.Text

/-- Whether a character may begin an identifier. -/
def startsIdentifier (c : Char) : Bool :=
  if c.toNat < 0x80 then c.isAlpha || c = '$' || c = '_' else inRanges letterRanges c.toNat

/-- Whether a character may stand inside an identifier. -/
def continuesIdentifier (c : Char) : Bool :=
  startsIdentifier c || inRanges letterFollowerRanges c.toNat || c.toNat = 0x200c ||
    c.toNat = 0x200d

end AutoImport.Text
