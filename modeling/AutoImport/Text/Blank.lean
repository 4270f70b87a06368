import AutoImport.Text.Basic

/-!
# Blank characters

Values are trimmed and version ranges are cut into words at blanks.  Blank is every character with
the Unicode property *White_Space*.
-/

set_option autoImplicit false

namespace AutoImport.Text

/-- The 25 characters with the property *White_Space*. -/
def blankRanges : List (Nat × Nat) :=
  [(0x09, 0x0d), (0x20, 0x20), (0x85, 0x85), (0xa0, 0xa0), (0x1680, 0x1680), (0x2000, 0x200a),
    (0x2028, 0x2029), (0x202f, 0x202f), (0x205f, 0x205f), (0x3000, 0x3000)]

/-- Whether a character is blank. -/
def isBlank (c : Char) : Bool :=
  inRanges blankRanges c.toNat

/-- The text without the blanks at its end. -/
def trimRight (text : Chars) : Chars :=
  (text.reverse.dropWhile isBlank).reverse

/-- The text without the blanks at either end. -/
def trim (text : Chars) : Chars :=
  trimRight (text.dropWhile isBlank)

/-- The maximal blank-free pieces of the text, in order. -/
def words : Chars → List Chars
  | [] => []
  | c :: cs =>
    if isBlank c then words cs
    else
      match cs with
      | [] => [[c]]
      | d :: _ =>
        if isBlank d then [c] :: words cs
        else
          match words cs with
          | [] => [[c]]
          | w :: ws => (c :: w) :: ws

end AutoImport.Text
