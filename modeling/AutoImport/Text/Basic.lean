/-!
# Cutting and joining text

Paths, version ranges and package targets are cut at separators and put together again.  The
functions of this module do that on lists of characters, where each of them is a short structural
recursion; the modules above wrap them for `String`.
-/

set_option autoImplicit false

namespace AutoImport

/-- Text as the list of its characters. -/
abbrev Chars := List Char

namespace Text

/-- The pieces between the occurrences of `sep`; a text without `sep` is one piece, and the empty
text is one empty piece. -/
def splitOn (sep : Char) : Chars → List Chars
  | [] => [[]]
  | c :: cs =>
    if c = sep then [] :: splitOn sep cs
    else
      match splitOn sep cs with
      | [] => [[c]]
      | piece :: pieces => (c :: piece) :: pieces

/-- The pieces put together again with `sep` between them. -/
def joinWith (sep : Char) : List Chars → Chars
  | [] => []
  | [piece] => piece
  | piece :: pieces => piece ++ sep :: joinWith sep pieces

/-- The text before the last `sep` and the text after it, if there is one. -/
def splitLast? (sep : Char) : Chars → Option (Chars × Chars)
  | [] => none
  | c :: cs =>
    match splitLast? sep cs with
    | some (before, after) => some (c :: before, after)
    | none => if c = sep then some ([], cs) else none

/-- The text after `start`, if the text begins with it. -/
def stripPrefix? (start : Chars) (text : Chars) : Option Chars :=
  start.isPrefixOf? text

/-- The text before `ending`, if the text ends with it. -/
def stripSuffix? (ending : Chars) (text : Chars) : Option Chars :=
  ending.isSuffixOf? text

/-- The text without one `/` at its end. -/
def dropTrailingSlash (text : Chars) : Chars :=
  (stripSuffix? ['/'] text).getD text

/-- The text without any of the characters `c` at its end. -/
def dropTrailing (c : Char) (text : Chars) : Chars :=
  (text.reverse.dropWhile (· = c)).reverse

/-- Whether `part` occurs somewhere in the text. -/
def isInfix (part : Chars) : Chars → Bool
  | [] => part.isEmpty
  | c :: cs => part.isPrefixOf (c :: cs) || isInfix part cs

/-- The text with the first occurrence of `part` replaced; unchanged when there is none. -/
def replaceFirst (part replacement : Chars) : Chars → Chars
  | [] => if part.isEmpty then replacement else []
  | c :: cs =>
    match stripPrefix? part (c :: cs) with
    | some rest => replacement ++ rest
    | none => c :: replaceFirst part replacement cs

/-- Whether a text begins with another. -/
def startsWith (start text : String) : Bool :=
  start.toList.isPrefixOf text.toList

/-- Whether a text ends with another. -/
def endsWith (ending text : String) : Bool :=
  ending.toList.isSuffixOf text.toList

/-- The pieces between the occurrences of `||`. -/
def splitOnDoubleBar : Chars → List Chars
  | [] => [[]]
  | '|' :: '|' :: cs => [] :: splitOnDoubleBar cs
  | c :: cs =>
    match splitOnDoubleBar cs with
    | [] => [[c]]
    | piece :: pieces => (c :: piece) :: pieces

/-- The value of a text of decimal digits; the empty text has none. -/
def decimalValue? (digits : Chars) : Option Nat :=
  if digits.isEmpty || !digits.all Char.isDigit then none
  else some (digits.foldl (fun n c => 10 * n + (c.toNat - '0'.toNat)) 0)

/-- A number below 2³² as it is written: decimal digits after an optional `+`. -/
def unsigned32? (text : Chars) : Option Nat :=
  let digits := (stripPrefix? ['+'] text).getD text
  match decimalValue? digits with
  | some n => if n < UInt32.size then some n else none
  | none => none

/-- Whether a code point lies in one of the ranges, ends included. -/
def inRanges (ranges : List (Nat × Nat)) (n : Nat) : Bool :=
  ranges.any fun (first, last) => first ≤ n && n ≤ last

end Text

end AutoImport
