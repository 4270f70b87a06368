import AutoImport.Text.Basic

/-!
# Written JSON

A document is read in two steps.  The first accepts the grammar and yields a `Json.Tree`, which
keeps numbers as they are written and texts as lists of code points in which an escaped surrogate
may still stand alone.  The second gives a meaning to the parts that somebody asks for.  A member
nobody asks for thus need only be written well.
-/

set_option autoImplicit false

namespace AutoImport.Json

/-- A JSON document as it is written. -/
inductive Tree where
  | null
  | bool (value : Bool)
  | number (lexeme : Chars)
  | text (codes : List Nat)
  | array (elements : List Tree)
  | object (members : List (List Nat × Tree))
  deriving Repr, Inhabited

/-- The value of a hexadecimal digit. -/
def hexDigit? (c : Char) : Option Nat :=
  if '0' ≤ c ∧ c ≤ '9' then some (c.toNat - '0'.toNat)
  else if 'a' ≤ c ∧ c ≤ 'f' then some (c.toNat - 'a'.toNat + 10)
  else if 'A' ≤ c ∧ c ≤ 'F' then some (c.toNat - 'A'.toNat + 10)
  else none

/-- The value of a row of hexadecimal digits. -/
def hexValue? (digits : Chars) : Option Nat :=
  digits.foldlM (fun n c => (hexDigit? c).map (16 * n + ·)) 0

/-- Whether a code is the first half of a surrogate pair. -/
def isLeading (code : Nat) : Bool :=
  0xd800 ≤ code && code ≤ 0xdbff

/-- Whether a code is the second half of a surrogate pair. -/
def isTrailing (code : Nat) : Bool :=
  0xdc00 ≤ code && code ≤ 0xdfff

/-- The characters that the codes stand for: two halves of a surrogate pair are one character, and
half a pair stands for nothing. -/
def characters? : List Nat → Option Chars
  | [] => some []
  | code :: codes =>
    if isLeading code then
      match codes with
      | next :: rest =>
        if isTrailing next then
          let c := Char.ofNat (0x10000 + (code - 0xd800) * 0x400 + (next - 0xdc00))
          (characters? rest).map (c :: ·)
        else none
      | [] => none
    else if isTrailing code then none
    else (characters? codes).map (Char.ofNat code :: ·)

/-- The text that the codes stand for. -/
def text? (codes : List Nat) : Option String :=
  (characters? codes).map .ofList

end AutoImport.Json
