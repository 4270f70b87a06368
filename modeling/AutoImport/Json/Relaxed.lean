import AutoImport.Json.Tree
import AutoImport.Json.Value
import AutoImport.Text.Identifier

/-!
# Relaxed JSON

Project configurations are written in JSON with the liberties of a configuration language: comments,
trailing commas, single quotes, bare member names, line continuations, hexadecimal numbers, a sign
or a point at either end of a number, `Infinity` and `NaN`.  `Relaxed.read?` accepts that grammar.

Every number is then read, also one that nobody asks for: a whole number has to fit 64 bits with a
sign, a hexadecimal one 32 bits, and any other has to be finite.
-/

set_option autoImplicit false

namespace AutoImport.Json.Relaxed

/-- Whether a character ends a line. -/
def endsLine (c : Char) : Bool :=
  c = '\n' || c = '\r' || c.toNat = 0x2028 || c.toNat = 0x2029

/-- The characters that may stand between tokens. -/
def gapRanges : List (Nat × Nat) :=
  [(0x09, 0x0d), (0x20, 0x20), (0xa0, 0xa0), (0x1680, 0x1680), (0x2000, 0x200a), (0x2028, 0x2029),
    (0x202f, 0x202f), (0x205f, 0x205f), (0x3000, 0x3000), (0xfeff, 0xfeff)]

/-- Where between two tokens a reader stands. -/
inductive Gap where
  | outside
  | lineComment
  | blockComment

/-- The text after blanks and comments; nothing if a comment is not closed. -/
def skip? : Gap → Chars → Option Chars
  | .outside, [] => some []
  | .outside, '/' :: '/' :: rest => skip? .lineComment rest
  | .outside, '/' :: '*' :: rest => skip? .blockComment rest
  | .outside, c :: rest =>
    if Text.inRanges gapRanges c.toNat then skip? .outside rest else some (c :: rest)
  | .lineComment, [] => some []
  | .lineComment, c :: rest => if endsLine c then skip? .outside rest else skip? .lineComment rest
  | .blockComment, [] => none
  | .blockComment, '*' :: '/' :: rest => skip? .outside rest
  | .blockComment, _ :: rest => skip? .blockComment rest

/-- The code that a one-character escape stands for; digits, `x`, `u` and line ends are none. -/
def escape? (c : Char) : Option Nat :=
  match c with
  | 'b' => some 0x08
  | 'f' => some 0x0c
  | 'n' => some 0x0a
  | 'r' => some 0x0d
  | 't' => some 0x09
  | 'v' => some 0x0b
  | '0' => some 0x00
  | c => if c.isDigit || c = 'x' || c = 'u' || endsLine c then none else some c.toNat

/-- The code that an escaped pair of halves stands for.  The bits of the first half are laid over
those of the second half, which is moved up beyond 16 bits; a bit that both of them have counts
once. -/
def pairCode (leading trailing : Nat) : Nat :=
  ((leading - 0xd800) * 0x400) ||| (trailing - 0xdc00 + 0x10000)

/-- The codes of a text with every pair of halves joined. -/
def joinPairs : List Nat → List Nat
  | leading :: trailing :: rest =>
    if isLeading leading && isTrailing trailing then pairCode leading trailing :: joinPairs rest
    else leading :: joinPairs (trailing :: rest)
  | codes => codes

/-- The codes of a text up to the closing quote as they are written, and what follows the quote. -/
def quotedCodes? (quote : Char) : Chars → Option (List Nat × Chars)
  | [] => none
  | '\\' :: '\r' :: '\n' :: rest => quotedCodes? quote rest
  | '\\' :: 'x' :: a :: b :: rest => do
    let code ← hexValue? [a, b]
    let (codes, after) ← quotedCodes? quote rest
    some (code :: codes, after)
  | '\\' :: 'u' :: a :: b :: c :: d :: rest => do
    let code ← hexValue? [a, b, c, d]
    let (codes, after) ← quotedCodes? quote rest
    some (code :: codes, after)
  | '\\' :: c :: rest =>
    if endsLine c then quotedCodes? quote rest
    else do
      let code ← escape? c
      let (codes, after) ← quotedCodes? quote rest
      some (code :: codes, after)
  | c :: rest =>
    if c = quote then some ([], rest)
    else if c = '\\' ∨ endsLine c then none
    else do
      let (codes, after) ← quotedCodes? quote rest
      some (c.toNat :: codes, after)

/-- The codes of a text up to the closing quote, and what follows the quote. -/
def text? (quote : Char) (text : Chars) : Option (List Nat × Chars) :=
  (quotedCodes? quote text).map fun (codes, after) => (joinPairs codes, after)

/-- The rest of an identifier, and what follows it. -/
def identifierRest : Chars → List Nat × Chars
  | [] => ([], [])
  | '\\' :: 'u' :: a :: b :: c :: d :: rest =>
    match hexValue? [a, b, c, d] with
    | some code => let (codes, after) := identifierRest rest; (code :: codes, after)
    | none => ([], '\\' :: 'u' :: a :: b :: c :: d :: rest)
  | c :: rest =>
    if Text.continuesIdentifier c then
      let (codes, after) := identifierRest rest
      (c.toNat :: codes, after)
    else ([], c :: rest)

/-- A member name, bare or in quotes, and what follows it. -/
def name? : Chars → Option (List Nat × Chars)
  | '"' :: rest => text? '"' rest
  | '\x27' :: rest => text? '\x27' rest
  | '\\' :: 'u' :: a :: b :: c :: d :: rest => do
    let code ← hexValue? [a, b, c, d]
    let (codes, after) := identifierRest rest
    some (joinPairs (code :: codes), after)
  | c :: rest =>
    if Text.startsIdentifier c then
      let (codes, after) := identifierRest rest
      some (c.toNat :: joinPairs codes, after)
    else none
  | [] => none

/-- The sign of a number. -/
def sign : Chars → Chars × Chars
  | '+' :: rest => (['+'], rest)
  | '-' :: rest => (['-'], rest)
  | rest => ([], rest)

/-- An exponent with its letter, empty if there is none. -/
def exponent : Chars → Chars × Chars
  | c :: rest =>
    if c = 'e' ∨ c = 'E' then
      let (s, afterSign) := sign rest
      match afterSign.span Char.isDigit with
      | ([], _) => ([], c :: rest)
      | (digits, after) => (c :: s ++ digits, after)
    else ([], c :: rest)
  | [] => ([], [])

/-- The whole part of a number: `0`, or digits that do not begin with `0`. -/
def wholePart : Chars → Chars × Chars
  | '0' :: rest => (['0'], rest)
  | text => text.span Char.isDigit

/-- A decimal number without its sign. -/
def decimal? (text : Chars) : Option (Chars × Chars) :=
  match wholePart text with
  | ([], '.' :: rest) =>
    match rest.span Char.isDigit with
    | ([], _) => none
    | (digits, after) => let (e, final) := exponent after; some ('.' :: digits ++ e, final)
  | ([], _) => none
  | (whole, '.' :: rest) =>
    let (digits, after) := rest.span Char.isDigit
    let (e, final) := exponent after
    some (whole ++ '.' :: digits ++ e, final)
  | (whole, after) => let (e, final) := exponent after; some (whole ++ e, final)

/-- A number without its sign. -/
def magnitude? : Chars → Option (Chars × Chars)
  | 'I' :: 'n' :: 'f' :: 'i' :: 'n' :: 'i' :: 't' :: 'y' :: rest => some ("Infinity".toList, rest)
  | 'N' :: 'a' :: 'N' :: rest => some ("NaN".toList, rest)
  | '0' :: x :: rest =>
    match x = 'x' || x = 'X', rest.span fun c => (hexDigit? c).isSome with
    | true, (d :: ds, after) => some ('0' :: x :: d :: ds, after)
    | _, _ => decimal? ('0' :: x :: rest)
  | text => decimal? text

/-- A number as it is written, and what follows it. -/
def number? (text : Chars) : Option (Chars × Chars) :=
  let (s, afterSign) := sign text
  (magnitude? afterSign).map fun (found, after) => (s ++ found, after)

mutual

/-- One value at the beginning of the text, and what follows it.  `fuel` bounds the calls that are
open at once. -/
def value? : Nat → Chars → Option (Tree × Chars)
  | 0, _ => none
  | fuel + 1, text =>
    match text with
    | 'n' :: 'u' :: 'l' :: 'l' :: rest => some (.null, rest)
    | 't' :: 'r' :: 'u' :: 'e' :: rest => some (.bool true, rest)
    | 'f' :: 'a' :: 'l' :: 's' :: 'e' :: rest => some (.bool false, rest)
    | '"' :: rest => (text? '"' rest).map fun (codes, after) => (.text codes, after)
    | '\x27' :: rest => (text? '\x27' rest).map fun (codes, after) => (.text codes, after)
    | '[' :: rest => do
      match ← skip? .outside rest with
      | ']' :: after => some (.array [], after)
      | first => (elements? fuel first).map fun (found, after) => (.array found, after)
    | '{' :: rest => do
      match ← skip? .outside rest with
      | '}' :: after => some (.object [], after)
      | first => (members? fuel first).map fun (found, after) => (.object found, after)
    | other => (number? other).map fun (lexeme, after) => (.number lexeme, after)

/-- The elements of an array up to its bracket, at least one. -/
def elements? : Nat → Chars → Option (List Tree × Chars)
  | 0, _ => none
  | fuel + 1, text => do
    let (first, afterFirst) ← value? fuel text
    match ← skip? .outside afterFirst with
    | ']' :: after => some ([first], after)
    | ',' :: next =>
      match ← skip? .outside next with
      | ']' :: after => some ([first], after)
      | second => do
        let (others, after) ← elements? fuel second
        some (first :: others, after)
    | _ => none

/-- The members of an object up to its brace, at least one. -/
def members? : Nat → Chars → Option (List (List Nat × Tree) × Chars)
  | 0, _ => none
  | fuel + 1, text => do
    let (name, afterName) ← name? text
    match ← skip? .outside afterName with
    | ':' :: afterColon => do
      let (value, afterValue) ← value? fuel (← skip? .outside afterColon)
      match ← skip? .outside afterValue with
      | '}' :: after => some ([(name, value)], after)
      | ',' :: next =>
        match ← skip? .outside next with
        | '}' :: after => some ([(name, value)], after)
        | second => do
          let (others, after) ← members? fuel second
          some ((name, value) :: others, after)
      | _ => none
    | _ => none

end

/-- The document that a text is.  Every open call but the last has read a character, and at most two
calls are open for one character. -/
def read? (text : String) : Option Tree := do
  let start ← skip? .outside text.toList
  let (tree, rest) ← value? (2 * text.toList.length + 2) start
  let rest ← skip? .outside rest
  if rest.isEmpty then some tree else none

/-- The digits of a hexadecimal number without sign. -/
def hexadecimal? : Chars → Option Chars
  | '0' :: x :: d :: ds => if x = 'x' ∨ x = 'X' then some (d :: ds) else none
  | _ => none

/-- A hexadecimal number of at most 32 bits. -/
def hexadecimalValue? (digits : Chars) : Option Nat := do
  let n ← hexValue? digits
  if n < UInt32.size then some n else none

/-- A decimal `± digits · 10^exponent`. -/
structure Decimal where
  negative : Bool
  digits : Nat
  exponent : Int

/-- The decimal that a number is written as, if it is no hexadecimal number and no name. -/
def decimalParts? (lexeme : Chars) : Option Decimal := do
  let (s, unsigned) := sign lexeme
  let (whole, afterWhole) := unsigned.span Char.isDigit
  let (fraction, afterFraction) :=
    match afterWhole with
    | '.' :: rest => rest.span Char.isDigit
    | rest => ([], rest)
  let digits ← Text.decimalValue? (whole ++ fraction)
  let power : Int ←
    match afterFraction with
    | [] => some 0
    | c :: rest =>
      if c = 'e' ∨ c = 'E' then
        let (es, ds) := sign rest
        (Text.decimalValue? ds).map fun n => if es = ['-'] then -Int.ofNat n else Int.ofNat n
      else none
  some ⟨s = ['-'], digits, power - fraction.length⟩

/-- The double nearest to a decimal, infinite where it is out of range. -/
def Decimal.toFloat (d : Decimal) : Float :=
  let places : Int := (Nat.toDigits 10 d.digits).length + d.exponent
  let f :=
    if d.digits = 0 ∨ places < -400 then 0.0
    else if 400 < places then 1.0 / 0.0
    else Float.ofScientific d.digits (d.exponent < 0) d.exponent.natAbs
  if d.negative then -f else f

/-- The double that a number stands for, if it is named or finite. -/
def double? (lexeme : Chars) : Option Float :=
  if lexeme = "Infinity".toList then some (1.0 / 0.0)
  else if lexeme = "-Infinity".toList then some (-1.0 / 0.0)
  else if lexeme = "NaN".toList ∨ lexeme = "-NaN".toList then some (0.0 / 0.0)
  else
    match hexadecimal? lexeme with
    | some digits => (hexadecimalValue? digits).map fun n => n.toUInt64.toFloat
    | none => do
      let f := (← decimalParts? lexeme).toFloat
      if f.isFinite then some f else none

/-- Whether a number is written as a whole number. -/
def isWhole (lexeme : Chars) : Bool :=
  !lexeme.contains '.' &&
    ((hexadecimal? lexeme).isSome || (!lexeme.contains 'e' && !lexeme.contains 'E')) &&
    lexeme ∉ ["Infinity".toList, "-Infinity".toList, "NaN".toList, "-NaN".toList]

/-- Whether a whole number fits 64 bits with a sign, or 32 bits when it is hexadecimal. -/
def isInteger (lexeme : Chars) : Bool :=
  match hexadecimal? lexeme with
  | some digits => (hexadecimalValue? digits).isSome
  | none =>
    let (s, digits) := sign lexeme
    match Text.decimalValue? digits with
    | some n => if s = ['-'] then n ≤ signBit else n < signBit
    | none => false

/-- Whether a number can be read where any value may stand. -/
def isNumber (lexeme : Chars) : Bool :=
  if isWhole lexeme then isInteger lexeme else (double? lexeme).isSome

/-- A number as a count below 2³²: fractions are cut off and what is out of range goes to the nearer
end. -/
def count? (lexeme : Chars) : Option Nat :=
  (double? lexeme).map fun f => f.toUInt32.toNat

mutual

/-- Whether every number and text in a value can be read. -/
def isReadable : Tree → Bool
  | .null => true
  | .bool _ => true
  | .number lexeme => isNumber lexeme
  | .text codes => (Json.text? codes).isSome
  | .array elements => areReadable elements
  | .object members => areReadableMembers members

/-- Whether every element can be read. -/
def areReadable : List Tree → Bool
  | [] => true
  | tree :: rest => isReadable tree && areReadable rest

/-- Whether every name and every member can be read. -/
def areReadableMembers : List (List Nat × Tree) → Bool
  | [] => true
  | (codes, tree) :: rest => (Json.text? codes).isSome && isReadable tree && areReadableMembers rest

end

end AutoImport.Json.Relaxed
