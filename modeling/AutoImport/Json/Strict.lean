import AutoImport.Json.Tree
import AutoImport.Json.Value

/-!
# Strict JSON

`Strict.read?` accepts exactly the JSON grammar: no comments, no trailing commas, no byte-order
mark, and nothing but blanks around the one value.  `Tree.value?` gives a written value its meaning
and refuses what has none: half a surrogate pair, a number beyond the range of a double, and more
than 127 arrays and objects inside each other.
-/

set_option autoImplicit false

namespace AutoImport.Json

namespace Strict

/-- The text after the blanks at its beginning. -/
def skipBlanks (text : Chars) : Chars :=
  text.dropWhile fun c => c = ' ' || c = '\n' || c = '\t' || c = '\r'

/-- The character that a one-letter escape stands for. -/
def escape? (c : Char) : Option Nat :=
  match c with
  | '"' => some 0x22
  | '\\' => some 0x5c
  | '/' => some 0x2f
  | 'b' => some 0x08
  | 'f' => some 0x0c
  | 'n' => some 0x0a
  | 'r' => some 0x0d
  | 't' => some 0x09
  | _ => none

/-- The codes of a text up to its closing quote, and what follows the quote. -/
def text? : Chars → Option (List Nat × Chars)
  | [] => none
  | '"' :: rest => some ([], rest)
  | '\\' :: 'u' :: a :: b :: c :: d :: rest => do
    let code ← hexValue? [a, b, c, d]
    let (codes, after) ← text? rest
    some (code :: codes, after)
  | '\\' :: c :: rest => do
    let code ← escape? c
    let (codes, after) ← text? rest
    some (code :: codes, after)
  | c :: rest =>
    if c.toNat < 0x20 ∨ c = '\\' then none
    else do
      let (codes, after) ← text? rest
      some (c.toNat :: codes, after)

/-- The digits at the beginning of a text, and what follows them. -/
def digits (text : Chars) : Chars × Chars :=
  text.span Char.isDigit

/-- At least one digit, and what follows the digits. -/
def someDigits? (text : Chars) : Option (Chars × Chars) :=
  match digits text with
  | ([], _) => none
  | found => some found

/-- The whole part of a number: `0`, or digits that do not begin with `0`. -/
def wholePart? (text : Chars) : Option (Chars × Chars) :=
  match digits text with
  | ([], _) => none
  | (['0'], rest) => some (['0'], rest)
  | ('0' :: _, _) => none
  | found => some found

/-- The fraction of a number with its point, empty if there is none. -/
def fraction? : Chars → Option (Chars × Chars)
  | '.' :: rest => (someDigits? rest).map fun (found, after) => ('.' :: found, after)
  | rest => some ([], rest)

/-- The sign of an exponent. -/
def exponentSign : Chars → Chars × Chars
  | '+' :: rest => (['+'], rest)
  | '-' :: rest => (['-'], rest)
  | rest => ([], rest)

/-- The exponent of a number with its letter, empty if there is none. -/
def exponent? : Chars → Option (Chars × Chars)
  | c :: rest =>
    if c = 'e' ∨ c = 'E' then
      let (sign, afterSign) := exponentSign rest
      (someDigits? afterSign).map fun (found, after) => (c :: sign ++ found, after)
    else some ([], c :: rest)
  | [] => some ([], [])

/-- A number without its sign. -/
def magnitude? (text : Chars) : Option (Chars × Chars) := do
  let (whole, afterWhole) ← wholePart? text
  let (fraction, afterFraction) ← fraction? afterWhole
  let (exponent, rest) ← exponent? afterFraction
  some (whole ++ fraction ++ exponent, rest)

/-- A number as it is written, and what follows it. -/
def number? : Chars → Option (Chars × Chars)
  | '-' :: rest => (magnitude? rest).map fun (found, after) => ('-' :: found, after)
  | text => magnitude? text

mutual

/-- One value and what follows it.  `fuel` bounds the calls that are open at once. -/
def value? : Nat → Chars → Option (Tree × Chars)
  | 0, _ => none
  | fuel + 1, text =>
    match skipBlanks text with
    | 'n' :: 'u' :: 'l' :: 'l' :: rest => some (.null, rest)
    | 't' :: 'r' :: 'u' :: 'e' :: rest => some (.bool true, rest)
    | 'f' :: 'a' :: 'l' :: 's' :: 'e' :: rest => some (.bool false, rest)
    | '"' :: rest => (text? rest).map fun (codes, after) => (.text codes, after)
    | '[' :: rest =>
      match skipBlanks rest with
      | ']' :: after => some (.array [], after)
      | first => (elements? fuel first).map fun (found, after) => (.array found, after)
    | '{' :: rest =>
      match skipBlanks rest with
      | '}' :: after => some (.object [], after)
      | first => (members? fuel first).map fun (found, after) => (.object found, after)
    | other => (number? other).map fun (lexeme, after) => (.number lexeme, after)

/-- The elements of an array up to its bracket, at least one. -/
def elements? : Nat → Chars → Option (List Tree × Chars)
  | 0, _ => none
  | fuel + 1, text => do
    let (first, afterFirst) ← value? fuel text
    match skipBlanks afterFirst with
    | ']' :: after => some ([first], after)
    | ',' :: next => do
      let (others, after) ← elements? fuel next
      some (first :: others, after)
    | _ => none

/-- The members of an object up to its brace, at least one. -/
def members? : Nat → Chars → Option (List (List Nat × Tree) × Chars)
  | 0, _ => none
  | fuel + 1, text =>
    match skipBlanks text with
    | '"' :: afterQuote => do
      let (name, afterName) ← text? afterQuote
      match skipBlanks afterName with
      | ':' :: afterColon => do
        let (value, afterValue) ← value? fuel afterColon
        match skipBlanks afterValue with
        | '}' :: after => some ([(name, value)], after)
        | ',' :: next => do
          let (others, after) ← members? fuel next
          some ((name, value) :: others, after)
        | _ => none
      | _ => none
    | _ => none

end

/-- The document that a text is.  Every open call but the last has read a character, and at most two
calls are open for one character. -/
def read? (text : String) : Option Tree :=
  match value? (2 * text.toList.length + 2) text.toList with
  | some (tree, rest) => if (skipBlanks rest).isEmpty then some tree else none
  | none => none

/-- The parts of a number as it is written. -/
structure Parts where
  negative : Bool
  whole : List Nat
  fraction : Option (List Nat)
  /-- Sign and digits of the exponent; the sign is true for a negative exponent. -/
  exponent : Option (Bool × List Nat)

/-- The values of decimal digits. -/
def digitValues (text : Chars) : List Nat :=
  text.map fun c => c.toNat - '0'.toNat

/-- The parts of a number that `number?` accepted. -/
def parts (lexeme : Chars) : Parts :=
  let (isNegative, unsigned) :=
    match lexeme with
    | '-' :: rest => (true, rest)
    | rest => (false, rest)
  let (whole, afterWhole) := digits unsigned
  let (fraction, afterFraction) :=
    match afterWhole with
    | '.' :: rest => let (found, after) := digits rest; (some (digitValues found), after)
    | rest => (none, rest)
  let exponent :=
    match afterFraction with
    | _ :: '-' :: rest => some (true, digitValues rest)
    | _ :: '+' :: rest => some (false, digitValues rest)
    | _ :: rest => some (false, digitValues rest)
    | [] => none
  ⟨isNegative, digitValues whole, fraction, exponent⟩

/-- Appends digits to a significand while it stays below 2⁶⁴; also gives the digits left over. -/
def extend (significand : Nat) : List Nat → Nat × List Nat
  | [] => (significand, [])
  | d :: ds =>
    if significand * 10 + d < UInt64.size then extend (significand * 10 + d) ds
    else (significand, d :: ds)

/-- The double nearest to 10ᵏ. -/
def powerOfTen (k : Nat) : Float :=
  Float.ofScientific 1 false k

/-- `f · 10⁻ᵏ`, by one division where 10ᵏ is a double and by divisions with 10³⁰⁸ before it.  Four
of these leave nothing of a number below 2⁶⁴. -/
def divideByPower : Nat → Float → Nat → Float
  | 0, f, _ => f
  | steps + 1, f, k =>
    if k ≤ 308 then f / powerOfTen k
    else if f == 0.0 then f
    else divideByPower steps (f / powerOfTen 308) (k - 308)

/-- `significand · 10^exponent` as a double, if it is in range. -/
def scale? (significand : Nat) (exponent : Int) : Option Float :=
  let f := significand.toUInt64.toFloat
  match exponent with
  | .ofNat k =>
    if k ≤ 308 then
      let product := f * powerOfTen k
      if product.isInf then none else some product
    else if f == 0.0 then some f
    else none
  | .negSucc k => some (divideByPower 5 f (k + 1))

/-- A double with a sign, as a number. -/
def signed (negative : Bool) (f : Float) : Number :=
  .real (if negative then -f else f).toBits

/-- The value of a number, if it is in range.  The first digits that fit 64 bits make a significand,
the others only count as powers of ten. -/
def numberValue? (lexeme : Chars) : Option Number :=
  let p := parts lexeme
  let (whole, beyond) := extend 0 p.whole
  match p.fraction, p.exponent, beyond with
  | none, none, [] =>
    if !p.negative then some (.natural whole)
    else if 1 ≤ whole ∧ whole ≤ signBit then some (.negative whole)
    else some (signed true whole.toUInt64.toFloat)
  | _, _, _ =>
    let fraction := p.fraction.getD []
    let (significand, unread) := extend whole fraction
    let shift : Int := beyond.length - (fraction.length - unread.length : Nat)
    match p.exponent with
    | none => (scale? significand shift).map (signed p.negative)
    | some (isNegative, ds) =>
      let e := ds.foldl (fun n d => 10 * n + d) 0
      if 0x80000000 ≤ e then
        if significand = 0 ∨ isNegative then some (signed p.negative 0.0) else none
      else
        let total : Int := if isNegative then shift - Int.ofNat e else shift + Int.ofNat e
        (scale? significand (max (-0x80000000) (min total 0x7fffffff))).map (signed p.negative)

end Strict

/-- How many arrays and objects may lie inside each other. -/
def depthLimit : Nat := 127

mutual

/-- The meaning of a written value inside `depth` arrays and objects. -/
def Tree.value? (depth : Nat) : Tree → Option Value
  | .null => some .null
  | .bool value => some (.bool value)
  | .number lexeme => (Strict.numberValue? lexeme).map .number
  | .text codes => (text? codes).map .text
  | .array elements =>
    if depth < depthLimit then (Tree.values? (depth + 1) elements).map .array else none
  | .object members =>
    if depth < depthLimit then
      (Tree.memberValues? (depth + 1) members).map fun found =>
        .object (found.foldl (fun kept (name, value) => setMember name value kept) [])
    else none

/-- The meanings of the elements of an array. -/
def Tree.values? (depth : Nat) : List Tree → Option (List Value)
  | [] => some []
  | tree :: rest => do
    let value ← Tree.value? depth tree
    let values ← Tree.values? depth rest
    some (value :: values)

/-- The names and meanings of the members of an object, as written. -/
def Tree.memberValues? (depth : Nat) : List (List Nat × Tree) → Option (List (String × Value))
  | [] => some []
  | (codes, tree) :: rest => do
    let name ← text? codes
    let value ← Tree.value? depth tree
    let values ← Tree.memberValues? depth rest
    some ((name, value) :: values)

end

end AutoImport.Json
