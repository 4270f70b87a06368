import AutoImport.Json.Value
import AutoImport.Decimal.Shortest

/-!
# Compact JSON text

`Value.compact` writes a value without blanks, members in their order.  Characters beyond ASCII
stand for themselves; quotes, backslashes and control characters are escaped, with a letter where
JSON has one.  A double is written with the fewest digits that read back: positional from 10⁻⁵ up to
10¹⁶, always with a point, and with a signed exponent outside that range.
-/

set_option autoImplicit false

namespace AutoImport.Json

/-- Two hexadecimal digits of a number below 256. -/
def twoHexDigits (n : Nat) : Chars :=
  [Nat.digitChar (n / 16), Nat.digitChar (n % 16)]

/-- A character inside a quoted text. -/
def quotedChar (c : Char) : Chars :=
  match c with
  | '"' => ['\\', '"']
  | '\\' => ['\\', '\\']
  | '\n' => ['\\', 'n']
  | '\r' => ['\\', 'r']
  | '\t' => ['\\', 't']
  | c =>
    if c.toNat = 0x08 then ['\\', 'b']
    else if c.toNat = 0x0c then ['\\', 'f']
    else if c.toNat < 0x20 then ['\\', 'u', '0', '0'] ++ twoHexDigits c.toNat
    else [c]

/-- A text in quotes. -/
def quoted (text : String) : String :=
  .ofList ('"' :: text.toList.flatMap quotedChar ++ ['"'])

/-- A positive decimal: positional with a point while its point lies at most sixteen places to the
right and five to the left of its first digit, otherwise with an exponent and its sign. -/
def decimalText (d : Decimal) : String :=
  let digits := Nat.toDigits 10 d.digits
  let point : Int := digits.length + d.exponent
  let zeros (n : Nat) : Chars := List.replicate n '0'
  if 0 ≤ d.exponent ∧ point ≤ 16 then
    .ofList (digits ++ zeros d.exponent.toNat ++ ['.', '0'])
  else if 0 < point ∧ point ≤ 16 then
    .ofList (digits.take point.toNat ++ '.' :: digits.drop point.toNat)
  else if -5 < point ∧ point ≤ 0 then
    .ofList (['0', '.'] ++ zeros (-point).toNat ++ digits)
  else
    let mantissa :=
      match digits with
      | [d] => [d]
      | d :: ds => d :: '.' :: ds
      | [] => []
    .ofList mantissa ++ (if 0 < point then "e+" else "e") ++ toString (point - 1)

/-- A double, given by its bits. -/
def realText (bits : UInt64) : String :=
  let sign := if bits.toNat < signBit then "" else "-"
  if bits.toNat % signBit = 0 then sign ++ "0.0"
  else sign ++ decimalText (Decimal.shortest bits)

/-- A number. -/
def Number.text : Number → String
  | .natural value => toString value
  | .negative magnitude => "-" ++ toString magnitude
  | .real bits => realText bits

mutual

/-- A value without blanks. -/
def Value.compact : Value → String
  | .null => "null"
  | .bool true => "true"
  | .bool false => "false"
  | .number value => value.text
  | .text value => quoted value
  | .array elements => "[" ++ compactElements elements ++ "]"
  | .object members => "\x7b" ++ compactMembers members ++ "\x7d"

/-- The elements of an array with commas between them. -/
def compactElements : List Value → String
  | [] => ""
  | [value] => value.compact
  | value :: rest => value.compact ++ "," ++ compactElements rest

/-- The members of an object with commas between them. -/
def compactMembers : List (String × Value) → String
  | [] => ""
  | [(name, value)] => quoted name ++ ":" ++ value.compact
  | (name, value) :: rest => quoted name ++ ":" ++ value.compact ++ "," ++ compactMembers rest

end

end AutoImport.Json
