import AutoImport.Text.Basic

/-!
# JSON values

The meaning of a JSON document: numbers have a value, texts are characters, and an object maps each
of its names to one value, in the order in which the names first appear.
-/

set_option autoImplicit false

namespace AutoImport.Json

/-- The number 2⁶³: the first whole number that needs all of 64 bits, and the sign bit of a
double. -/
def signBit : Nat := 0x8000000000000000

/-- A JSON number: a whole number as far as 64 bits hold it, otherwise the bits of a double. -/
inductive Number where
  | natural (value : Nat)
  | negative (magnitude : Nat)
  | real (bits : UInt64)
  deriving Repr, DecidableEq, Inhabited

/-- A JSON value. -/
inductive Value where
  | null
  | bool (value : Bool)
  | number (value : Number)
  | text (value : String)
  | array (elements : List Value)
  | object (members : List (String × Value))
  deriving Repr, Inhabited

/-- The text of a value that is a text. -/
def Value.text? : Value → Option String
  | .text value => some value
  | _ => none

/-- The first value under a name. -/
def member? (name : String) : List (String × Value) → Option Value
  | [] => none
  | (key, value) :: rest => if key = name then some value else member? name rest

/-- The members with one more: a known name keeps its place and gets the new value. -/
def setMember (name : String) (value : Value) : List (String × Value) → List (String × Value)
  | [] => [(name, value)]
  | (key, old) :: rest =>
    if key = name then (key, value) :: rest else (key, old) :: setMember name value rest

end AutoImport.Json
