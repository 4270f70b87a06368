import AutoImport.Json.Strict
import AutoImport.Json.Relaxed

/-!
# Reading records

A record with named fields is written as an object, or as an array that lists the fields in their
declared order.  A member nobody declared is passed over, a declared member may be given once, and
`null` stands for a field that is not set.  Members are read in the order in which they are written,
so of two faults the first one written is reported.

A `Dialect` holds the points on which strict and relaxed documents differ.
-/

set_option autoImplicit false

namespace AutoImport.Json

/-- Why a record could not be read. -/
inductive Fault where
  /-- The document or one of its values has the wrong form. -/
  | malformed
  /-- A switch is a text that is neither a yes nor a no. -/
  | unknownSwitch (given : String)
  /-- A switch is neither a truth value nor a text. -/
  | noSwitch
  deriving Repr, DecidableEq

/-- The part of a fault that its reader is told. -/
def Fault.detail? : Fault → Option String
  | .malformed => none
  | .unknownSwitch given =>
    some ("invalid boolean value: '" ++ given ++ "'. Expected true, false, 'true', or 'false'")
  | .noSwitch => some "data did not match any variant of untagged enum BoolOrString"

/-- How values of a document are read. -/
structure Dialect where
  /-- Whether a value nobody asks for is passed over. -/
  passes : Tree → Bool
  /-- Whether a value can be read where any value may stand. -/
  readable : Tree → Bool
  /-- A number as a count below 2³². -/
  count? : Chars → Option Nat
  /-- Whether elements after the last declared field are passed over. -/
  passesExtraElements : Bool

/-- A number in a strict document as a count below 2³²: only whole numbers in range are. -/
def Strict.count? (lexeme : Chars) : Option Nat :=
  match Strict.numberValue? lexeme with
  | some (.natural n) => if n < UInt32.size then some n else none
  | _ => none

/-- Strict documents: what nobody asks for need only be written well. -/
def Dialect.strict : Dialect where
  passes _ := true
  readable tree := (tree.value? 0).isSome
  count? := Strict.count?
  passesExtraElements := false

/-- Relaxed documents: every number and text has to be readable. -/
def Dialect.relaxed : Dialect where
  passes := Relaxed.isReadable
  readable := Relaxed.isReadable
  count? := Relaxed.count?
  passesExtraElements := true

/-- A value that has to be there, as a result. -/
def required {α : Type} : Option α → Except Fault α
  | some a => .ok a
  | none => .error .malformed

/-- A field that may be `null`. -/
def nullable {α : Type} (read : Tree → Except Fault α) : Tree → Except Fault (Option α)
  | .null => .ok none
  | tree => (read tree).map some

/-- A text. -/
def readText : Tree → Except Fault String
  | .text codes => required (text? codes)
  | _ => .error .malformed

/-- A list of texts. -/
def readTexts : Tree → Except Fault (List String)
  | .array elements => elements.mapM readText
  | _ => .error .malformed

/-- A count below 2³². -/
def readCount (dialect : Dialect) : Tree → Except Fault Nat
  | .number lexeme => required (dialect.count? lexeme)
  | _ => .error .malformed

/-- How the fields of a record of type `ρ` are read: their names in declared order, and what a value
under a name does to the record. -/
structure Schema (ρ : Type) where
  fields : List String
  read : String → Tree → ρ → Except Fault ρ

namespace Schema

variable {ρ : Type}

/-- Reads the members of an object; `seen` holds the declared names met before. -/
def readMembers (schema : Schema ρ) (dialect : Dialect) :
    List String → List (List Nat × Tree) → ρ → Except Fault ρ
  | _, [], record => .ok record
  | seen, (codes, value) :: rest, record => do
    let name ← required (text? codes)
    if name ∈ schema.fields then
      if name ∈ seen then .error .malformed
      else
        let record ← schema.read name value record
        schema.readMembers dialect (name :: seen) rest record
    else if dialect.passes value then schema.readMembers dialect seen rest record
    else .error .malformed

/-- Reads the elements of an array as the fields of the given names. -/
def readElements (schema : Schema ρ) (dialect : Dialect) :
    List String → List Tree → ρ → Except Fault ρ
  | name :: names, value :: rest, record => do
    let record ← schema.read name value record
    schema.readElements dialect names rest record
  | [], _ :: _, record => if dialect.passesExtraElements then .ok record else .error .malformed
  | _, [], record => .ok record

/-- Reads a record on top of its defaults. -/
def readRecord (schema : Schema ρ) (dialect : Dialect) (defaults : ρ) : Tree → Except Fault ρ
  | .object members => schema.readMembers dialect [] members defaults
  | .array elements => schema.readElements dialect schema.fields elements defaults
  | _ => .error .malformed

end Schema

end AutoImport.Json
