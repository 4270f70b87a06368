import AutoImport.Config

/-!
# Arguments of the command line

The program takes `-p`/`--project`, `--include-package-json-auto-imports`, `--global-typings-cache`,
`--json`, `-h`/`--help` and `-V`/`--version`.  A value stands in the next argument, which then must
not look like an option, or after a `=`; the one-letter option takes it directly as well.  No option
is given twice, and no argument stands alone.

Arguments are read from left to right.  A value is looked at when the next known option is reached
or the arguments end, so an argument that is not known comes before a bad value to its
left. -/

set_option autoImplicit false

namespace AutoImport

/-- The arguments of the program. -/
structure Arguments where
  project : Option String := none
  inclusion : Option Inclusion := none
  globalTypingsCache : Option String := none
  json : Bool := false
  deriving Repr, DecidableEq, Inhabited

/-- Why arguments are not run with. -/
inductive ArgumentError where
  | unknownArgument
  /-- A value is missing or cannot be read. -/
  | invalidValue
  | givenTwice
  /-- A value for an option that takes none. -/
  | unneededValue
  | helpRequested
  | versionRequested
  deriving Repr, DecidableEq

namespace Arguments

/-- An option that takes a value. -/
inductive Valued where
  | project
  | inclusion
  | typings
  deriving Repr, DecidableEq

/-- An option. -/
inductive OptionName where
  | valued (option : Valued)
  | json
  | help
  | version
  deriving Repr, DecidableEq

/-- The option of a long name. -/
def longOption? : String → Option OptionName
  | "project" => some (.valued .project)
  | "include-package-json-auto-imports" => some (.valued .inclusion)
  | "includePackageJsonAutoImports" => some (.valued .inclusion)
  | "global-typings-cache" => some (.valued .typings)
  | "globalTypingsCache" => some (.valued .typings)
  | "json" => some .json
  | "help" => some .help
  | "version" => some .version
  | _ => none

/-- The option of a letter. -/
def shortOption? : Char → Option OptionName
  | 'p' => some (.valued .project)
  | 'h' => some .help
  | 'V' => some .version
  | _ => none

/-- The inclusion of a name, whatever its case. -/
def inclusion? (name : String) : Option Inclusion :=
  match String.ofList (Text.asciiLowercase name.toList) with
  | "on" => some .on
  | "off" => some .off
  | "auto" => some .auto
  | _ => none

/-- A path, which is not empty. -/
def readPath (value : String) : Except ArgumentError String :=
  if value = "" then .error .invalidValue else .ok value

/-- Stores the value of an option. -/
def store (arguments : Arguments) (option : Valued) (value : String) :
    Except ArgumentError Arguments :=
  match option with
  | .project =>
    if arguments.project.isSome then .error .givenTwice
    else (readPath value).map fun path => { arguments with project := some path }
  | .inclusion =>
    if arguments.inclusion.isSome then .error .givenTwice
    else
      match inclusion? value with
      | some inclusion => .ok { arguments with inclusion := some inclusion }
      | none => .error .invalidValue
  | .typings =>
    if arguments.globalTypingsCache.isSome then .error .givenTwice
    else (readPath value).map fun path => { arguments with globalTypingsCache := some path }

/-- Arguments under way: an option may still wait for its value, or its value for being looked
at. -/
structure Reading where
  arguments : Arguments := {}
  pending : Option (Valued × Option String) := none
  /-- Whether `--` was met, after which nothing is an option. -/
  isEscaped : Bool := false

/-- Looks at the value of a waiting option. -/
def Reading.settle (reading : Reading) : Except ArgumentError Reading :=
  match reading.pending with
  | none => .ok reading
  | some (_, none) => .error .invalidValue
  | some (option, some value) =>
    (reading.arguments.store option value).map fun arguments =>
      { reading with arguments, pending := none }

/-- Reads an option with the value attached to it. -/
def Reading.take (reading : Reading) (option : OptionName) (attached : Option String) :
    Except ArgumentError Reading :=
  match option, attached with
  | .valued option, some value => do
    let reading ← reading.settle
    let arguments ← reading.arguments.store option value
    return { reading with arguments }
  | .valued option, none => do
    let reading ← reading.settle
    return { reading with pending := some (option, none) }
  | _, some _ => .error .unneededValue
  | .json, none => do
    let reading ← reading.settle
    if reading.arguments.json then throw .givenTwice
    return { reading with arguments := { reading.arguments with json := true } }
  | .help, none => do
    let _ ← reading.settle
    throw .helpRequested
  | .version, none => do
    let _ ← reading.settle
    throw .versionRequested

/-- The name of a long option and the value after its `=`. -/
def splitLong (text : Chars) : String × Option String :=
  match text.span (· ≠ '=') with
  | (name, _ :: value) => (.ofList name, some (.ofList value))
  | (name, []) => (.ofList name, none)

/-- The value attached to a one-letter option, without its `=`. -/
def shortValue? : Chars → Option String
  | [] => none
  | '=' :: value => some (.ofList value)
  | value => some (.ofList value)

/-- Reads an argument that stands alone: the value of a waiting option, or nothing known. -/
def Reading.takeValue (reading : Reading) (argument : String) : Except ArgumentError Reading :=
  match reading.pending with
  | some (option, none) => .ok { reading with pending := some (option, some argument) }
  | _ => .error .unknownArgument

/-- Reads one argument. -/
def Reading.next (reading : Reading) (argument : String) : Except ArgumentError Reading :=
  if reading.isEscaped then .error .unknownArgument
  else
    match argument.toList with
    | ['-', '-'] => .ok { reading with isEscaped := true }
    | '-' :: '-' :: text =>
      let (name, value) := splitLong text
      match longOption? name with
      | some option => reading.take option value
      | none => .error .unknownArgument
    | '-' :: letter :: rest =>
      match shortOption? letter with
      | some (.valued option) => reading.take (.valued option) (shortValue? rest)
      | some option => reading.take option none
      | none => .error .unknownArgument
    | _ => reading.takeValue argument

/-- Reads the arguments after the program's name. -/
def parse (arguments : List String) : Except ArgumentError Arguments := do
  let reading ← arguments.foldlM Reading.next {}
  return (← reading.settle).arguments

end Arguments

end AutoImport
