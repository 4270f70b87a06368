import AutoImport.Json.Record
import AutoImport.Path
import AutoImport.Table

/-!
# Package manifests

A `Manifest` is what a `package.json` file says about its package.  A member of the wrong kind
counts as absent, so a manifest has a name exactly when its `name` is a text, and a dependency group
exactly when the member is an object, of which the entries with a text for a version range are
kept. -/

set_option autoImplicit false

namespace AutoImport

/-- The groups in which a manifest lists dependencies. -/
inductive DependencyGroup where
  | dependencies
  | devDependencies
  | peerDependencies
  | optionalDependencies
  deriving Repr, DecidableEq

/-- All groups, in the order in which they are searched. -/
def DependencyGroup.all : List DependencyGroup :=
  [.dependencies, .devDependencies, .peerDependencies, .optionalDependencies]

/-- Version ranges by package name, in declared order. -/
abbrev Dependencies := Table String String

/-- A package manifest. -/
structure Manifest where
  /-- The path under which the manifest was reached. -/
  fileName : String
  /-- The directory of the manifest, as it was reached. -/
  directory : String
  name : Option String := none
  main : Option String := none
  types : Option String := none
  typings : Option String := none
  moduleType : Option String := none
  exports : Option Json.Value := none
  imports : Option Json.Value := none
  typesVersions : Option Json.Value := none
  dependencies : Option Dependencies := none
  devDependencies : Option Dependencies := none
  peerDependencies : Option Dependencies := none
  optionalDependencies : Option Dependencies := none
  deriving Repr, Inhabited

namespace Manifest

/-- How the members of a manifest are read: a declared member that is not `null` has to have a
meaning. -/
def schema : Json.Schema (Table String Json.Value) where
  fields :=
    ["name", "main", "types", "typings", "type", "exports", "imports", "typesVersions",
      "dependencies", "devDependencies", "peerDependencies", "optionalDependencies"]
  read name tree members :=
    match tree with
    | .null => .ok members
    | tree => (Json.required (tree.value? 1)).map (members.insert name)

/-- The entries of a dependency group that are texts, in order; nothing but an object is a group. -/
def dependenciesOf : Json.Value → Option Dependencies
  | .object members =>
    some ⟨members.filterMap fun (name, range) => range.text?.map fun text => (name, text)⟩
  | _ => none

/-- The manifest that the members of a file describe. -/
def ofMembers (fileName : String) (members : Table String Json.Value) : Manifest :=
  let text (name : String) := (members.get? name).bind Json.Value.text?
  let group (name : String) := (members.get? name).bind dependenciesOf
  { fileName
    directory := Path.directory fileName
    name := text "name"
    main := text "main"
    types := text "types"
    typings := text "typings"
    moduleType := text "type"
    exports := members.get? "exports"
    imports := members.get? "imports"
    typesVersions := members.get? "typesVersions"
    dependencies := group "dependencies"
    devDependencies := group "devDependencies"
    peerDependencies := group "peerDependencies"
    optionalDependencies := group "optionalDependencies" }

/-- Reads the text of the file `fileName`. -/
def ofJson? (fileName text : String) : Option Manifest :=
  match Json.Strict.read? text with
  | none => none
  | some tree =>
    match schema.readRecord .strict .empty tree with
    | .ok members => some (ofMembers fileName members)
    | .error _ => none

/-- The dependencies of one group. -/
def group (manifest : Manifest) : DependencyGroup → Option Dependencies
  | .dependencies => manifest.dependencies
  | .devDependencies => manifest.devDependencies
  | .peerDependencies => manifest.peerDependencies
  | .optionalDependencies => manifest.optionalDependencies

/-- The version range of a dependency in the first of the chosen groups that lists it. -/
def range? (manifest : Manifest) (dependency : String) (chosen : List DependencyGroup) :
    Option String :=
  (DependencyGroup.all.filter (· ∈ chosen)).findSome? fun g =>
    (manifest.group g).bind (·.get? dependency)

/-- Whether one of the chosen groups lists a dependency. -/
def lists (manifest : Manifest) (dependency : String) (chosen : List DependencyGroup) : Bool :=
  (manifest.range? dependency chosen).isSome

/-- The declared type entry: `types`, or else `typings`. -/
def typesEntry (manifest : Manifest) : Option String :=
  manifest.types <|> manifest.typings

end Manifest

end AutoImport
