import AutoImport.Json.Record
import AutoImport.Text.Blank
import AutoImport.Text.Lowercase

/-!
# Compiler options

The part of a project's compiler options that decides which files of its dependencies are entry
points, and the cheaper options under which those files are compiled.
-/

set_option autoImplicit false

namespace AutoImport

/-- How imported names are resolved to files. -/
inductive ModuleResolution where
  | classic
  | node10
  | node16
  | nodeNext
  | bundler
  deriving Repr, DecidableEq, Inhabited

/-- The resolution a setting names, whatever its case and surrounding blanks. -/
def ModuleResolution.ofName? (name : String) : Option ModuleResolution :=
  match String.ofList (Text.asciiLowercase (Text.trim name.toList)) with
  | "classic" => some .classic
  | "node" | "node10" => some .node10
  | "node16" => some .node16
  | "nodenext" => some .nodeNext
  | "bundler" => some .bundler
  | _ => none

/-- The compiler options that matter here; `none` where an option is not set. -/
structure CompilerOptions where
  allowJs : Option Bool := none
  maxNodeModuleJsDepth : Option Nat := none
  moduleResolution : Option String := none
  resolvePackageJsonExports : Option Bool := none
  types : Option (List String) := none
  lib : Option (List String) := none
  noLib : Option Bool := none
  skipLibCheck : Option Bool := none
  sourceMap : Option Bool := none
  diagnostics : Option Bool := none
  disableSourceOfProjectReferenceRedirect : Option Bool := none
  deriving Repr, DecidableEq, Inhabited

namespace CompilerOptions

/-- The resolution in force: the one named, or `node10` when none is. -/
def resolution (options : CompilerOptions) : ModuleResolution :=
  (options.moduleResolution.bind ModuleResolution.ofName?).getD .node10

/-- Whether the export map of a package decides what can be imported from it. -/
def resolvesExports (options : CompilerOptions) : Bool :=
  options.resolvePackageJsonExports.getD <|
    match options.resolution with
    | .node16 | .nodeNext | .bundler => true
    | .classic | .node10 => false

/-- Whether plain scripts of dependencies count as entry points. -/
def allowsDependencyScripts (options : CompilerOptions) : Bool :=
  options.allowJs.getD false && 0 < options.maxNodeModuleJsDepth.getD 0

/-- Whether references to other projects lead to their sources. -/
def usesReferencedSources (options : CompilerOptions) : Bool :=
  !options.disableSourceOfProjectReferenceRedirect.getD false

/-- The options of a compilation that is only asked for its exports. -/
def forProvider (options : CompilerOptions) : CompilerOptions :=
  { options with
    diagnostics := some false
    skipLibCheck := some true
    sourceMap := some false
    types := some []
    lib := some []
    noLib := some true }

/-- A switch written as a text. -/
def switchOfText (given : String) : Except Json.Fault Bool :=
  match String.ofList (Text.lowercase (Text.trim given.toList)) with
  | "true" | "1" | "yes" | "on" => .ok true
  | "false" | "0" | "no" | "off" => .ok false
  | _ => .error (.unknownSwitch given)

/-- A switch: a truth value or a text for one. -/
def readSwitch (dialect : Json.Dialect) (tree : Json.Tree) : Except Json.Fault Bool :=
  if dialect.readable tree then
    match tree with
    | .bool value => .ok value
    | .text codes => Json.required (Json.text? codes) >>= switchOfText
    | _ => .error .noSwitch
  else .error .malformed

/-- How compiler options are read. -/
def schema (dialect : Json.Dialect) : Json.Schema CompilerOptions where
  fields :=
    ["allowJs", "maxNodeModuleJsDepth", "moduleResolution", "resolvePackageJsonExports", "types",
      "lib", "noLib", "skipLibCheck", "sourceMap", "diagnostics",
      "disableSourceOfProjectReferenceRedirect"]
  read name tree options :=
    let switch := Json.nullable (readSwitch dialect) tree
    match name with
    | "allowJs" => return { options with allowJs := ← switch }
    | "maxNodeModuleJsDepth" =>
      return { options with maxNodeModuleJsDepth := ← Json.nullable (Json.readCount dialect) tree }
    | "moduleResolution" =>
      return { options with moduleResolution := ← Json.nullable Json.readText tree }
    | "resolvePackageJsonExports" =>
      return { options with resolvePackageJsonExports := ← switch }
    | "types" => return { options with types := ← Json.nullable Json.readTexts tree }
    | "lib" => return { options with lib := ← Json.nullable Json.readTexts tree }
    | "noLib" => return { options with noLib := ← switch }
    | "skipLibCheck" => return { options with skipLibCheck := ← switch }
    | "sourceMap" => return { options with sourceMap := ← switch }
    | "diagnostics" => return { options with diagnostics := ← switch }
    | "disableSourceOfProjectReferenceRedirect" =>
      return { options with disableSourceOfProjectReferenceRedirect := ← switch }
    | _ => return options

/-- Compiler options from a written value. -/
def read (dialect : Json.Dialect) (tree : Json.Tree) : Except Json.Fault CompilerOptions :=
  (schema dialect).readRecord dialect {} tree

/-- Compiler options from the text of a strict document. -/
def ofJson? (text : String) : Option CompilerOptions :=
  (Json.Strict.read? text).bind fun tree => (read .strict tree).toOption

end CompilerOptions

end AutoImport
