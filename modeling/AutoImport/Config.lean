import AutoImport.Options

/-!
# Configuration

What an editor tells a session (`HostConfiguration`), and what a project says about itself
(`ProjectConfig`, the contents of a `tsconfig.json`).
-/

set_option autoImplicit false

namespace AutoImport

/-- How many of the declared dependencies are offered to auto-imports. -/
inductive Inclusion where
  /-- None. -/
  | off
  /-- All of them. -/
  | on
  /-- All of them, unless they are too many. -/
  | auto
  deriving Repr, DecidableEq

namespace Inclusion

instance : Inhabited Inclusion := ⟨.auto⟩

/-- The inclusion that a preference asks for; anything but `on` and `off` leaves it open. -/
def ofPreference : Option String → Inclusion
  | some "on" => .on
  | some "off" => .off
  | _ => .auto

/-- The preference that asks for an inclusion. -/
def name : Inclusion → String
  | .off => "off"
  | .on => "on"
  | .auto => "auto"

/-- Whether nothing is included. -/
def isOff (inclusion : Inclusion) : Bool :=
  inclusion = .off

end Inclusion

/-- What the session behind an editor is able to do. -/
inductive SessionMode where
  /-- Programs are built and checked. -/
  | semantic
  /-- Only open files are analysed. -/
  | partialSemantic
  /-- Nothing but syntax. -/
  | syntactic
  deriving Repr, DecidableEq, Inhabited

/-- Why a configuration was refused. -/
inductive ConfigError where
  | hostConfiguration (fault : Json.Fault)
  | projectConfig (fault : Json.Fault)
  deriving Repr, DecidableEq

namespace ConfigError

/-- What went wrong. -/
def message : ConfigError → String
  | .hostConfiguration _ => "failed to parse host configuration JSON"
  | .projectConfig _ => "failed to parse tsconfig JSON"

/-- Why it went wrong, where that is told. -/
def detail? : ConfigError → Option String
  | .hostConfiguration fault => fault.detail?
  | .projectConfig fault => fault.detail?

end ConfigError

/-- Preferences of the editor's user. -/
structure UserPreferences where
  includePackageJsonAutoImports : Option String := none
  importModuleSpecifierPreference : Option String := none
  importModuleSpecifierEnding : Option String := none
  deriving Repr, DecidableEq, Inhabited

/-- How user preferences are read. -/
def UserPreferences.schema : Json.Schema UserPreferences where
  fields :=
    ["includePackageJsonAutoImports", "importModuleSpecifierPreference",
      "importModuleSpecifierEnding"]
  read name tree preferences := do
    let text ← Json.nullable Json.readText tree
    match name with
    | "includePackageJsonAutoImports" =>
      return { preferences with includePackageJsonAutoImports := text }
    | "importModuleSpecifierPreference" =>
      return { preferences with importModuleSpecifierPreference := text }
    | "importModuleSpecifierEnding" =>
      return { preferences with importModuleSpecifierEnding := text }
    | _ => return preferences

/-- The configuration of a session. -/
structure HostConfiguration where
  preferences : UserPreferences := {}
  /-- Where automatically acquired type packages are installed. -/
  globalTypingsCacheLocation : Option String := none
  deriving Repr, DecidableEq, Inhabited

namespace HostConfiguration

/-- The configuration that asks for an inclusion and for nothing else. -/
def ofInclusion (inclusion : Inclusion) : HostConfiguration :=
  { preferences := { includePackageJsonAutoImports := some inclusion.name } }

/-- The inclusion that the configuration asks for. -/
def inclusion (configuration : HostConfiguration) : Inclusion :=
  .ofPreference configuration.preferences.includePackageJsonAutoImports

/-- How a configuration is read. -/
def schema : Json.Schema HostConfiguration where
  fields := ["preferences", "globalTypingsCacheLocation"]
  read name tree configuration :=
    match name with
    | "preferences" =>
      return { configuration with
        preferences := ← UserPreferences.schema.readRecord .strict {} tree }
    | "globalTypingsCacheLocation" =>
      return { configuration with
        globalTypingsCacheLocation := ← Json.nullable Json.readText tree }
    | _ => return configuration

/-- Reads a configuration from strict JSON. -/
def ofJson (text : String) : Except ConfigError HostConfiguration :=
  match Json.Strict.read? text with
  | none => .error (.hostConfiguration .malformed)
  | some tree => (schema.readRecord .strict {} tree).mapError .hostConfiguration

end HostConfiguration

/-- The configuration of a project. -/
structure ProjectConfig where
  base : Option String := none
  compilerOptions : Option CompilerOptions := none
  includes : Option (List String) := none
  excludes : Option (List String) := none
  files : Option (List String) := none
  deriving Repr, DecidableEq, Inhabited

namespace ProjectConfig

/-- How a project configuration is read. -/
def schema (dialect : Json.Dialect) : Json.Schema ProjectConfig where
  fields := ["extends", "compilerOptions", "include", "exclude", "files"]
  read name tree config :=
    match name with
    | "extends" => return { config with base := ← Json.nullable Json.readText tree }
    | "compilerOptions" =>
      return { config with
        compilerOptions := ← Json.nullable (CompilerOptions.read dialect) tree }
    | "include" => return { config with includes := ← Json.nullable Json.readTexts tree }
    | "exclude" => return { config with excludes := ← Json.nullable Json.readTexts tree }
    | "files" => return { config with files := ← Json.nullable Json.readTexts tree }
    | _ => return config

/-- Reads a project configuration from relaxed JSON. -/
def ofJson (text : String) : Except ConfigError ProjectConfig :=
  match Json.Relaxed.read? text with
  | none => .error (.projectConfig .malformed)
  | some tree => ((schema .relaxed).readRecord .relaxed {} tree).mapError .projectConfig

end ProjectConfig

end AutoImport
