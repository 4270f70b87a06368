import AutoImport.CommandLine.Arguments
import AutoImport.CommandLine.SourceFiles
import AutoImport.Json.Printer
import AutoImport.Session

/-!
# The report of the program

The program opens a project from disk and reports what its provider compiles.  A `Report` is
rendered as text or as JSON.
-/

set_option autoImplicit false

namespace AutoImport

/-- What the program reports about a project. -/
structure Report where
  /-- The configuration of the project, or its directory if it has none. -/
  project : String
  inclusion : Inclusion
  sourceCount : Nat
  manifests : List String
  packageDirectories : List String
  providerRoots : List String
  deriving Repr, DecidableEq

/-- Why there is no report. -/
inductive ReportError where
  | missingProject (path : String)
  | unresolvedDirectory (path : String)
  | unreadableConfig (path : String)
  | refusedConfig (path : String) (error : ConfigError)
  deriving Repr, DecidableEq

namespace ReportError

/-- What went wrong, outermost first. -/
def context : ReportError → List String
  | .missingProject path => ["project path does not exist: " ++ path]
  | .unresolvedDirectory path => ["failed to resolve project directory: " ++ path]
  | .unreadableConfig path => ["failed to read tsconfig: " ++ path]
  | .refusedConfig path error => ["in " ++ path, error.message]

/-- What the system or the reader of the configuration says about it. -/
def cause? : ReportError → Option String
  | .missingProject _ => none
  | .unresolvedDirectory _ => some "No such file or directory (os error 2)"
  | .unreadableConfig _ => some "stream did not contain valid UTF-8"
  | .refusedConfig _ error => error.detail?

/-- The error without its cause. -/
def summary (error : ReportError) : String :=
  ": ".intercalate error.context

/-- The error with its cause. -/
def message (error : ReportError) : String :=
  ": ".intercalate (error.context ++ error.cause?.toList)

end ReportError

namespace Report

/-- Where a project is, and the configuration that describes it. -/
structure Location where
  directory : String
  config : Option String
  deriving Repr, DecidableEq

/-- The part of a path before its last name. -/
def parent (path : String) : String :=
  match Text.splitLast? '/' path.toList with
  | some (before, _) =>
    let directory := Text.dropTrailing '/' before
    if directory.isEmpty then "/" else .ofList directory
  | none => ""

/-- Finds the project that an argument names: a directory, or a configuration in it. -/
def locate (view : DiskView) (argument : Option String) : Except ReportError Location :=
  let path := argument.getD view.workingDirectory
  if view.fileExists path then .ok ⟨parent path, some path⟩
  else if !view.directoryExists path then .error (.missingProject path)
  else
    let config := Disk.child path "tsconfig.json"
    .ok ⟨path, if view.fileExists config then some config else none⟩

/-- The compiler options of a project. -/
def loadOptions (view : DiskView) : Option String → Except ReportError CompilerOptions
  | none => .ok {}
  | some path =>
    match view.readText path with
    | none => .error (.unreadableConfig path)
    | some text =>
      match ProjectConfig.ofJson text with
      | .ok config => .ok (config.compilerOptions.getD {})
      | .error error => .error (.refusedConfig path error)

/-- A path as an absolute one: `.` and repeated `/` are dropped, `..` stays, and so does a `/` at
the end. -/
def absolute (workingDirectory path : String) : String :=
  let names := (Path.segments path).filter fun name => name ≠ "" ∧ name ≠ "."
  let start :=
    if Text.startsWith "/" path then
      if Text.startsWith "//" path && !Text.startsWith "///" path then "//" else "/"
    else if Text.endsWith "/" workingDirectory then workingDirectory
    else if names.isEmpty then workingDirectory
    else workingDirectory ++ "/"
  let whole := start ++ "/".intercalate names
  if Text.endsWith "/" path && !Text.endsWith "/" whole then whole ++ "/" else whole

/-- The configuration of the session in which the project is opened. -/
def configuration (view : DiskView) (arguments : Arguments) (inclusion : Inclusion) :
    HostConfiguration :=
  { HostConfiguration.ofInclusion inclusion with
    globalTypingsCacheLocation :=
      arguments.globalTypingsCache.map fun path =>
        Path.slashed (absolute view.workingDirectory path) }

/-- Opens a project in a session of its own and reports what its provider compiles. -/
def ofProject (view : DiskView) (configuration : HostConfiguration) (name directory : String)
    (sources : List String) (options : CompilerOptions) : Probed Report := do
  let session : Session Nat := { Session.start view.caseSensitive 0 with configuration }
  let (id, session) := session.openProject name directory sources options
  let (program, session) ← session.queryProvider .fileList view.toFileView id
  let (manifests, session) ← session.projectManifests view.toFileView id
  let provider := (session.project? id).bind fun project => project.slot.provider?
  return {
    project := name
    inclusion := configuration.inclusion
    sourceCount := sources.length
    manifests := manifests.map Manifest.fileName
    packageDirectories := (provider.map Provider.packageDirectories).getD []
    providerRoots := (program.map Program.roots).getD [] }

/-- The report on the project that the arguments name.  Its sources are looked for in the directory
as the disk spells it; elsewhere a backslash counts as `/`. -/
def create (view : DiskView) (arguments : Arguments) : Except ReportError (Probed Report) := do
  let location ← locate view arguments.project
  let spelled ←
    match view.spelledPath? location.directory with
    | some spelled => .ok spelled
    | none => .error (.unresolvedDirectory location.directory)
  let options ← loadOptions view location.config
  let inclusion := arguments.inclusion.getD .auto
  let directory := Path.slashed spelled
  let name := (location.config.map Path.slashed).getD directory
  let sources := SourceFiles.collect view options spelled
  return ofProject view (configuration view arguments inclusion) name directory sources options

/-- A list of lines, each indented and ended. -/
def lines (texts : List String) : String :=
  String.join (texts.map fun text => "  " ++ text ++ "\n")

/-- The report as text. -/
def renderText (report : Report) : String :=
  "project: " ++ report.project ++ "\n" ++
  "includePackageJsonAutoImports: " ++ report.inclusion.name ++ "\n" ++
  "host files: " ++ toString report.sourceCount ++ "\n" ++
  "package.json files:\n" ++ lines report.manifests ++
  if report.providerRoots.isEmpty then "auto-import provider: none\n"
  else
    "auto-import provider roots (" ++ toString report.providerRoots.length ++ "):\n" ++
      lines report.providerRoots

/-- A list of texts as the value of a member. -/
def jsonTexts (texts : List String) : String :=
  if texts.isEmpty then "[]"
  else "[\n" ++ ",\n".intercalate (texts.map fun text => "    " ++ Json.quoted text) ++ "\n  ]"

/-- The report as JSON, two blanks for each level. -/
def renderJson (report : Report) : String :=
  let members :=
    [("project", Json.quoted report.project),
      ("includePackageJsonAutoImports", Json.quoted report.inclusion.name),
      ("hostFileCount", toString report.sourceCount),
      ("packageJsons", jsonTexts report.manifests),
      ("packageDirectories", jsonTexts report.packageDirectories),
      ("providerRootFiles", jsonTexts report.providerRoots)]
  let written :=
    members.map fun (name, value) => "  " ++ Json.quoted name ++ ": " ++ value
  "\x7b\n" ++ ",\n".intercalate written ++ "\n\x7d"

end Report

end AutoImport
