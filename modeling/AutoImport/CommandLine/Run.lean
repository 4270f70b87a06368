import AutoImport.CommandLine.Report

/-!
# Running the program

What the program writes and how it ends, as a function of its arguments and of the disk.
-/

set_option autoImplicit false

namespace AutoImport

/-- What a run leaves behind. -/
structure Outcome where
  exitCode : Nat
  output : String := ""
  errors : String := ""
  deriving Repr, DecidableEq

namespace CommandLine

/-- The name and the version of the program. -/
def versionText : String :=
  "tsz-auto-imports 0.1.0\n"

/-- What the program says about itself. -/
def helpText : String :=
  "List the dependency entry points offered to auto-import completions\n\n" ++
  "Usage: tsz-auto-imports [OPTIONS]\n\n" ++
  "Options:\n" ++
  "  -p, --project <PROJECT>\n" ++
  "          Project directory, or a tsconfig.json inside it. " ++
  "Defaults to the current directory\n" ++
  "      --include-package-json-auto-imports <INCLUDE_PACKAGE_JSON_AUTO_IMPORTS>\n" ++
  "          Whether dependencies from package.json are offered to auto-imports " ++
  "[possible values: on, off, auto]\n" ++
  "      --global-typings-cache <GLOBAL_TYPINGS_CACHE>\n" ++
  "          Directory where automatic type acquisition installs `@types` packages\n" ++
  "      --json\n" ++
  "          Print the report as JSON\n" ++
  "  -h, --help\n" ++
  "          Print help\n" ++
  "  -V, --version\n" ++
  "          Print version\n"

/-- What is said about arguments that cannot be used. -/
def complaint : ArgumentError → String
  | .unknownArgument => "unexpected argument found"
  | .invalidValue => "a value is missing or invalid"
  | .givenTwice => "an argument cannot be used multiple times"
  | .unneededValue => "an unexpected value was given"
  | .helpRequested => ""
  | .versionRequested => ""

/-- The text without blanks at its end, as a line. -/
def line (text : String) : String :=
  .ofList (Text.trimRight text.toList ++ ['\n'])

/-- Runs the program. -/
def run (view : DiskView) (arguments : List String) : Outcome :=
  match Arguments.parse arguments with
  | .error .helpRequested => { exitCode := 0, output := helpText }
  | .error .versionRequested => { exitCode := 0, output := versionText }
  | .error error => { exitCode := 2, errors := "error: " ++ complaint error ++ "\n" }
  | .ok parsed =>
    match Report.create view parsed with
    | .ok found =>
      let report := found.val
      let text := if parsed.json then report.renderJson else report.renderText
      { exitCode := 0, output := line text }
    | .error error => { exitCode := 1, errors := "error: " ++ error.message ++ "\n" }

end CommandLine

end AutoImport
