import AutoImport.Text.Blank
import AutoImport.Text.Lowercase

/-!
# Log formats

The format of log events, as a user names it.
-/

set_option autoImplicit false

namespace AutoImport

/-- A format of log events. -/
inductive LogFormat where
  | text
  | tree
  | json
  deriving Repr, DecidableEq

namespace LogFormat

/-- The format of a name, whatever its case and surrounding blanks; `text` if there is none. -/
def ofName (name : String) : LogFormat :=
  match String.ofList (Text.lowercase (Text.trim name.toList)) with
  | "tree" => .tree
  | "json" => .json
  | _ => .text

/-- The name of a format. -/
def name : LogFormat → String
  | .text => "text"
  | .tree => "tree"
  | .json => "json"

end LogFormat

end AutoImport
