import AutoImport.Options
import AutoImport.Path
import AutoImport.Table

/-!
# Programs and compilers

What a compiler makes of a list of root files is a `Program`: its source files, what they export,
and how the names imported in them were resolved.  A program never changes; it is known by its `id`,
and two programs are the same when their ids are.

A `Compiler` answers requests for programs.  It may hand back the program that it is asked to
replace when nothing has changed.
-/

set_option autoImplicit false

namespace AutoImport

/-- How a symbol is exported. -/
inductive ExportKind where
  | named
  | default
  | exportEquals
  | umd
  deriving Repr, DecidableEq

/-- A symbol that a module exports. -/
structure ExportedSymbol where
  name : String
  kind : ExportKind := .named
  isTypeOnly : Bool := false
  deriving Repr, DecidableEq

/-- How an imported name was resolved; `via` is the path through a link, if one was taken. -/
structure ResolvedModule where
  file : String
  via : Option String := none
  deriving Repr, DecidableEq

/-- What a module without listed exports exports. -/
inductive Unlisted where
  /-- Nothing. -/
  | nothing
  /-- One symbol with the name of its file. -/
  | fileStem
  deriving Repr, DecidableEq

/-- A compiled program. -/
structure Program where
  id : Nat
  roots : List String
  sources : List String
  /-- The names that the program knows its sources by.  Whether two spellings name one source is up
  to the compiler. -/
  known : List String := sources
  exports : Table String (List ExportedSymbol) := {}
  unlisted : Unlisted := .nothing
  resolutions : List ResolvedModule := []
  deriving Repr, DecidableEq

namespace Program

/-- Whether a file is part of the program. -/
def hasSource (program : Program) (file : String) : Bool :=
  file ∈ program.known

/-- The name of a file after the last `/`, up to its first `.`. -/
def fileStem (file : String) : String :=
  let name :=
    match Text.splitLast? '/' file.toList with
    | some (_, after) => after
    | none => file.toList
  .ofList (name.takeWhile (· ≠ '.'))

/-- The exports of a file. -/
def exportsOf (program : Program) (file : String) : List ExportedSymbol :=
  match program.exports.get? file with
  | some symbols => symbols
  | none =>
    match program.unlisted with
    | .nothing => []
    | .fileStem => [{ name := fileStem file }]

/-- Whether two programs, either of which may be missing, are the same. -/
def same (first second : Option Program) : Bool :=
  first.map Program.id = second.map Program.id

end Program

/-- A request for a program. -/
structure ProgramRequest where
  roots : List String
  options : CompilerOptions
  /-- The program to be replaced. -/
  old : Option Program

/-- A compiler with a state of its own. -/
structure Compiler (σ : Type) where
  build : ProgramRequest → σ → Program × σ

namespace Compiler

/-- The compiler of programs that consist of their root files and export nothing.  Its state is the
number of programs built. -/
def fileList : Compiler Nat where
  build request built :=
    match request.old with
    | some old =>
      if old.roots = request.roots then (old, built)
      else ({ id := built + 1, roots := request.roots, sources := request.roots }, built + 1)
    | none => ({ id := built + 1, roots := request.roots, sources := request.roots }, built + 1)

/-- The state of a compiler whose findings are given by tables. -/
structure Script where
  requests : Nat := 0
  built : Nat := 0
  mayReuse : Bool := true
  exports : Table String (List ExportedSymbol) := {}
  imports : Table String (List String) := {}
  resolutions : List ResolvedModule := []
  lastOptions : Option CompilerOptions := none
  deriving Repr, DecidableEq

/-- The roots and what they import, each file once. -/
def Script.sources (script : Script) (roots : List String) : List String :=
  (roots ++ roots.flatMap fun root => (script.imports.get? root).getD []).foldl insertNew []

/-- The program that the tables describe. -/
def Script.program (script : Script) (roots : List String) : Program :=
  { id := script.built
    roots
    sources := script.sources roots
    exports := script.exports
    unlisted := .fileStem
    resolutions := script.resolutions }

/-- The compiler whose findings are given by tables.  It counts requests and numbers its
programs. -/
def scripted : Compiler Script where
  build request script :=
    let asked :=
      { script with requests := script.requests + 1, lastOptions := some request.options }
    let fresh :=
      let next := { asked with built := asked.built + 1 }
      (next.program request.roots, next)
    match request.old with
    | some old => if asked.mayReuse && old.roots = request.roots then (old, asked) else fresh
    | none => fresh

end Compiler

end AutoImport
