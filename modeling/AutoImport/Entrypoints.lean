import AutoImport.Files.View
import AutoImport.Limits
import AutoImport.Manifest
import AutoImport.Options
import AutoImport.Version

/-!
# Entry points of a package

The entry points of a package are the files through which it can be imported: its main entry, and,
where export maps take part in resolution, every file that the map leads to under the conditions of
an `import` or of a `require`.  `entrypoints` lists them in the order in which they are found, each
once.

An export map is walked as a tree.  Of an object the first member with an applicable key is taken;
of an array the elements are tried up to the first that succeeds; a text with a `*` takes every
matching file below its directory.
-/

set_option autoImplicit false

namespace AutoImport

/-- The kind of files that count as entry points. -/
inductive EntryKind where
  /-- Declarations and typed sources. -/
  | typed
  /-- Plain scripts. -/
  | script
  deriving Repr, DecidableEq

namespace EntryKind

/-- The extensions of plain scripts. -/
def scriptExtensions : List String :=
  [".js", ".jsx", ".mjs", ".cjs"]

/-- The extensions that are tried after a path, in order: declarations come first, for that is what
a typed package ships. -/
def candidates : EntryKind → List String
  | .typed => [".d.ts", ".ts", ".tsx", ".d.mts", ".mts", ".d.cts", ".cts"]
  | .script => scriptExtensions

/-- The extensions of accepted files. -/
def extensions : EntryKind → List String
  | .typed => [".d.ts", ".d.mts", ".d.cts", ".ts", ".tsx", ".mts", ".cts"]
  | .script => scriptExtensions

/-- Whether a file is of the kind. -/
def accepts (kind : EntryKind) (fileName : String) : Bool :=
  kind.extensions.any fun extension => Text.endsWith extension fileName

/-- The extensions that are tried in place of a script's. -/
def substitutions : EntryKind → String → List String
  | .typed, ".js" => [".ts", ".tsx", ".d.ts"]
  | .typed, ".jsx" => [".tsx", ".d.ts"]
  | .typed, ".mjs" => [".mts", ".d.mts"]
  | .typed, ".cjs" => [".cts", ".d.cts"]
  | _, _ => []

/-- The path with its script extension exchanged. -/
def exchanged (kind : EntryKind) (path : String) : List String :=
  match scriptExtensions.find? fun extension => Text.endsWith extension path with
  | some extension =>
    let stem := String.ofList (path.toList.take (path.length - extension.length))
    (kind.substitutions extension).map (stem ++ ·)
  | none => []

/-- The files that a path may stand for, in the order in which they are tried: the path itself, the
path with its script extension exchanged, and the path with an extension added. -/
def spellings (kind : EntryKind) (path : String) : List String :=
  (if kind.accepts path then [path] else []) ++ kind.exchanged path ++
    kind.candidates.map (path ++ ·)

end EntryKind

namespace Entrypoints

/-- The file that a path stands for. -/
def file? (view : FileView) (kind : EntryKind) (path : String) : Probed (Option String) :=
  Probed.firstExisting? view.fileExists (kind.spellings path)

/-- The file that a path stands for, or the index of the directory that it is. -/
def fileOrIndex? (view : FileView) (kind : EntryKind) (path : String) : Probed (Option String) :=
  Probed.orElse (file? view kind path) fun _ =>
    if view.directoryExists path then file? view kind (Path.join path "index") else pure none

/-- A path that a manifest gives, seen from the directory of its package. -/
def packagePath (directory entry : String) : String :=
  let trimmed := Text.trim entry.toList
  let relative := (Text.stripPrefix? ['.', '/'] trimmed).getD trimmed
  Path.normalize (Path.join directory (.ofList relative)) "/"

/-- The texts that a `typesVersions` member lists for a path. -/
def versionTargets? : Json.Value → Option (List String)
  | .array elements => some (elements.filterMap Json.Value.text?)
  | .text target => some [target]
  | _ => none

/-- Where `typesVersions` sends the index of a package: the targets under the first range that
admits the compiler, with the name for their `*` filled in. -/
def versionedIndex? : Json.Value → Option (List String)
  | .object ranges => do
    let (_, paths) ← ranges.find? fun (range, _) => VersionRange.admits range .compiler
    match paths with
    | .object members =>
      let (name, targets) ←
        ((Json.member? "index" members).map fun targets => ("", targets)) <|>
          ((Json.member? "*" members).map fun targets => ("index", targets))
      let targets ← versionTargets? targets
      some (targets.map fun target => .ofList (Text.replaceFirst ['*'] name.toList target.toList))
    | _ => none
  | _ => none

/-- The first file that `typesVersions` leads to. -/
def fromTypesVersions? (view : FileView) (manifest : Manifest) : Probed (Option String) :=
  match manifest.typesVersions.bind versionedIndex? with
  | some targets =>
    Probed.findSome?
      (fun target => fileOrIndex? view .typed (packagePath manifest.directory target)) targets
  | none => pure none

/-- The file that a member of the manifest names. -/
def fromMember? (view : FileView) (kind : EntryKind) (directory : String) :
    Option String → Probed (Option String)
  | some entry => fileOrIndex? view kind (packagePath directory entry)
  | none => pure none

/-- The file that declares the types of a package. -/
def fromTypes? (view : FileView) (kind : EntryKind) (manifest : Manifest) :
    Probed (Option String) :=
  match kind with
  | .typed =>
    Probed.orElse (fromTypesVersions? view manifest) fun _ =>
      fromMember? view kind manifest.directory manifest.typesEntry
  | .script => pure none

/-- The main entry of a package: its declared types, else its `main`, else its index. -/
def mainFile? (view : FileView) (kind : EntryKind) (manifest : Manifest) :
    Probed (Option String) :=
  Probed.orElse (fromTypes? view kind manifest) fun _ =>
    Probed.orElse (fromMember? view kind manifest.directory manifest.main) fun _ =>
      file? view kind (Path.join manifest.directory "index")

/-- The real directories that a walk has entered, and the files that it has met. -/
structure Walk where
  visited : List String := []
  found : List String := []
  deriving Repr, DecidableEq

/-- Walks a directory and what lies below it, outside of installed packages.  Each real directory is
entered once, so the walk ends whatever the links.  `fuel` bounds the directories inside each
other. -/
def walk (view : FileView) : Nat → String → Walk → Walk
  | 0, _, done => done
  | fuel + 1, directory, done =>
    let real := (view.realPath directory).getD directory
    if real ∈ done.visited then done
    else
      let here : Walk :=
        { visited := real :: done.visited
          found := done.found ++ (view.files directory).map (Path.join directory) }
      ((view.directories directory).filter (· ≠ packagesName)).foldl
        (fun walked child => walk view fuel (Path.join directory child) walked) here

/-- The files below a directory. -/
def filesBelow (view : FileView) (directory : String) : List String :=
  (walk view view.extent directory {}).found

/-- The entry points found so far. -/
structure Surface where
  files : List String := []
  /-- The real paths of the files that patterns have matched. -/
  matched : List String := []
  deriving Repr, DecidableEq

/-- Adds an entry point. -/
def Surface.add (surface : Surface) (file : String) : Surface :=
  { surface with files := insertNew surface.files file }

/-- Adds a file that a pattern matches, unless a pattern has matched it under another spelling. -/
def Surface.addMatch (view : FileView) (surface : Surface) (file : String) : Surface :=
  let real := (view.realPath file).getD file
  if real ∈ surface.matched then surface
  else { files := insertNew surface.files file, matched := surface.matched ++ [real] }

/-- What a walk through an export map needs to know. -/
structure Context where
  view : FileView
  kind : EntryKind
  /-- The directory of the package. -/
  directory : String
  /-- The conditions under which the package is imported. -/
  conditions : List String

/-- The directory below which a pattern with the text `start` before its `*` looks for files. -/
def patternRoot (directory start : String) : String :=
  let begin := packagePath directory start
  if Text.endsWith "/" start then .ofList (Text.dropTrailing '/' begin.toList)
  else Path.directory begin

/-- The files that a pattern with the text `start` before its `*` matches. -/
def Context.patternFiles (context : Context) (start : String) : List String :=
  (filesBelow context.view (patternRoot context.directory start)).filter fun file =>
    Text.startsWith (packagePath context.directory start) file && context.kind.accepts file

/-- Follows a target of an export map.  Only targets inside the package count.  A pattern has one
`*` and always succeeds; any other target succeeds if it stands for a file. -/
def Context.loadTarget (context : Context) (target : String) (surface : Surface) :
    Probed (Bool × Surface) :=
  if !Text.startsWith "./" target then pure (false, surface)
  else
    match Text.splitOn '*' target.toList with
    | [_] =>
      if (Path.segments target).tail.any fun part =>
          part = ".." || part = "." || part = packagesName then
        pure (false, surface)
      else do
        match ← file? context.view context.kind (packagePath context.directory target) with
        | some file => return (true, surface.add file)
        | none => return (false, surface)
    | [start, _] =>
      let files := context.patternFiles (.ofList start)
      pure (true, files.foldl (Surface.addMatch context.view) surface)
    | _ => pure (false, surface)

/-- Whether a member of a condition object is taken. -/
def Context.applies (context : Context) (key : String) : Bool :=
  key = "default" || key ∈ context.conditions ||
    ("types" ∈ context.conditions &&
      match Text.stripPrefix? "types@".toList key.toList with
      | some range => VersionRange.admits (.ofList range) .compiler
      | none => false)

mutual

/-- Walks one target of an export map; tells whether it succeeded. -/
def Context.walkTarget (context : Context) : Json.Value → Surface → Probed (Bool × Surface)
  | .text target, surface => context.loadTarget target surface
  | .array targets, surface => context.walkFirst targets surface
  | .object members, surface => context.walkApplicable members surface
  | .null, surface => pure (false, surface)
  | .bool _, surface => pure (false, surface)
  | .number _, surface => pure (false, surface)

/-- Walks the targets of an array up to the first that succeeds. -/
def Context.walkFirst (context : Context) :
    List Json.Value → Surface → Probed (Bool × Surface)
  | [], surface => pure (false, surface)
  | target :: rest, surface => do
    let (succeeded, surface) ← context.walkTarget target surface
    if succeeded then return (true, surface) else context.walkFirst rest surface

/-- Walks the first applicable member of an object, which then has succeeded. -/
def Context.walkApplicable (context : Context) :
    List (String × Json.Value) → Surface → Probed (Bool × Surface)
  | [], surface => pure (false, surface)
  | (key, target) :: rest, surface =>
    if context.applies key then do
      let (_, surface) ← context.walkTarget target surface
      return (true, surface)
    else context.walkApplicable rest surface

end

/-- Walks all targets of a list. -/
def Context.walkAll (context : Context) : List Json.Value → Surface → Probed Surface
  | [], surface => pure surface
  | target :: rest, surface => do
    let (_, surface) ← context.walkTarget target surface
    context.walkAll rest surface

/-- The targets at the top of an export map: the elements of an array, the members of an object
whose keys are all subpaths, or the map itself. -/
def topTargets : Json.Value → List Json.Value
  | .array targets => targets
  | .object members =>
    if !members.isEmpty && members.all fun (key, _) => Text.startsWith "." key then
      members.map Prod.snd
    else [.object members]
  | exports => [exports]

/-- The conditions of an `import` or of a `require`. -/
def conditions (options : CompilerOptions) (isImport : Bool) : List String :=
  [if isImport then "import" else "require", "types"] ++
    if options.resolution = .bundler then [] else ["node"]

/-- What an export map adds to the entry points. -/
def walkExports (view : FileView) (kind : EntryKind) (options : CompilerOptions)
    (directory : String) (exports : Json.Value) (surface : Surface) : Probed Surface := do
  let context (isImport : Bool) : Context :=
    { view, kind, directory, conditions := conditions options isImport }
  let surface ← (context true).walkAll (topTargets exports) surface
  (context false).walkAll (topTargets exports) surface

end Entrypoints

/-- The entry points of a package in the order in which they are found, each once; nothing if there
are none. -/
def entrypoints (view : FileView) (kind : EntryKind) (options : CompilerOptions)
    (manifest : Manifest) : Probed (Option (List String)) := do
  let main ← Entrypoints.mainFile? view kind manifest
  let start : Entrypoints.Surface := { files := main.toList }
  let surface ←
    match options.resolvesExports, manifest.exports with
    | true, some exports =>
      Entrypoints.walkExports view kind options manifest.directory exports start
    | _, _ => pure start
  return if surface.files.isEmpty then none else some surface.files

end AutoImport
