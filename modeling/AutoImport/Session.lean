import AutoImport.Project

/-!
# Sessions

A session holds what its projects share: the configuration, the mode, the known manifests and the
state of the compiler.  Changes of files enter here and are routed to the projects that they
concern.  Projects are known by the numbers that they got when they were opened.

The file system is not part of a session: every operation that looks at it is given a view of
it. -/

set_option autoImplicit false

namespace AutoImport

/-- How a watched file changed. -/
inductive FileChange where
  | created
  | changed
  | deleted
  deriving Repr, DecidableEq

/-- A session whose compiler has states of type `σ`. -/
structure Session (σ : Type) where
  configuration : HostConfiguration := {}
  mode : SessionMode := .semantic
  manifests : ManifestCache
  compilerState : σ
  projects : Table Nat Project := {}
  /-- The number of the next project to be opened.  It is unbounded, so that no number is given out
  twice; a counter of 32 bits would come round to a number again, and then open a fresh project. -/
  nextId : Nat := 0

namespace Session

variable {σ : Type}

/-- A session without projects over a file system. -/
def start (caseSensitive : Bool) (compilerState : σ) : Session σ :=
  { manifests := { caseSensitive }, compilerState }

/-- The inclusion that the session asks for. -/
def inclusion (session : Session σ) : Inclusion :=
  session.configuration.inclusion

/-- What the session lends to a project. -/
def services (view : FileView) (session : Session σ) : Services :=
  { view
    inclusion := session.inclusion
    mode := session.mode
    typings := session.configuration.globalTypingsCacheLocation }

/-- What the projects share. -/
def shared (session : Session σ) : Shared σ :=
  ⟨session.manifests, session.compilerState⟩

/-- The project of a number. -/
def project? (session : Session σ) (id : Nat) : Option Project :=
  session.projects.get? id

/-- Puts a project and what the projects share back into the session. -/
def put (session : Session σ) (id : Nat) (project : Project) (shared : Shared σ) : Session σ :=
  { session with
    projects := session.projects.insert id project
    manifests := shared.manifests
    compilerState := shared.compilerState }

/-- Changes one project. -/
def modifyProject (session : Session σ) (id : Nat) (change : Project → Project) : Session σ :=
  { session with projects := session.projects.modify id change }

/-- Changes every project. -/
def modifyProjects (session : Session σ) (change : Project → Project) : Session σ :=
  { session with projects := session.projects.mapValues change }

/-- What a new configuration does to a project: other preferences for specifiers make the remembered
ones stale, another inclusion or directory of types concerns the provider. -/
def reconfigure (old new : HostConfiguration) (project : Project) : Project :=
  let specifiersChanged :=
    old.preferences.importModuleSpecifierEnding ≠ new.preferences.importModuleSpecifierEnding ∨
      old.preferences.importModuleSpecifierPreference ≠
        new.preferences.importModuleSpecifierPreference
  let settingsChanged :=
    old.preferences.includePackageJsonAutoImports ≠
        new.preferences.includePackageJsonAutoImports ∨
      old.globalTypingsCacheLocation ≠ new.globalTypingsCacheLocation
  let project := if specifiersChanged then { project with specifiers := {} } else project
  if settingsChanged then project.settingsChanged else project

/-- Applies a configuration. -/
def configure (session : Session σ) (configuration : HostConfiguration) : Session σ :=
  { session.modifyProjects (reconfigure session.configuration configuration) with configuration }

/-- Changes the mode. -/
def setMode (session : Session σ) (mode : SessionMode) : Session σ :=
  if session.mode = mode then session
  else { session.modifyProjects (Project.modeChanged · mode) with mode }

/-- Opens a project; gives its number. -/
def openProject (name directory : String) (roots : List String) (options : CompilerOptions)
    (session : Session σ) : Nat × Session σ :=
  let project := Project.create name directory roots options session.manifests.caseSensitive
  (session.nextId,
    { session with
      projects := session.projects.insert session.nextId project
      nextId := session.nextId + 1 })

/-- Closes a project; tells whether it was open. -/
def closeProject (session : Session σ) (id : Nat) : Bool × Session σ :=
  (session.projects.contains id, { session with projects := session.projects.erase id })

/-- Builds a project's program anew if that is demanded; tells whether it changed. -/
def updateGraph (compiler : Compiler σ) (id : Nat) (session : Session σ) : Bool × Session σ :=
  match session.project? id with
  | none => (false, session)
  | some project =>
    let (changed, project, state) := project.updateGraph compiler session.compilerState
    (changed, session.put id project ⟨session.manifests, state⟩)

/-- The program of a project's provider, after the project's own program was brought up to date. -/
def queryProvider (compiler : Compiler σ) (view : FileView) (id : Nat) (session : Session σ) :
    Probed (Option Program × Session σ) :=
  match session.project? id with
  | none => return (none, session)
  | some project => do
    let (_, project, state) := project.updateGraph compiler session.compilerState
    let (program, project, shared) ←
      project.queryProvider compiler (session.services view) ⟨session.manifests, state⟩
    return (program, session.put id project shared)

/-- The export index of a project, after the project's own program was brought up to date. -/
def queryExports (compiler : Compiler σ) (view : FileView) (id : Nat) (session : Session σ) :
    Probed (Option ExportIndex × Session σ) :=
  match session.project? id with
  | none => return (none, session)
  | some project => do
    let (_, project, state) := project.updateGraph compiler session.compilerState
    let (index, project, shared) ←
      project.queryExports compiler (session.services view) ⟨session.manifests, state⟩
    return (some index, session.put id project shared)

/-- The manifests visible from a project's directory. -/
def projectManifests (view : FileView) (id : Nat) (session : Session σ) :
    Probed (List Manifest × Session σ) :=
  match session.project? id with
  | none => return ([], session)
  | some project => do
    let (manifests, project, cache) ← project.visibleManifests view session.manifests
    return (manifests, session.put id project { session.shared with manifests := cache })

/-- The manifests visible from a file, as far as `rootDirectory`. -/
def visibleManifests (view : FileView) (fileName : String) (rootDirectory : Option String)
    (session : Session σ) : Probed (List Manifest × Session σ) := do
  let (manifests, cache) ←
    session.manifests.visibleFrom view (Path.normalize fileName "/") rootDirectory
  return (manifests, { session with manifests := cache })

/-- Lets every project react to a change; gives the number of those that did. -/
def routeChange (session : Session σ) (react : Project → Bool × Project) : Nat × Session σ :=
  ((session.projects.values.filter fun project => (react project).1).length,
    session.modifyProjects fun project => (react project).2)

/-- A manifest of a project was created, changed or deleted; gives the number of projects that
reacted. -/
def manifestChanged (view : FileView) (fileName : String) (change : FileChange)
    (session : Session σ) : Nat × Session σ :=
  let fileName := Path.normalize fileName "/"
  let manifests :=
    match change with
    | .deleted => session.manifests.delete fileName
    | .created | .changed => session.manifests.refresh view fileName
  { session with manifests }.routeChange (Project.manifestChanged fileName)

/-- A file that may change how packages are resolved changed; gives the number of providers that
became dirty. -/
def dependencyChanged (fileName : String) (session : Session σ) : Nat × Session σ :=
  session.routeChange (Project.dependencyChanged (Path.normalize fileName "/"))

end Session

end AutoImport
