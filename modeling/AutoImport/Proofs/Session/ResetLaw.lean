import AutoImport.Proofs.Session.CacheTransparency

/-!
# Events that reset a project

A file system may be edited without notice, and then what a session remembers is stale.  `Resets`
lists the events after which nothing of that shows any more in a project: a changed program, other
options, a changed manifest that concerns the project, and a changed file that reaches it.  After
one of them, and after any truthful operations that follow on the same tree, the project is answered
for afresh, as long as the event leaves the manifests of the session in agreement with the tree
where the project looks for them (`answersFresh_of_resets`).

Only the report of a changed manifest touches the manifests: it reads the one that it names anew.
So they need not agree with the tree before an edited manifest is reported.
-/

set_option autoImplicit false

namespace AutoImport.Session

variable {σ : Type} {compiler : Compiler σ} {knows : σ → Program → Prop} {caseSensitive : Bool}
  {session : Session σ} {tree : MemoryTree} {id : Nat} {project : Project}

/-- The events after which an open project is looked at afresh.  Changes are reported to the project
itself or to the session, which passes them on. -/
inductive Resets (compiler : Compiler σ) (id : Nat) (session : Session σ)
    (project : Project) : Operation → Prop where
  /-- The program turned out to be another one. -/
  | updateGraph (h : (session.updateGraph compiler id).1 = true) :
    Resets compiler id session project (.updateGraph id)
  | setOptions (options : CompilerOptions) :
    Resets compiler id session project (.onProject id (.setOptions options))
  /-- The project said that the manifest concerns it. -/
  | manifestChanged (fileName : String) (h : (project.manifestChanged fileName).1 = true) :
    Resets compiler id session project (.onProject id (.manifestChanged fileName))
  | manifestReported (fileName : String) (change : FileChange)
    (h : (project.manifestChanged (Path.normalize fileName "/")).1 = true) :
    Resets compiler id session project (.manifestChanged fileName change)
  /-- The project said that its provider became dirty, or the file is the manifest of a package that
  is looked for from the project's directory. -/
  | dependencyChanged (fileName : String)
    (h : (project.dependencyChanged fileName).1 = true ∨
      ChangeRouting.isManifestInScope (project.key fileName) (project.key project.directory) =
        true) :
    Resets compiler id session project (.onProject id (.dependencyChanged fileName))
  | dependencyReported (fileName : String)
    (h : (project.dependencyChanged (Path.normalize fileName "/")).1 = true ∨
      ChangeRouting.isManifestInScope (project.key (Path.normalize fileName "/"))
        (project.key project.directory) = true) :
    Resets compiler id session project (.dependencyChanged fileName)

/-- A reset leaves a project that is reset and lies in the same directory. -/
theorem Resets.isReset {event : Operation} (hopen : session.project? id = some project)
    (h : Resets compiler id session project event) :
    ∃ next, (event.run compiler tree.view session).project? id = some next ∧ next.IsReset ∧
      next.directory = project.directory := by
  have hmodified : ∀ change : Project → Project,
      (session.modifyProject id change).project? id = some (change project) := by
    intro change
    rw [project?_modifyProject, if_pos rfl, hopen]
    rfl
  have hdependency : ∀ fileName : String,
      ((project.dependencyChanged fileName).1 = true ∨ project.sees fileName = true) →
        (project.dependencyChanged fileName).2.IsReset := by
    intro fileName hfile
    refine Project.dependencyChanged_isReset ?_
    rcases hfile with hfile | hfile
    · exact Project.reacts_of_dependencyChanged hfile
    · exact Project.reacts_of_sees hfile
  cases h with
  | updateGraph hchanged =>
    rw [updateGraph_of_open hopen] at hchanged
    refine ⟨(session.current compiler project).1, ?_, Project.updateGraph_isReset hchanged,
      Project.directory_updateGraph compiler project session.compilerState⟩
    show (session.updateGraph compiler id).2.project? id = _
    rw [updateGraph_of_open hopen, project?_put, if_pos rfl]
  | setOptions options =>
    exact ⟨project.setOptions options, hmodified _, Project.setOptions_isReset options project, rfl⟩
  | manifestChanged fileName hconcerns =>
    exact ⟨(project.manifestChanged fileName).2, hmodified _,
      Project.manifestChanged_isReset hconcerns, Project.directory_manifestChanged fileName project⟩
  | manifestReported fileName change hconcerns =>
    refine ⟨(project.manifestChanged (Path.normalize fileName "/")).2, ?_,
      Project.manifestChanged_isReset hconcerns, Project.directory_manifestChanged _ project⟩
    show (session.manifestChanged tree.view fileName change).2.project? id = _
    rw [project?_manifestChanged, hopen]
    rfl
  | dependencyChanged fileName hreaches =>
    exact ⟨(project.dependencyChanged fileName).2, hmodified _, hdependency fileName hreaches,
      Project.directory_dependencyChanged fileName project⟩
  | dependencyReported fileName hreaches =>
    refine ⟨(project.dependencyChanged (Path.normalize fileName "/")).2, ?_,
      hdependency _ hreaches, Project.directory_dependencyChanged _ project⟩
    show (session.dependencyChanged fileName).2.project? id = _
    rw [project?_dependencyChanged, hopen]
    rfl

/-- The report of a file leaves the manifests of a session as they are. -/
theorem manifests_dependencyChanged (compiler : Compiler σ) (view : FileView) (session : Session σ)
    (fileName : String) :
    ((Operation.dependencyChanged fileName).run compiler view session).manifests =
      session.manifests :=
  rfl

/-- The report of a manifest that was written reads it anew. -/
theorem manifests_manifestChanged (compiler : Compiler σ) (view : FileView) (session : Session σ)
    (fileName : String) :
    ((Operation.manifestChanged fileName .changed).run compiler view session).manifests =
      session.manifests.refresh view (Path.normalize fileName "/") :=
  rfl

/-- A reset settles a project if it leaves the manifests of the session in agreement with the
tree. -/
theorem settledAt_of_resets (hcompiler : compiler.Faithful knows)
    (hcoherent : session.Coherent knows tree.caseSensitive)
    (hopen : session.project? id = some project) {event : Operation}
    (hevent : Resets compiler id session project event)
    (hmanifests : ∀ directory ∈ project.visibleDirectories,
      (event.run compiler tree.view session).manifests.AgreesAt tree directory) :
    (event.run compiler tree.view session).SettledAt knows tree id := by
  intro next hnext
  obtain ⟨next', hnext', hreset, hdirectory⟩ := hevent.isReset hopen
  obtain rfl : next' = next := Option.some.inj (hnext'.symm.trans hnext)
  have hlater := hcoherent.run hcompiler tree event
  refine Project.settled_of_isReset hreset (hlater.projects id next' hnext)
    hlater.caseSensitive ?_
  have hdirectories : next'.visibleDirectories = project.visibleDirectories := by
    unfold Project.visibleDirectories
    rw [hdirectory]
  rw [hdirectories]
  exact hmanifests

/-- What is reached from a reachable session is reachable. -/
theorem Reachable.after {operations : List Operation}
    (h : Reachable compiler tree.caseSensitive session) :
    Reachable compiler tree.caseSensitive (session.after compiler tree operations) := by
  induction operations generalizing session with
  | nil => exact h
  | cons operation rest ih => exact ih (h.step tree operation rfl)

/-- The reset law.  However a session came about and however stale it is, after an event that resets
an open project and leaves the manifests of the session in agreement with the tree where the project
looks for them, and after any truthful operations that follow, the project is answered for as if
nothing were remembered. -/
theorem answersFresh_of_resets (hcompiler : compiler.Faithful knows)
    (hreachable : Reachable compiler tree.caseSensitive session)
    (hopen : session.project? id = some project) {event : Operation}
    (hevent : Resets compiler id session project event)
    (hmanifests : ∀ directory ∈ project.visibleDirectories,
      (event.run compiler tree.view session).manifests.AgreesAt tree directory)
    {between : List Operation} (hbetween : ∀ operation ∈ between, operation.Truthful tree) :
    (session.after compiler tree (event :: between)).AnswersFresh compiler tree id := by
  have hcoherent := hreachable.coherent hcompiler
  have hsettled := settledAt_of_resets hcompiler hcoherent hopen hevent hmanifests
  have hnumber := Nat.lt_of_lt_of_le (hcoherent.numbers id project hopen)
    (event.advance hcompiler hcoherent tree).nextId
  exact (hsettled.after hcompiler (hcoherent.run hcompiler tree event) hnumber hbetween).1
    |>.answersFresh hcompiler

/-- The tree in which the manifest was edited: it lists another package, which is installed. -/
def editedTree : MemoryTree :=
  ((MemoryTree.writeFile {} "/package.json"
    "\x7b\"dependencies\":\x7b\"b\":\"1\"\x7d\x7d").writeFile
      "/node_modules/b/package.json" "{}").writeFile "/node_modules/b/index.d.ts" ""

/-- A session that looked for the listed package before it was installed. -/
def disappointed : Session Nat :=
  (startWith true {} .semantic 0).after .fileList listingTree
    [.openProject "p" "/" ["/main.ts"] {}, .queryProvider 0]

/-- What there is to know about the project of that session: where it looks for manifests, and that
it takes up a report of the package and one of its own manifest. -/
theorem disappointed_project : ∃ project, disappointed.project? 0 = some project ∧
    project.visibleDirectories = ["/"] ∧
    ChangeRouting.isManifestInScope
      (project.key (Path.normalize "/node_modules/a/package.json" "/"))
      (project.key project.directory) = true ∧
    (project.manifestChanged (Path.normalize "/package.json" "/")).1 = true := by
  have hfacts : (disappointed.project? 0).map (fun project => (project.visibleDirectories,
      ChangeRouting.isManifestInScope
        (project.key (Path.normalize "/node_modules/a/package.json" "/"))
        (project.key project.directory),
      (project.manifestChanged (Path.normalize "/package.json" "/")).1)) =
        some (["/"], true, true) := by decide +kernel
  obtain ⟨project, hproject, hparts⟩ := Option.map_eq_some_iff.1 hfacts
  simp only [Prod.mk.injEq] at hparts
  exact ⟨project, hproject, hparts⟩

/-- The package is installed without notice; its manifest, reported once, brings the entry point.
If instead the manifest at the root is edited and then reported, the report reads it anew, and the
entry point of the package that it lists now is answered. -/
theorem answersFresh_of_resets_installed :
    (disappointed.queryProvider .fileList installedTree.view 0).val.1 = none ∧
      (let installed := disappointed.after .fileList installedTree
        [.dependencyChanged "/node_modules/a/package.json"]
      installed.AnswersFresh .fileList installedTree 0 ∧
        (installed.queryProvider .fileList installedTree.view 0).val.1.map Program.roots =
          some ["/node_modules/a/index.d.ts"]) ∧
      (let edited := disappointed.after .fileList editedTree
        [.manifestChanged "/package.json" .changed]
      edited.AnswersFresh .fileList editedTree 0 ∧
        (edited.queryProvider .fileList editedTree.view 0).val.1.map Program.roots =
          some ["/node_modules/b/index.d.ts"]) := by
  obtain ⟨project, hproject, hdirectories, hscope, hconcerns⟩ := disappointed_project
  have hreachable : ∀ tree : MemoryTree, tree.caseSensitive = listingTree.caseSensitive →
      Reachable .fileList tree.caseSensitive disappointed := by
    intro tree hcase
    rw [hcase]
    exact (Reachable.start {} .semantic 0).after
  refine ⟨by decide +kernel, ⟨?_, by decide +kernel⟩, ?_, by decide +kernel⟩
  · have hsettled : disappointed.Settled (fun built program => program.id ≤ built) listingTree :=
      (startWith_settled _ listingTree {} .semantic 0).after Compiler.fileList_faithful
        (by decide +kernel)
    refine answersFresh_of_resets Compiler.fileList_faithful
      (hreachable installedTree (by decide +kernel)) hproject
      (.dependencyReported _ (Or.inr hscope)) ?_ (by simp)
    rw [hdirectories, manifests_dependencyChanged]
    intro directory hdirectory
    obtain rfl := List.mem_singleton.1 hdirectory
    exact (hsettled.manifests "/" Path.isNormal_root).of_readText_eq (by decide +kernel)
  · refine answersFresh_of_resets Compiler.fileList_faithful
      (hreachable editedTree (by decide +kernel)) hproject
      (.manifestReported _ .changed hconcerns) ?_ (by simp)
    rw [hdirectories, manifests_manifestChanged]
    intro directory hdirectory
    obtain rfl := List.mem_singleton.1 hdirectory
    exact ManifestCache.agreesAt_refresh disappointed.manifests (by decide +kernel)
      (by decide +kernel)

end AutoImport.Session
