import AutoImport.Proofs.Discovery.RepeatedRuns
import AutoImport.Proofs.Manifests.FiledManifests
import AutoImport.Proofs.Path.SlashKeys
import AutoImport.Proofs.Session.ProjectFates

/-!
# Reports about manifests

A project reacts to a report about a manifest if it consulted that manifest, or if its directory
lies in the manifest's directory.  The first test never adds anything to the second one: what a
project consults are manifests of its own directory and of directories above, in whatever letters
and from whatever project they were read (`Project.ConsultsAbove`).  To lie in a directory, in turn,
is to have it among one's ancestors.  So a project reacts exactly to files in its directory and in
those above, and to every manifest that it can see (`manifestChanged_iff_above`).

Every operation keeps the manifests of a session filed under the keys of their own files, and the
projects consulting above themselves, whatever the compiler and the file system are.
-/

set_option autoImplicit false

namespace AutoImport

variable {σ : Type}

open ManifestCache (IsFrom)

namespace Project

/-- What the project consulted are manifests of the directories in which it looks for them. -/
structure ConsultsAbove (caseSensitive : Bool) (project : Project) : Prop where
  letters : project.caseSensitive = caseSensitive
  directory : Path.IsNormal project.directory
  consulted : ∀ path ∈ project.consulted, ∃ above ∈ project.visibleDirectories,
    path = Path.canonical (Path.join above manifestName) "/" caseSensitive

variable {caseSensitive : Bool} {project after : Project} {cache : ManifestCache}

/-! ## Routes -/

/-- The key of a normal path does not depend on the project's directory. -/
theorem key_of_isNormal (project : Project) {path : String} (h : Path.IsNormal path) :
    project.key path = Path.canonical path "/" project.caseSensitive := by
  apply String.toList_inj.1
  unfold key
  rw [Path.toList_canonical h, Path.toList_canonical h]

/-- The keys of a project in a normal directory are normal. -/
theorem isNormal_key (h : Path.IsNormal project.directory) (path : String) :
    Path.IsNormal (project.key path) :=
  Path.isNormal_canonical path h project.caseSensitive

/-- A project in a directory that begins with `/` looks for manifests in this directory and
above. -/
theorem visibleDirectories_eq (hnormal : Path.IsNormal project.directory)
    (hslash : Path.IsSlashRooted project.directory) :
    project.visibleDirectories = Path.ancestors project.directory := by
  have hplain := Path.isPlain_of_isSlashRooted hnormal hslash
  have hdirectory : Path.directory (Path.join project.directory projectAnchor) =
      project.directory := by
    apply String.toList_inj.1
    unfold Path.directory Path.join
    rw [String.toList_ofList, String.toList_ofList]
    exact Chars.directory_join hplain.notBare hnormal.noBackslash Path.isName_projectAnchor
  unfold visibleDirectories
  rw [hdirectory]

/-- A reported manifest resets a project that consulted it or lies below its directory, and no
other. -/
theorem manifestChanged_fst (fileName : String) (project : Project) :
    (project.manifestChanged fileName).1 = true ↔
      project.key fileName ∈ project.consulted ∨
        Path.contains (Path.directory (project.key fileName)) (project.key project.directory) =
          true := by
  unfold manifestChanged
  dsimp only
  split
  · rename_i h
    exact iff_of_true rfl (by simpa using h)
  · rename_i h
    exact iff_of_false (by simp) (by simpa using h)

/-- The directory of the key of a manifest that can be seen contains the project. -/
theorem ConsultsAbove.contains_of_above (h : project.ConsultsAbove caseSensitive)
    (hslash : Path.IsSlashRooted project.directory) {above : String}
    (habove : above ∈ project.visibleDirectories) :
    Path.contains
      (Path.directory (Path.canonical (Path.join above manifestName) "/" caseSensitive))
      (project.key project.directory) = true := by
  rw [visibleDirectories_eq h.directory hslash] at habove
  rw [Path.directory_canonical_of_isSlashRooted (Path.isSlashRooted_of_mem_ancestors hslash habove),
    key_of_isNormal project h.directory, h.letters]
  exact Path.contains_of_mem_ancestors h.directory habove "/" caseSensitive

/-- A project reacts to the files in its directory and in those above, and to no others. -/
theorem ConsultsAbove.manifestChanged_iff (h : project.ConsultsAbove caseSensitive)
    (hslash : Path.IsSlashRooted project.directory) {fileName : String}
    (hfile : Path.IsSlashRooted (project.key fileName)) :
    (project.manifestChanged fileName).1 = true ↔
      Path.directory (project.key fileName) ∈ Path.ancestors (project.key project.directory) := by
  have hproject : Path.IsSlashRooted (project.key project.directory) := by
    rw [key_of_isNormal project h.directory]
    exact Path.isSlashRooted_canonical hslash project.caseSensitive
  have hdirectory :=
    Path.isPlain_directory_of_isSlashRooted (isNormal_key h.directory fileName) hfile
  rw [manifestChanged_fst, ← Path.contains_iff_mem_ancestors hdirectory.isNormal
    (Path.isSlashRooted_directory hfile) (isNormal_key h.directory project.directory) hproject]
  apply or_iff_right_of_imp
  intro hconsulted
  obtain ⟨above, habove, hpath⟩ := h.consulted _ hconsulted
  rw [hpath]
  exact h.contains_of_above hslash habove

/-- A project reacts to every manifest of a directory in which it looks for manifests. -/
theorem ConsultsAbove.manifestChanged_of_isFrom (h : project.ConsultsAbove caseSensitive)
    (hslash : Path.IsSlashRooted project.directory) {above : String} {manifest : Manifest}
    (habove : above ∈ project.visibleDirectories) (hfrom : IsFrom caseSensitive above manifest) :
    (project.manifestChanged manifest.fileName).1 = true := by
  rw [manifestChanged_fst, key_of_isNormal project hfrom.isNormal, h.letters, hfrom.key]
  exact Or.inr (h.contains_of_above hslash habove)

/-! ## What a project can do -/

/-- What leaves directory, case and consulted manifests alone keeps them above the project. -/
theorem ConsultsAbove.of_same (h : project.ConsultsAbove caseSensitive)
    (hletters : after.caseSensitive = project.caseSensitive)
    (hdirectory : after.directory = project.directory)
    (hconsulted : after.consulted = project.consulted) : after.ConsultsAbove caseSensitive := by
  refine ⟨hletters.trans h.letters, hdirectory ▸ h.directory, ?_⟩
  have hvisible : after.visibleDirectories = project.visibleDirectories := by
    unfold visibleDirectories
    rw [hdirectory]
  rw [hconsulted, hvisible]
  exact h.consulted

/-- A new project has consulted nothing. -/
theorem create_consultsAbove (name directory : String) (roots : List String)
    (options : CompilerOptions) (caseSensitive : Bool) :
    (create name directory roots options caseSensitive).ConsultsAbove caseSensitive :=
  ⟨rfl, Path.isNormal_normalize directory Path.isNormal_root,
    fun _ h => absurd h (by simp [create])⟩

/-- Updating the graph consults nothing more. -/
theorem ConsultsAbove.updateGraph (h : project.ConsultsAbove caseSensitive)
    (compiler : Compiler σ) (state : σ) :
    (project.updateGraph compiler state).2.1.ConsultsAbove caseSensitive := by
  rcases updateGraph_eq compiler project state with heq | ⟨-, heq⟩ | heq
  all_goals
    rw [heq]
    exact h.of_same rfl rfl rfl

/-- A change of the configuration consults nothing more. -/
theorem ConsultsAbove.reconfigure (h : project.ConsultsAbove caseSensitive)
    (old new : HostConfiguration) :
    (Session.reconfigure old new project).ConsultsAbove caseSensitive := by
  obtain ⟨specifiers, ⟨-, -, heq⟩ | heq⟩ := reconfigure_eq old new project
  all_goals
    rw [heq]
    exact h.of_same rfl rfl rfl

/-- A change of mode consults nothing more. -/
theorem ConsultsAbove.modeChanged (h : project.ConsultsAbove caseSensitive) (mode : SessionMode) :
    (project.modeChanged mode).ConsultsAbove caseSensitive := by
  unfold Project.modeChanged
  split
  all_goals exact h.of_same rfl rfl rfl

/-- A reported manifest consults nothing more. -/
theorem ConsultsAbove.manifestChanged (h : project.ConsultsAbove caseSensitive)
    (fileName : String) : (project.manifestChanged fileName).2.ConsultsAbove caseSensitive := by
  rcases manifestChanged_eq fileName project with heq | heq
  all_goals
    rw [heq]
    exact h.of_same rfl rfl rfl

/-- A reported dependency consults nothing more. -/
theorem ConsultsAbove.dependencyChanged (h : project.ConsultsAbove caseSensitive)
    (fileName : String) : (project.dependencyChanged fileName).2.ConsultsAbove caseSensitive := by
  rcases dependencyChanged_eq fileName project with ⟨-, heq⟩ | ⟨-, -, heq⟩ | ⟨-, provider, -, heq⟩
  all_goals
    rw [heq]
    exact h.of_same rfl rfl rfl

/-- An operation on the project consults nothing more. -/
theorem ConsultsAbove.operate (h : project.ConsultsAbove caseSensitive)
    (operation : ProjectOperation) : (operation.run project).ConsultsAbove caseSensitive := by
  cases operation with
  | setRoots | setOptions | markDirty | settingsChanged | seedSymlinks | setSpecifiers =>
    exact h.of_same rfl rfl rfl
  | setEnabled isEnabled =>
    show (project.setEnabled isEnabled).ConsultsAbove caseSensitive
    unfold setEnabled
    split
    · exact h
    · split
      all_goals exact h.of_same rfl rfl rfl
  | modeChanged mode => exact h.modeChanged mode
  | manifestChanged fileName => exact h.manifestChanged fileName
  | dependencyChanged fileName => exact h.dependencyChanged fileName
  | close =>
    refine ⟨h.letters, h.directory, ?_⟩
    intro path hpath
    exact absurd hpath (by simp [ProjectOperation.run, close])

/-- A project sees manifests of its visible directories, and these are what it consulted then. -/
theorem ConsultsAbove.visibleManifests (h : project.ConsultsAbove caseSensitive)
    (hcache : cache.FiledIn caseSensitive) (view : FileView) :
    let seen := (project.visibleManifests view cache).val
    (∀ manifest ∈ seen.1, ∃ above ∈ project.visibleDirectories,
      IsFrom caseSensitive above manifest) ∧
    seen.2.1.ConsultsAbove caseSensitive ∧ seen.2.2.FiledIn caseSensitive := by
  obtain ⟨hseen, hleft⟩ := hcache.visibleAlong view none
    fun _ habove => isNormal_of_mem_visibleDirectories h.directory habove
  rw [visibleManifests_val]
  refine ⟨hseen, ⟨h.letters, h.directory, ?_⟩, hleft⟩
  intro path hpath
  obtain ⟨manifest, hmanifest, rfl⟩ := List.mem_map.1 hpath
  obtain ⟨above, habove, hfrom⟩ := hseen manifest hmanifest
  refine ⟨above, habove, ?_⟩
  rw [key_of_isNormal project hfrom.isNormal, h.letters, hfrom.key]

/-- A discovery consults manifests above the project only, and files them in their places. -/
theorem ConsultsAbove.findings (h : project.ConsultsAbove caseSensitive)
    (hcache : cache.FiledIn caseSensitive) (services : Services) :
    (project.findings services cache).2.1.ConsultsAbove caseSensitive ∧
      (project.findings services cache).2.2.FiledIn caseSensitive := by
  obtain ⟨-, hproject, hleft⟩ := h.visibleManifests hcache services.view
  unfold Project.findings discover
  split
  · exact ⟨hproject.of_same rfl rfl rfl, hleft⟩
  · exact ⟨h, hcache⟩

/-- However a query comes out, the project has consulted manifests above itself only. -/
theorem Outcome.consultsAbove {compiler : Compiler σ} {services : Services} {shared : Shared σ}
    {outcome : Option Program × Project × Shared σ}
    (houtcome : Outcome compiler services project shared outcome)
    (h : project.ConsultsAbove caseSensitive) (hcache : shared.manifests.FiledIn caseSensitive) :
    outcome.2.1.ConsultsAbove caseSensitive ∧
      outcome.2.2.manifests.FiledIn caseSensitive := by
  obtain ⟨hfound, hleft⟩ := h.findings hcache services
  cases houtcome with
  | closed => exact ⟨h, hcache⟩
  | closes => exact ⟨h.of_same rfl rfl rfl, hcache⟩
  | clean => exact ⟨h, hcache⟩
  | empties => exact ⟨hfound.of_same rfl rfl rfl, hleft⟩
  | builds => exact ⟨hfound.of_same rfl rfl rfl, hleft⟩

end Project

/-! ## Sessions -/

namespace Session

/-- The manifests are filed under the keys of their files, and all projects consult above
themselves. -/
structure ConsultsAbove (caseSensitive : Bool) (session : Session σ) : Prop where
  manifests : session.manifests.FiledIn caseSensitive
  projects : session.Each (Project.ConsultsAbove caseSensitive)

variable {compiler : Compiler σ} {session : Session σ} {caseSensitive : Bool}

/-- Asking a project for its provider consults manifests above it only. -/
theorem ConsultsAbove.asked (h : session.ConsultsAbove caseSensitive)
    (horderly : session.Orderly compiler) (view : FileView) {id : Nat} {project : Project}
    (hopen : session.project? id = some project) :
    (session.asked compiler view project).2.1.ConsultsAbove caseSensitive ∧
      (session.asked compiler view project).2.2.manifests.FiledIn caseSensitive :=
  (horderly.outcome view hopen).consultsAbove
    ((h.projects id project hopen).updateGraph compiler session.compilerState) h.manifests

/-- Every operation keeps the manifests filed and the projects consulting above themselves. -/
theorem ConsultsAbove.run (h : session.ConsultsAbove caseSensitive)
    (horderly : session.Orderly compiler) (view : FileView) (operation : Operation) :
    (operation.run compiler view session).ConsultsAbove caseSensitive := by
  cases operation with
  | openProject name directory roots options =>
    refine ⟨h.manifests, h.projects.openProject name directory roots options ?_⟩
    rw [h.manifests.letters]
    exact Project.create_consultsAbove name directory roots options caseSensitive
  | closeProject closed => exact ⟨h.manifests, h.projects.closeProject closed⟩
  | configure configuration =>
    refine ⟨h.manifests, h.projects.of_changes ?_ (project?_modifyProjects session · _)⟩
    exact fun project hproject => hproject.reconfigure _ configuration
  | setMode mode =>
    show (session.setMode mode).ConsultsAbove caseSensitive
    unfold setMode
    split
    · exact h
    · refine ⟨h.manifests, h.projects.of_changes ?_ (project?_modifyProjects session · _)⟩
      exact fun project hproject => hproject.modeChanged mode
  | updateGraph id =>
    show (session.updateGraph compiler id).2.ConsultsAbove caseSensitive
    cases hopen : session.project? id with
    | none =>
      unfold Session.updateGraph
      rw [hopen]
      exact h
    | some project =>
      have hproject := (h.projects id project hopen).updateGraph compiler session.compilerState
      rw [updateGraph_of_open hopen]
      exact ⟨h.manifests, h.projects.put id hproject _⟩
  | queryProvider id =>
    show (session.queryProvider compiler view id).val.2.ConsultsAbove caseSensitive
    cases hopen : session.project? id with
    | none =>
      rw [queryProvider_of_closed compiler view hopen]
      exact h
    | some project =>
      obtain ⟨hproject, hshared⟩ := h.asked horderly view hopen
      rw [queryProvider_of_open hopen]
      exact ⟨hshared, h.projects.put id hproject _⟩
  | queryExports id =>
    show (session.queryExports compiler view id).val.2.ConsultsAbove caseSensitive
    cases hopen : session.project? id with
    | none =>
      unfold Session.queryExports
      rw [hopen]
      exact h
    | some project =>
      obtain ⟨hproject, hshared⟩ := h.asked horderly view hopen
      obtain ⟨index, hval⟩ := queryExports_of_open compiler view hopen
      rw [hval]
      refine ⟨hshared, h.projects.put id ?_ _⟩
      exact hproject.of_same rfl rfl rfl
  | projectManifests id =>
    show (session.projectManifests view id).val.2.ConsultsAbove caseSensitive
    unfold Session.projectManifests
    cases hopen : session.project? id with
    | none => exact h
    | some project =>
      obtain ⟨-, hproject, hleft⟩ := (h.projects id project hopen).visibleManifests h.manifests view
      exact ⟨hleft, h.projects.put id hproject _⟩
  | visibleManifests fileName rootDirectory =>
    have hfile := Path.isNormal_normalize fileName Path.isNormal_root
    refine ⟨(h.manifests.visibleAlong view rootDirectory ?_).2, h.projects⟩
    exact fun _ habove => Path.isNormal_of_mem_ancestors (Path.isNormal_directory hfile) habove
  | manifestChanged fileName change =>
    have hfile := Path.isNormal_normalize fileName Path.isNormal_root
    refine ⟨?_, h.projects.of_changes (fun project hproject => hproject.manifestChanged _)
      (project?_manifestChanged session view fileName change)⟩
    cases change with
    | deleted => exact h.manifests.delete _
    | created | changed => exact h.manifests.refresh view hfile
  | dependencyChanged fileName =>
    refine ⟨h.manifests, h.projects.of_changes ?_ (project?_dependencyChanged session fileName)⟩
    exact fun project hproject => hproject.dependencyChanged _
  | onProject changed operation =>
    refine ⟨h.manifests, h.projects.modifyProject changed ?_⟩
    exact fun project hproject => hproject.operate operation

/-- A session that has just started has consulted nothing. -/
theorem startWith_consultsAbove (caseSensitive : Bool) (configuration : HostConfiguration)
    (mode : SessionMode) (state : σ) :
    (startWith caseSensitive configuration mode state).ConsultsAbove caseSensitive :=
  ⟨ManifestCache.filedIn_empty caseSensitive,
    each_startWith _ caseSensitive configuration mode state⟩

/-- Through any steps all projects consult manifests above themselves only. -/
theorem ConsultsAbove.through (h : session.ConsultsAbove caseSensitive)
    (horderly : session.Orderly compiler) (steps : List (FileView × Operation)) :
    (session.through compiler steps).ConsultsAbove caseSensitive := by
  induction steps generalizing session with
  | nil => exact h
  | cons step rest ih => exact ih (h.run horderly step.1 step.2) (horderly.run step.1 step.2)

/-- Take a new session, any operations, each on the file system as it is then, and a project that is
open afterwards in a directory that begins with `/`.  The project reacts to a file whose key begins
with `/` exactly if the file's directory is the project's own or one above it, by their keys,
whatever the project has consulted so far.  And every manifest that the project can see now is one
to which every project of this directory reacts at any time, before it has looked at any manifest
and after. -/
theorem manifestChanged_iff_above (compiler : Compiler σ) (caseSensitive : Bool)
    (configuration : HostConfiguration) (mode : SessionMode) (state : σ)
    (steps : List (FileView × Operation)) {id : Nat} {project : Project}
    (hopen :
      ((startWith caseSensitive configuration mode state).through compiler steps).project? id =
        some project)
    (hslash : Path.IsSlashRooted project.directory) :
    let fresh := startWith caseSensitive configuration mode state
    (∀ fileName, Path.IsSlashRooted (project.key fileName) →
      ((project.manifestChanged fileName).1 = true ↔
        Path.directory (project.key fileName) ∈
          Path.ancestors (project.key project.directory))) ∧
    ∀ view, ∀ manifest ∈ ((fresh.through compiler steps).projectManifests view id).val.1,
      ∀ otherSteps other next, (fresh.through compiler otherSteps).project? other = some next →
        next.directory = project.directory →
        (next.manifestChanged manifest.fileName).1 = true := by
  intro fresh
  have hreached : ∀ reached, (fresh.through compiler reached).ConsultsAbove caseSensitive :=
    (startWith_consultsAbove caseSensitive configuration mode state).through
      (startWith_orderly compiler caseSensitive configuration mode state)
  have hproject := (hreached steps).projects id project hopen
  refine ⟨fun fileName hfile => hproject.manifestChanged_iff hslash hfile, ?_⟩
  intro view manifest hmanifest otherSteps other next hnext hdirectory
  have hseen := (hproject.visibleManifests (hreached steps).manifests view).1
  have hshown : ((fresh.through compiler steps).projectManifests view id).val.1 =
      (project.visibleManifests view (fresh.through compiler steps).manifests).val.1 := by
    unfold projectManifests
    rw [hopen]
    rfl
  rw [hshown] at hmanifest
  obtain ⟨above, habove, hfrom⟩ := hseen manifest hmanifest
  apply ((hreached otherSteps).projects other next hnext).manifestChanged_of_isFrom
    (hdirectory ▸ hslash) _ hfrom
  unfold Project.visibleDirectories at habove ⊢
  rwa [hdirectory]

/-- A manifest was read from elsewhere in other letters before the project saw it. -/
def seenElsewhere : Session Nat :=
  let view := (({ caseSensitive := false } : MemoryTree).writeFile "/app/package.json" "{}").view
  (startWith false {} .semantic 0).through .fileList
    [(view, .visibleManifests "/APP/main.ts" none), (view, .openProject "p" "/App/src" [] {}),
      (view, .projectManifests 0)]

/-- The project reacts to what it consulted, which lies above it, and not to what lies below. -/
theorem manifestChanged_seenElsewhere :
    ∃ project, seenElsewhere.project? 0 = some project ∧
      project.consulted = ["/app/package.json"] ∧
      (project.manifestChanged "/APP/package.json").1 = true ∧
      (project.manifestChanged "/app/src/lib/package.json").1 = false := by
  have hseen : (seenElsewhere.project? 0).map (fun project =>
      (project.consulted, project.directory, project.caseSensitive)) =
        some (["/app/package.json"], "/App/src", false) := by
    decide +kernel
  obtain ⟨project, hopen, hproject⟩ := Option.map_eq_some_iff.1 hseen
  rw [Prod.mk.injEq, Prod.mk.injEq] at hproject
  obtain ⟨hconsulted, hdirectory, hletters⟩ := hproject
  have hroutes := (manifestChanged_iff_above .fileList false {} .semantic 0 _ hopen
    (by rw [hdirectory]; decide)).1
  refine ⟨project, hopen, hconsulted, ?_, ?_⟩
  · rw [hroutes _ (by unfold Project.key; rw [hdirectory, hletters]; decide +kernel)]
    unfold Project.key
    rw [hdirectory, hletters]
    decide +kernel
  · rw [Bool.eq_false_iff, ne_eq,
      hroutes _ (by unfold Project.key; rw [hdirectory, hletters]; decide +kernel)]
    unfold Project.key
    rw [hdirectory, hletters]
    decide +kernel

end Session

end AutoImport
