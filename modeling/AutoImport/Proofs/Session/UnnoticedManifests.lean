import AutoImport.Proofs.Path.PackageScope
import AutoImport.Proofs.Session.ResetLaw

/-!
# Manifests that go unnoticed

A discovery looks for a package in the `node_modules` directories above the project and, for
packages that declare types, also in those above the directory of acquired types.  It remembers what
it found, misses included.  A report that the manifest of a package changed is taken up by a project
only if the manifest is in scope for the project's directory or lies in a package that the provider
has already.  So a report is as good as a fresh start exactly where the project takes it up, or
where the change made no difference (`answersFresh_dependencyChanged_iff`).  Manifests above the
project are always taken up.  One above the directory of acquired types is not, if it was missing
when it was looked for (`not_answersFresh_acquired`).
-/

set_option autoImplicit false

namespace AutoImport

namespace Project

variable {project : Project} {packageName : String}

/-- A project sees the manifest of an installed package when the directory above its `node_modules`
contains the project's directory. -/
theorem sees_installedManifest (project : Project) {ancestor : String}
    (h : Path.IsNormal ancestor) (hname : IsPackageName packageName) :
    project.sees (Path.normalize (installedManifest ancestor packageName) "/") =
      Path.contains (project.key ancestor) (project.key project.directory) := by
  obtain ⟨hnormal, -⟩ := installedManifest_spec h hname
  unfold sees
  rw [Path.normalize_of_isNormal "/" hnormal]
  exact ChangeRouting.isManifestInScope_installed h hname _ _ _

/-- A project sees every manifest that is looked for from its directory. -/
theorem sees_of_mem_candidates (hnormal : Path.IsNormal project.directory)
    (hname : IsPackageName packageName) {candidate : String}
    (h : candidate ∈ PackageLookup.candidates packageName project.directory) :
    project.sees (Path.normalize (Path.join candidate manifestName) "/") = true := by
  unfold PackageLookup.candidates at h
  obtain ⟨ancestor, hancestor, rfl⟩ := List.mem_map.1 h
  have hmem := (List.mem_filter.1 hancestor).1
  have hnormal' := Path.isNormal_of_mem_ancestors (Or.inr hnormal) hmem
  refine (sees_installedManifest project hnormal' hname).trans ?_
  exact Path.contains_of_mem_ancestors hnormal hmem _ _

end Project

namespace Session

variable {σ : Type} {compiler : Compiler σ} {knows : σ → Program → Prop} {session : Session σ}
  {tree : MemoryTree} {id : Nat} {project : Project}

/-- Only the project itself and what it shares with the others matter to an answer. -/
theorem answersFresh_congr {first second : Session σ}
    (hproject : first.project? id = second.project? id)
    (hservices : first.services tree.view = second.services tree.view)
    (hshared : first.shared = second.shared) :
    first.AnswersFresh compiler tree id ↔ second.AnswersFresh compiler tree id := by
  have hmode : first.mode = second.mode := congrArg Services.mode hservices
  have hmanifests : first.manifests = second.manifests := congrArg Shared.manifests hshared
  have hstate : first.compilerState = second.compilerState := congrArg Shared.compilerState hshared
  have hasked : ∀ project, first.project? id = some project →
      (first.queryProvider compiler tree.view id).val.1 =
        (second.queryProvider compiler tree.view id).val.1 := by
    intro project hopen
    rw [queryProvider_of_open hopen, queryProvider_of_open (hproject.symm.trans hopen)]
    unfold asked current
    rw [hservices, hmanifests, hstate]
  unfold AnswersFresh
  rw [← hproject]
  refine forall_congr' fun project => forall_congr' fun hopen => ?_
  rw [hasked project hopen, hservices, hstate, hmode]

/-- A report that a project does not take up changes none of its answers. -/
theorem answersFresh_dependencyChanged_of_not_reacts
    (hopen : session.project? id = some project) {fileName : String}
    (h : project.reacts (Path.normalize fileName "/") = false) :
    (session.dependencyChanged fileName).2.AnswersFresh compiler tree id ↔
      session.AnswersFresh compiler tree id := by
  refine answersFresh_congr ?_ rfl rfl
  rw [project?_dependencyChanged, hopen]
  rcases Project.dependencyChanged_eq (Path.normalize fileName "/") project with
    ⟨-, heq⟩ | ⟨hreacts, -⟩ | ⟨hreacts, -⟩
  · rw [Option.map_some, heq]
  · exact absurd (h.symm.trans hreacts) (by simp)
  · exact absurd (h.symm.trans hreacts) (by simp)

/-- A report that a project takes up resets it. -/
theorem resets_of_reacts {fileName : String}
    (h : project.reacts (Path.normalize fileName "/") = true) :
    Resets compiler id session project (.dependencyChanged fileName) := by
  refine .dependencyReported fileName ?_
  rcases Project.dependencyChanged_eq (Path.normalize fileName "/") project with
    ⟨hno, -⟩ | ⟨-, hslot, -⟩ | ⟨-, provider, -, heq⟩
  · exact absurd (hno.symm.trans h) (by simp)
  · -- Without a provider only manifests in scope are taken up.
    right
    unfold Project.reacts at h
    rw [hslot, Option.any_none, Bool.or_false] at h
    exact h
  · left
    rw [heq]

/-- Where the manifests of a session agree with the tree, however the tree was edited otherwise,
a report of a file makes the answers fresh again exactly if the project takes it up, or if they were
fresh without it.  The project takes up every manifest that is looked for from its own directory.
A manifest above another directory, such as the one of acquired types, it sees only where the
directory above its `node_modules` contains the project too. -/
theorem answersFresh_dependencyChanged_iff (hcompiler : compiler.Faithful knows)
    (hreachable : Reachable compiler tree.caseSensitive session)
    (hopen : session.project? id = some project)
    (hmanifests : ∀ directory ∈ project.visibleDirectories,
      session.manifests.AgreesAt tree directory) :
    (∀ fileName, (session.dependencyChanged fileName).2.AnswersFresh compiler tree id ↔
      project.reacts (Path.normalize fileName "/") = true ∨
        session.AnswersFresh compiler tree id) ∧
    ∀ packageName, IsPackageName packageName →
      ∀ looked ∈ [packageName, Discovery.typesPackage packageName],
        (∀ candidate ∈ PackageLookup.candidates looked project.directory,
          (session.dependencyChanged (Path.join candidate manifestName)).2.AnswersFresh compiler
            tree id) ∧
        ∀ acquired, Path.IsNormal acquired → ∀ ancestor ∈ Path.ancestors acquired,
          project.sees (Path.normalize (installedManifest ancestor looked) "/") =
            Path.contains (project.key ancestor) (project.key project.directory) := by
  have hcoherent := hreachable.coherent hcompiler
  have hnormal := (hcoherent.projects id project hopen).directory
  have hreported : ∀ fileName,
      (session.dependencyChanged fileName).2.AnswersFresh compiler tree id ↔
        project.reacts (Path.normalize fileName "/") = true ∨
          session.AnswersFresh compiler tree id := by
    intro fileName
    cases hreacts : project.reacts (Path.normalize fileName "/") with
    | false =>
      rw [answersFresh_dependencyChanged_of_not_reacts hopen hreacts]
      simp
    | true =>
      -- The report leaves the manifests of the session as they are.
      have hsettled := settledAt_of_resets hcompiler hcoherent hopen (resets_of_reacts hreacts)
        hmanifests
      exact ⟨fun _ => Or.inl rfl, fun _ => hsettled.answersFresh hcompiler⟩
  refine ⟨hreported, ?_⟩
  intro packageName hname looked hlooked
  have hordinary : IsPackageName looked := by
    rcases List.mem_cons.1 hlooked with rfl | hlooked
    · exact hname
    · rw [List.mem_singleton.1 hlooked]
      exact isPackageName_typesPackage hname
  constructor
  · intro candidate hcandidate
    exact (hreported _).2 (Or.inl (Project.reacts_of_sees
      (Project.sees_of_mem_candidates hnormal hordinary hcandidate)))
  · intro acquired hacquired ancestor hancestor
    exact Project.sees_installedManifest project
      (Path.isNormal_of_mem_ancestors (Or.inr hacquired) hancestor) hordinary

/-- A query without an answer is not fresh where a discovery from empty memories finds roots. -/
theorem not_answersFresh_of_misses {roots : List String}
    (hanswer : (session.queryProvider compiler tree.view id).val.1.map Program.roots = none)
    (hmode : session.mode = .semantic) (hroots : roots ≠ [])
    (hfindings : (session.project? id).map (fun project =>
      ((project.updateGraph compiler session.compilerState).2.1.freshFindings
        (session.services tree.view)).roots) = some roots) :
    ¬session.AnswersFresh compiler tree id := by
  intro hfresh
  obtain ⟨project, hproject, rfl⟩ := Option.map_eq_some_iff.1 hfindings
  have hexpected := hfresh project hproject
  dsimp only at hexpected
  rw [hanswer, if_pos ⟨hmode, hroots⟩] at hexpected
  exact absurd hexpected (by simp)

/-- A tree with a project that lists a package; the directory of acquired types has declarations for
it, but no manifest yet. -/
def pendingTree : MemoryTree :=
  (({} : MemoryTree).writeFile "/package.json"
    "\x7b\"dependencies\":\x7b\"a\":\"1\"\x7d\x7d").writeFile
      "/c/node_modules/@types/a/index.d.ts" ""

/-- The manifest that is still missing. -/
def pendingManifest : String := "/c/node_modules/@types/a/package.json"

/-- The tree in which the manifest was written. -/
def acquiredTree : MemoryTree :=
  pendingTree.writeFile pendingManifest "{}"

/-- A session that looked for the types of the package before their manifest was there. -/
def awaiting : Session Nat :=
  (startWith true { globalTypingsCacheLocation := some "/c" } .semantic 0).after .fileList
    pendingTree [.openProject "p" "/" [] {}, .queryProvider 0]

/-- The example session is settled, being the outcome of two operations that report nothing. -/
theorem awaiting_settled :
    awaiting.Settled (fun built program => program.id ≤ built) pendingTree :=
  (startWith_settled _ pendingTree _ .semantic 0).after Compiler.fileList_faithful
    (by decide +kernel)

/-- What there is to know about the project of that session: it looked for the manifest, and takes
up a report of another one, but not of this one. -/
theorem awaiting_project : ∃ project, awaiting.project? 0 = some project ∧
    project.visibleDirectories = ["/"] ∧
    (project.lookup.found.get? pendingManifest).map Option.isNone = some true ∧
    project.reacts (Path.normalize "/node_modules/a/package.json" "/") = true ∧
    project.reacts (Path.normalize pendingManifest "/") = false := by
  have hfacts : (awaiting.project? 0).map (fun project => (project.visibleDirectories,
      (project.lookup.found.get? pendingManifest).map Option.isNone,
      project.reacts (Path.normalize "/node_modules/a/package.json" "/"),
      project.reacts (Path.normalize pendingManifest "/"))) =
        some (["/"], some true, true, false) := by decide +kernel
  obtain ⟨project, hproject, hproject'⟩ := Option.map_eq_some_iff.1 hfacts
  simp only [Prod.mk.injEq] at hproject'
  exact ⟨project, hproject, hproject'⟩

/-- In the tree with the manifest, the report of any manifest in scope makes the answers fresh. -/
theorem answersFresh_dependencyChanged_awaiting :
    (awaiting.dependencyChanged "/node_modules/a/package.json").2.AnswersFresh .fileList
      acquiredTree 0 := by
  obtain ⟨project, hproject, hdirectories, -, hreacts, -⟩ := awaiting_project
  have hcase : acquiredTree.caseSensitive = pendingTree.caseSensitive := by decide +kernel
  have hreachable : Reachable .fileList acquiredTree.caseSensitive awaiting := by
    rw [hcase]
    exact (Reachable.start _ .semantic 0).after
  refine ((answersFresh_dependencyChanged_iff Compiler.fileList_faithful hreachable hproject
    ?_).1 _).2 (Or.inl hreacts)
  rw [hdirectories]
  intro directory hdirectory
  obtain rfl := List.mem_singleton.1 hdirectory
  exact (awaiting_settled.manifests "/" Path.isNormal_root).of_readText_eq (by decide +kernel)

/-- The answers are fresh on a tree without the manifest, which was looked for and missed.  It is
written and reported, and they are not fresh any more. -/
theorem not_answersFresh_acquired :
    awaiting.AnswersFresh .fileList pendingTree 0 ∧
      ((awaiting.project? 0).bind fun project =>
        project.lookup.found.get? pendingManifest).map Option.isNone = some true ∧
      ¬(awaiting.dependencyChanged pendingManifest).2.AnswersFresh .fileList acquiredTree 0 := by
  obtain ⟨project, hproject, -, hmissed, -, hignored⟩ := awaiting_project
  refine ⟨(awaiting_settled.settled 0).answersFresh Compiler.fileList_faithful, ?_, ?_⟩
  · rw [hproject]
    exact hmissed
  · rw [answersFresh_dependencyChanged_of_not_reacts hproject hignored]
    have hfindings : (awaiting.project? 0).map (fun project =>
        ((project.updateGraph .fileList awaiting.compilerState).2.1.freshFindings
          (awaiting.services acquiredTree.view)).roots) =
            some ["/c/node_modules/@types/a/index.d.ts"] := by decide +kernel
    exact not_answersFresh_of_misses (by decide +kernel) (by decide +kernel) (by decide) hfindings

end Session

end AutoImport
