import AutoImport.Proofs.Session.ProjectSteps

/-!
# What an operation does to one project

`Effect` lists what an operation on a session can do to the project of a given number: the project
is not there afterwards, it was just opened, it took a step, it took a step that leaves no clean
provider while the settings of the session changed, or it was queried.  `Advance` adds what the
operation does to the parts that projects share, and `Operation.advance` shows that every operation
is such an advance.
-/

set_option autoImplicit false

namespace AutoImport.Session

variable {σ : Type} {compiler : Compiler σ} {knows : σ → Program → Prop}

/-- All projects are wired, and numbers are given out once. -/
structure Coherent (knows : σ → Program → Prop) (caseSensitive : Bool) (session : Session σ) :
    Prop where
  projects : ∀ id project, session.project? id = some project →
    project.Wired (knows session.compilerState) session.mode
  numbers : ∀ id project, session.project? id = some project → id < session.nextId
  caseSensitive : session.manifests.caseSensitive = caseSensitive

/-- What an operation can do to the project of a number. -/
inductive Effect (compiler : Compiler σ) (knows : σ → Program → Prop) (view : FileView)
    (id : Nat) (before after : Session σ) : Prop where
  | closed (hafter : after.project? id = none)
  | opened (project : Project) (hafter : after.project? id = some project)
    (hid : id = before.nextId) (hnext : id < after.nextId)
    (hnormal : Path.IsNormal project.directory) (hprogram : project.program = none)
    (hreset : project.IsReset) (hslot : project.slot = .unset)
  | steps (project next : Project) (hbefore : before.project? id = some project)
    (hafter : after.project? id = some next)
    (hsteps : project.Steps (knows after.compilerState) next)
    (hservices : after.services view = before.services view)
  | settings (project next : Project) (hbefore : before.project? id = some project)
    (hafter : after.project? id = some next)
    (hsteps : project.Steps (knows after.compilerState) next) (hstale : next.slot.IsStale)
    (hslot : after.mode = .semantic → next.slot ≠ .disabled)
  | query (project current next : Project) (answer : Option Program) (index : ExportIndex)
    (state : σ) (hbefore : before.project? id = some project)
    (hafter : after.project? id = some { next with exportIndex := index })
    (hsteps : project.Steps (knows state) current)
    (hkeeps : ∀ program, knows before.compilerState program → knows state program)
    (houtcome : Project.Outcome compiler (before.services view) current ⟨before.manifests, state⟩
      (answer, next, after.shared))
    (hservices : after.services view = before.services view)

/-! ## Numbers -/

/-- Putting a project back changes that project and no other. -/
theorem project?_put (session : Session σ) (id other : Nat) (project : Project)
    (shared : Shared σ) :
    (session.put id project shared).project? other =
      if id = other then some project else session.project? other :=
  Table.get?_insert session.projects id other project

/-- Modifying a project changes that project and no other. -/
theorem project?_modifyProject (session : Session σ) (id other : Nat)
    (change : Project → Project) :
    (session.modifyProject id change).project? other =
      if id = other then (session.project? other).map change else session.project? other :=
  Table.get?_modify session.projects id other change

/-- Modifying all projects changes each of them. -/
theorem project?_modifyProjects (session : Session σ) (id : Nat) (change : Project → Project) :
    (session.modifyProjects change).project? id = (session.project? id).map change :=
  Table.get?_mapValues session.projects id change

/-- A report about a manifest reaches every project. -/
theorem project?_manifestChanged (session : Session σ) (view : FileView) (fileName : String)
    (change : FileChange) (id : Nat) :
    (session.manifestChanged view fileName change).2.project? id =
      (session.project? id).map fun project =>
        (project.manifestChanged (Path.normalize fileName "/")).2 := by
  unfold manifestChanged routeChange
  exact project?_modifyProjects _ id _

/-- A report about any other file does too. -/
theorem project?_dependencyChanged (session : Session σ) (fileName : String) (id : Nat) :
    (session.dependencyChanged fileName).2.project? id =
      (session.project? id).map fun project =>
        (project.dependencyChanged (Path.normalize fileName "/")).2 :=
  project?_modifyProjects session id _

/-! ## All projects -/

/-- All open projects have the property. -/
def Each (P : Project → Prop) (session : Session σ) : Prop :=
  ∀ id project, session.project? id = some project → P project

section Each

variable {P Q : Project → Prop} {session after : Session σ}

/-- A session that has just started has no projects. -/
theorem each_startWith (P : Project → Prop) (caseSensitive : Bool)
    (configuration : HostConfiguration) (mode : SessionMode) (state : σ) :
    (startWith caseSensitive configuration mode state).Each P := by
  intro id project hopen
  exact absurd (hopen.symm.trans (Table.get?_empty id)) (by simp)

/-- What follows from a property that all projects have, all projects have. -/
theorem Each.mono (h : session.Each P) (himp : ∀ project, P project → Q project) :
    session.Each Q :=
  fun id project hopen => himp project (h id project hopen)

/-- Putting back a project with the property keeps it for all projects. -/
theorem Each.put (h : session.Each P) (id : Nat) {project : Project} (hproject : P project)
    (shared : Shared σ) : (session.put id project shared).Each P := by
  intro other found hopen
  rw [project?_put] at hopen
  split at hopen
  · rw [← Option.some.inj hopen]
    exact hproject
  · exact h other found hopen

/-- Opening a project with the property keeps it for all projects. -/
theorem Each.openProject (h : session.Each P) (name directory : String) (roots : List String)
    (options : CompilerOptions)
    (hcreated :
      P (Project.create name directory roots options session.manifests.caseSensitive)) :
    (session.openProject name directory roots options).2.Each P := by
  intro id project hopen
  have hget := Table.get?_insert session.projects session.nextId id
    (Project.create name directory roots options session.manifests.caseSensitive)
  have hfound := hget.symm.trans hopen
  split at hfound
  · rw [← Option.some.inj hfound]
    exact hcreated
  · exact h id project hfound

/-- Closing a project keeps the property for those that are left. -/
theorem Each.closeProject (h : session.Each P) (closed : Nat) :
    (session.closeProject closed).2.Each P := by
  intro id project hopen
  have hfound := (Table.get?_erase session.projects closed id).symm.trans hopen
  split at hfound
  · exact absurd hfound (by simp)
  · exact h id project hfound

/-- Modifying a project in a way that keeps the property keeps it for all projects. -/
theorem Each.modifyProject (h : session.Each P) (changed : Nat) {change : Project → Project}
    (hchange : ∀ project, P project → P (change project)) :
    (session.modifyProject changed change).Each P := by
  intro id project hopen
  rw [project?_modifyProject] at hopen
  split at hopen
  · obtain ⟨earlier, hearlier, rfl⟩ := Option.map_eq_some_iff.1 hopen
    exact hchange earlier (h id earlier hearlier)
  · exact h id project hopen

/-- An operation that changes every project, or leaves it alone. -/
theorem Each.of_changes (h : session.Each P) {change : Project → Project}
    (hchange : ∀ project, P project → Q (change project))
    (hproject : ∀ id, after.project? id = (session.project? id).map change) : after.Each Q := by
  intro id project hopen
  rw [hproject] at hopen
  obtain ⟨earlier, hearlier, rfl⟩ := Option.map_eq_some_iff.1 hopen
  exact hchange earlier (h id earlier hearlier)

end Each

section Effects

variable {view : FileView} {id : Nat} {before after : Session σ} {caseSensitive : Bool}

/-- An operation that does not concern a project leaves it as it is. -/
theorem Effect.ofSame (hcoherent : before.Coherent knows caseSensitive)
    (hproject : after.project? id = before.project? id)
    (hkeeps : ∀ program, knows before.compilerState program → knows after.compilerState program)
    (hservices : after.services view = before.services view) :
    Effect compiler knows view id before after := by
  cases hopen : before.project? id with
  | none => exact .closed (hproject.trans hopen)
  | some project =>
    have hwired := (hcoherent.projects id project hopen).mono hkeeps
    exact .steps project project hopen (hproject.trans hopen)
      (Project.steps_of_same hwired ⟨rfl, rfl, rfl, rfl, rfl⟩ (Or.inl rfl) rfl) hservices

/-- An operation that lets a project take a step. -/
theorem Effect.ofSteps (hcoherent : before.Coherent knows caseSensitive)
    {change : Project → Project}
    (hproject : after.project? id = (before.project? id).map change)
    (hstate : after.compilerState = before.compilerState)
    (hsteps : ∀ project : Project, project.Wired (knows before.compilerState) before.mode →
      project.Steps (knows before.compilerState) (change project))
    (hservices : after.services view = before.services view) :
    Effect compiler knows view id before after := by
  cases hopen : before.project? id with
  | none =>
    rw [hopen] at hproject
    exact .closed hproject
  | some project =>
    rw [hopen] at hproject
    refine .steps project (change project) hopen hproject ?_ hservices
    rw [hstate]
    exact hsteps project (hcoherent.projects id project hopen)

end Effects

/-! ## Queries -/

section Queries

variable {view : FileView} {id : Nat} {session : Session σ} {project : Project}
  {caseSensitive : Bool}

/-- A project with its program brought up to date, and the state in which that leaves the
compiler. -/
def current (compiler : Compiler σ) (session : Session σ) (project : Project) : Project × σ :=
  (project.updateGraph compiler session.compilerState).2

/-- What a query of a project comes to, after its program was brought up to date. -/
def asked (compiler : Compiler σ) (view : FileView) (session : Session σ) (project : Project) :
    Option Program × Project × Shared σ :=
  ((session.current compiler project).1.queryProvider compiler (session.services view)
    ⟨session.manifests, (session.current compiler project).2⟩).val

/-- Updating the graph of an open project puts back what the update makes of it. -/
theorem updateGraph_of_open (hopen : session.project? id = some project) :
    session.updateGraph compiler id =
      ((project.updateGraph compiler session.compilerState).1,
        session.put id (session.current compiler project).1
          ⟨session.manifests, (session.current compiler project).2⟩) := by
  unfold updateGraph
  rw [hopen]
  rfl

/-- The manifests that a project sees are remembered as consulted, and nothing else of it
changes. -/
theorem projectManifests_of_open (view : FileView) (hopen : session.project? id = some project) :
    ∃ consulted, (session.projectManifests view id).val.2 =
      session.put id { project with consulted }
        ⟨(project.visibleManifests view session.manifests).val.2.2, session.compilerState⟩ := by
  unfold projectManifests
  rw [hopen]
  exact ⟨_, rfl⟩

/-- A query of an open project updates its graph, asks it for the provider and puts it back. -/
theorem queryProvider_of_open (hopen : session.project? id = some project) :
    (session.queryProvider compiler view id).val =
      ((session.asked compiler view project).1,
        session.put id (session.asked compiler view project).2.1
          (session.asked compiler view project).2.2) := by
  unfold queryProvider
  rw [hopen]
  rfl

/-- A query for exports of an open project asks its provider and answers with the index current for
it. -/
theorem queryExports_eq (compiler : Compiler σ) (view : FileView)
    (hopen : session.project? id = some project) :
    (session.queryExports compiler view id).val =
      let left := session.asked compiler view project
      let index := left.2.1.exportIndex.renew left.2.1.program left.1
      (some index, session.put id { left.2.1 with exportIndex := index } left.2.2) := by
  unfold queryExports
  rw [hopen]
  rfl

/-- A query for exports leaves the project as a query for the provider does, except for the
index. -/
theorem queryExports_of_open (compiler : Compiler σ) (view : FileView)
    (hopen : session.project? id = some project) :
    ∃ index, (session.queryExports compiler view id).val =
      (some index,
        session.put id { (session.asked compiler view project).2.1 with exportIndex := index }
          (session.asked compiler view project).2.2) :=
  ⟨_, queryExports_eq compiler view hopen⟩

/-- A project whose graph is updated stays wired. -/
theorem current_wired (hcompiler : compiler.Faithful knows)
    (hwired : project.Wired (knows session.compilerState) session.mode) :
    (session.current compiler project).1.Wired (knows (session.current compiler project).2)
      session.mode := by
  have hsteps := Project.updateGraph_steps hcompiler hwired
  exact hsteps.wired hwired (fun program => Project.updateGraph_keeps hcompiler program)
    fun hmode => hsteps.slot.ne_disabled (hwired.slot hmode)

/-- What a wired project answers is one of the outcomes of a query. -/
theorem asked_outcome (hcompiler : compiler.Faithful knows)
    (hwired : project.Wired (knows session.compilerState) session.mode) :
    Project.Outcome compiler (session.services view) (session.current compiler project).1
      ⟨session.manifests, (session.current compiler project).2⟩
      (session.asked compiler view project) :=
  Project.queryProvider_outcome (current_wired hcompiler hwired)

/-- The compiler knows after a query the programs it knew before. -/
theorem asked_keeps (hcompiler : compiler.Faithful knows)
    (hwired : project.Wired (knows session.compilerState) session.mode) (program : Program)
    (hknown : knows session.compilerState program) :
    knows (session.asked compiler view project).2.2.compilerState program :=
  (asked_outcome hcompiler hwired).keeps hcompiler program
    (Project.updateGraph_keeps hcompiler program hknown)

/-- The effect of putting the project back that a query leaves, with any index of exports. -/
theorem Effect.ofQuery (hcompiler : compiler.Faithful knows)
    (hcoherent : session.Coherent knows caseSensitive) (hopen : session.project? id = some project)
    (index : ExportIndex) (other : Nat) :
    Effect compiler knows view other session
      (session.put id { (session.asked compiler view project).2.1 with exportIndex := index }
        (session.asked compiler view project).2.2) := by
  have hwired := hcoherent.projects id project hopen
  by_cases hid : id = other
  · subst hid
    refine .query project (session.current compiler project).1
      (session.asked compiler view project).2.1 (session.asked compiler view project).1 index
      (session.current compiler project).2 hopen ?_ (Project.updateGraph_steps hcompiler hwired)
      (fun program => Project.updateGraph_keeps hcompiler program)
      (asked_outcome hcompiler hwired) rfl
    rw [project?_put, if_pos rfl]
  · refine .ofSame hcoherent ?_ (fun program => asked_keeps hcompiler hwired program) rfl
    rw [project?_put, if_neg hid]

end Queries

/-! ## Operations -/

/-- What an operation does to a session, besides what it does to single projects: the compiler keeps
what it knows, and what is learnt about manifests comes from the tree if the operation is
truthful. -/
structure Advance (compiler : Compiler σ) (knows : σ → Program → Prop) (tree : MemoryTree)
    (isTruthful : Prop) (before after : Session σ) : Prop where
  keeps : ∀ program, knows before.compilerState program → knows after.compilerState program
  learns : isTruthful → before.manifests.Learns tree after.manifests
  caseSensitive : after.manifests.caseSensitive = before.manifests.caseSensitive
  nextId : before.nextId ≤ after.nextId
  effect : ∀ id, Effect compiler knows tree.view id before after

section Advances

variable {tree : MemoryTree} {isTruthful : Prop} {session after : Session σ} {caseSensitive : Bool}

/-- An operation that runs no compiler and looks at no file. -/
theorem Advance.ofQuiet (hstate : after.compilerState = session.compilerState)
    (hmanifests : after.manifests = session.manifests) (hnext : session.nextId ≤ after.nextId)
    (heffect : ∀ id, Effect compiler knows tree.view id session after) :
    Advance compiler knows tree isTruthful session after where
  keeps program hknown := by
    rw [hstate]
    exact hknown
  learns _ := by
    rw [hmanifests]
    exact .refl
  caseSensitive := by rw [hmanifests]
  nextId := hnext
  effect := heffect

/-- No change is an advance. -/
theorem Advance.refl (hcoherent : session.Coherent knows caseSensitive) :
    Advance compiler knows tree isTruthful session session :=
  .ofQuiet rfl rfl (Nat.le_refl _) fun _ => .ofSame hcoherent rfl (fun _ hknown => hknown) rfl

/-- A query, whatever index of exports it leaves. -/
theorem Advance.ofQuery (hcompiler : compiler.Faithful knows)
    (hcoherent : session.Coherent knows caseSensitive) {id : Nat} {project : Project}
    (hopen : session.project? id = some project) (index : ExportIndex) :
    Advance compiler knows tree isTruthful session
      (session.put id { (session.asked compiler tree.view project).2.1 with exportIndex := index }
        (session.asked compiler tree.view project).2.2) := by
  have hwired := hcoherent.projects id project hopen
  have hlearns : session.manifests.Learns tree
      (session.asked compiler tree.view project).2.2.manifests :=
    (asked_outcome hcompiler hwired).learns rfl (current_wired hcompiler hwired).directory
  exact ⟨fun program => asked_keeps hcompiler hwired program, fun _ => hlearns,
    hlearns.caseSensitive, Nat.le_refl _, Effect.ofQuery hcompiler hcoherent hopen index⟩

/-- Updating a graph is an advance. -/
theorem Advance.ofUpdate (hcompiler : compiler.Faithful knows)
    (hcoherent : session.Coherent knows caseSensitive) {id : Nat} {project : Project}
    (hopen : session.project? id = some project) :
    Advance compiler knows tree isTruthful session
      (session.put id (session.current compiler project).1
        ⟨session.manifests, (session.current compiler project).2⟩) := by
  have hwired := hcoherent.projects id project hopen
  refine ⟨fun program => Project.updateGraph_keeps hcompiler program, fun _ => .refl, rfl,
    Nat.le_refl _, fun other => ?_⟩
  by_cases hid : id = other
  · subst hid
    refine .steps project (session.current compiler project).1 hopen ?_
      (Project.updateGraph_steps hcompiler hwired) rfl
    rw [project?_put, if_pos rfl]
  · refine .ofSame hcoherent ?_ (fun program => Project.updateGraph_keeps hcompiler program) rfl
    rw [project?_put, if_neg hid]

/-- A look at the manifests that a project sees. -/
theorem Advance.ofManifests (hcoherent : session.Coherent knows caseSensitive) {id : Nat}
    {project : Project} (hopen : session.project? id = some project) (consulted : List String) :
    Advance compiler knows tree isTruthful session
      (session.put id { project with consulted }
        ⟨(project.visibleManifests tree.view session.manifests).val.2.2,
          session.compilerState⟩) := by
  have hwired := hcoherent.projects id project hopen
  have hlearns : session.manifests.Learns tree
      (project.visibleManifests tree.view session.manifests).val.2.2 :=
    ManifestCache.learns_visibleFrom none
      (Path.isNormal_join hwired.directory Path.isName_projectAnchor) session.manifests
  refine ⟨fun _ hknown => hknown, fun _ => hlearns, hlearns.caseSensitive, Nat.le_refl _,
    fun other => ?_⟩
  by_cases hid : id = other
  · subst hid
    refine .steps project { project with consulted } hopen ?_
      (Project.steps_of_same hwired ⟨rfl, rfl, rfl, rfl, rfl⟩ (Or.inl rfl) rfl) rfl
    rw [project?_put, if_pos rfl]
  · refine .ofSame hcoherent ?_ (fun _ hknown => hknown) rfl
    rw [project?_put, if_neg hid]

/-- A report about a manifest is taken from the tree if it is truthful. -/
theorem Advance.ofManifestChange (hcoherent : session.Coherent knows caseSensitive)
    (fileName : String) (change : FileChange) :
    Advance compiler knows tree ((Operation.manifestChanged fileName change).Truthful tree) session
      (session.manifestChanged tree.view fileName change).2 := by
  have hkey : tree.key (Path.normalize fileName "/") = tree.key fileName :=
    Path.canonical_normalize fileName Path.isNormal_root tree.caseSensitive
  refine ⟨fun _ hknown => hknown, ?_, ?_, Nat.le_refl _, fun id => ?_⟩
  · rintro ⟨hname, hmissing⟩
    rw [← hkey] at hname
    cases change with
    | deleted =>
      refine ManifestCache.learns_delete hname ?_
      rw [MemoryTree.fileExists_of_key_eq hkey]
      exact hmissing rfl
    | created => exact .refresh _ .refl hname
    | changed => exact .refresh _ .refl hname
  · cases change with
    | deleted => rfl
    | created => exact ManifestCache.caseSensitive_refresh _ _ _
    | changed => exact ManifestCache.caseSensitive_refresh _ _ _
  · exact .ofSteps hcoherent (project?_manifestChanged session tree.view fileName change id) rfl
      (fun _ hwired => Project.manifestChanged_steps hwired _) rfl

/-- A change of the configuration is an advance. -/
theorem Advance.ofConfigure (hcoherent : session.Coherent knows caseSensitive)
    (configuration : HostConfiguration) :
    Advance compiler knows tree isTruthful session (session.configure configuration) := by
  refine .ofQuiet rfl rfl (Nat.le_refl _) fun id => ?_
  have hproject : (session.configure configuration).project? id =
      (session.project? id).map (reconfigure session.configuration configuration) :=
    project?_modifyProjects session id _
  cases hopen : session.project? id with
  | none =>
    rw [hopen] at hproject
    exact .closed hproject
  | some project =>
    rw [hopen] at hproject
    have hwired := hcoherent.projects id project hopen
    have hsteps := Project.reconfigure_steps hwired session.configuration configuration
    -- Either a discovery reads the same settings as before, or the provider became dirty.
    obtain ⟨specifiers, ⟨hinclusion, htypings, -⟩ | heq⟩ :=
      Project.reconfigure_eq session.configuration configuration project
    · refine .steps project _ hopen hproject hsteps ?_
      show Services.mk tree.view configuration.inclusion session.mode
        configuration.globalTypingsCacheLocation = _
      rw [← hinclusion, ← htypings]
      rfl
    · refine .settings project _ hopen hproject hsteps ?_ ?_
      · rw [heq]
        exact Project.isStale_settingsChanged project.slot
      · exact fun hmode => hsteps.slot.ne_disabled (hwired.slot hmode)

/-- A change of mode is an advance. -/
theorem Advance.ofSetMode (hcoherent : session.Coherent knows caseSensitive) (mode : SessionMode) :
    Advance compiler knows tree isTruthful session (session.setMode mode) := by
  unfold setMode
  split
  · exact .refl hcoherent
  · refine .ofQuiet rfl rfl (Nat.le_refl _) fun id => ?_
    have hproject := project?_modifyProjects session id (Project.modeChanged · mode)
    cases hopen : session.project? id with
    | none =>
      rw [hopen] at hproject
      exact .closed hproject
    | some project =>
      rw [hopen] at hproject
      have hsteps := Project.modeChanged_steps (hcoherent.projects id project hopen) mode
      refine .settings project (project.modeChanged mode) hopen hproject hsteps ?_ ?_
      · unfold Project.modeChanged
        split
        · exact Project.isStale_settingsChanged project.slot
        · exact Project.isStale_unset
      · intro hsemantic
        unfold Project.modeChanged
        rw [if_pos hsemantic]
        exact Project.settingsChanged_ne_disabled project.slot

end Advances

end AutoImport.Session

namespace AutoImport

open Session

/-- Every operation advances the session, and does to every project what `Effect` lists. -/
theorem Operation.advance {σ : Type} {compiler : Compiler σ} {knows : σ → Program → Prop}
    (hcompiler : compiler.Faithful knows) {caseSensitive : Bool} {session : Session σ}
    (hcoherent : session.Coherent knows caseSensitive) (tree : MemoryTree)
    (operation : Operation) :
    Advance compiler knows tree (operation.Truthful tree) session
      (operation.run compiler tree.view session) := by
  cases operation with
  | openProject name directory roots options =>
    refine .ofQuiet rfl rfl (Nat.le_succ _) fun id => ?_
    by_cases hid : session.nextId = id
    · subst hid
      refine .opened
        (Project.create name directory roots options session.manifests.caseSensitive) ?_ rfl
        (Nat.lt_succ_self _) (Path.isNormal_normalize directory Path.isNormal_root) rfl
        ⟨rfl, Project.isStale_unset⟩ rfl
      exact (Table.get?_insert session.projects _ _ _).trans (if_pos rfl)
    · refine .ofSame hcoherent ?_ (fun _ hknown => hknown) rfl
      exact (Table.get?_insert session.projects _ _ _).trans (if_neg hid)
  | closeProject other =>
    refine .ofQuiet rfl rfl (Nat.le_refl _) fun id => ?_
    by_cases hid : other = id
    · exact .closed ((Table.get?_erase session.projects _ _).trans (if_pos hid))
    · refine .ofSame hcoherent ?_ (fun _ hknown => hknown) rfl
      exact (Table.get?_erase session.projects _ _).trans (if_neg hid)
  | configure configuration => exact .ofConfigure hcoherent configuration
  | setMode mode => exact .ofSetMode hcoherent mode
  | updateGraph id =>
    show Advance compiler knows tree _ session (session.updateGraph compiler id).2
    cases hopen : session.project? id with
    | none =>
      unfold Session.updateGraph
      rw [hopen]
      exact .refl hcoherent
    | some project =>
      rw [updateGraph_of_open hopen]
      exact .ofUpdate hcompiler hcoherent hopen
  | queryProvider id =>
    show Advance compiler knows tree _ session (session.queryProvider compiler tree.view id).val.2
    cases hopen : session.project? id with
    | none =>
      unfold Session.queryProvider
      rw [hopen]
      exact .refl hcoherent
    | some project =>
      rw [queryProvider_of_open hopen]
      exact .ofQuery hcompiler hcoherent hopen _
  | queryExports id =>
    show Advance compiler knows tree _ session (session.queryExports compiler tree.view id).val.2
    cases hopen : session.project? id with
    | none =>
      unfold Session.queryExports
      rw [hopen]
      exact .refl hcoherent
    | some project =>
      obtain ⟨index, hval⟩ := queryExports_of_open compiler tree.view hopen
      rw [hval]
      exact .ofQuery hcompiler hcoherent hopen index
  | projectManifests id =>
    show Advance compiler knows tree _ session (session.projectManifests tree.view id).val.2
    cases hopen : session.project? id with
    | none =>
      unfold Session.projectManifests
      rw [hopen]
      exact .refl hcoherent
    | some project =>
      obtain ⟨consulted, hval⟩ := projectManifests_of_open tree.view hopen
      rw [hval]
      exact .ofManifests hcoherent hopen consulted
  | visibleManifests fileName rootDirectory =>
    have hlearns : session.manifests.Learns tree (session.manifests.visibleFrom tree.view
        (Path.normalize fileName "/") rootDirectory).val.2 :=
      ManifestCache.learns_visibleFrom rootDirectory
        (Path.isNormal_normalize fileName Path.isNormal_root) session.manifests
    exact ⟨fun _ hknown => hknown, fun _ => hlearns, hlearns.caseSensitive, Nat.le_refl _,
      fun _ => .ofSame hcoherent rfl (fun _ hknown => hknown) rfl⟩
  | manifestChanged fileName change => exact .ofManifestChange hcoherent fileName change
  | dependencyChanged fileName =>
    exact .ofQuiet rfl rfl (Nat.le_refl _) fun id =>
      .ofSteps hcoherent (project?_dependencyChanged session fileName id) rfl
        (fun _ hwired => Project.dependencyChanged_steps hwired _) rfl
  | onProject other operation =>
    refine .ofQuiet rfl rfl (Nat.le_refl _) fun id => ?_
    by_cases hid : other = id
    · refine .ofSteps hcoherent ?_ rfl (fun _ hwired => operation.steps hwired) rfl
      exact (project?_modifyProject session other id operation.run).trans (if_pos hid)
    · refine .ofSame hcoherent ?_ (fun _ hknown => hknown) rfl
      exact (project?_modifyProject session other id operation.run).trans (if_neg hid)

end AutoImport
