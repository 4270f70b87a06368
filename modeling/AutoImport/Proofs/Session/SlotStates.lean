import AutoImport.Proofs.Discovery.ResultBounds
import AutoImport.Proofs.Session.CacheTransparency

/-!
# The states of a slot

Whatever is asked of a session, and whatever happens to the file system in between, the slots of its
projects are in one of a few states.  While programs can be built, a slot is unset or holds
a provider, and otherwise it is unset or closed.  A provider is clean and complete, with roots,
packages and the program of just these roots, or it is dirty and has no roots at all
(`Project.Orderly`).

The compiler is not relied on here: that a program was built of some roots means that the compiler
was asked for it (`Compiler.Handed`), and only the last statement assumes that it compiles what it
is asked for.
-/

set_option autoImplicit false

namespace AutoImport

variable {σ : Type}

/-- The compiler was asked for a program of the given roots and handed out this one. -/
def Compiler.Handed (compiler : Compiler σ) (roots : List String) (program : Program) : Prop :=
  ∃ request state, request.roots = roots ∧ (compiler.build request state).1 = program

/-- The provider has roots, packages behind them, and a program that was built of them. -/
structure Provider.Complete (compiler : Compiler σ) (provider : Provider) : Prop where
  program : ∃ roots program, provider.roots = some roots ∧ roots ≠ [] ∧
    provider.program = some program ∧ compiler.Handed roots program
  packages : provider.packageDirectories ≠ []

namespace Project

/-- The slot of the project is in one of the states that it can be in while the session has the
given mode. -/
structure Orderly (compiler : Compiler σ) (mode : SessionMode) (project : Project) : Prop where
  wired : project.Wired (fun _ => True) mode
  inactive : mode ≠ .semantic → project.slot.isActive = false
  complete : ∀ provider, project.slot = .active provider → provider.isDirty = false →
    provider.Complete compiler

variable {compiler : Compiler σ} {mode newMode : SessionMode} {project after : Project}

/-- A slot without a provider is in order as long as it is closed only where it has to be. -/
theorem orderly_of_no_provider (hdirectory : Path.IsNormal project.directory)
    (hslot : mode = .semantic → project.slot ≠ .disabled) (hnone : project.slot.isActive = false) :
    project.Orderly compiler mode := by
  have hinactive : ∀ provider, project.slot ≠ .active provider := by
    intro provider hactive
    rw [hactive] at hnone
    exact absurd hnone (by simp [Slot.isActive])
  exact ⟨⟨hdirectory, fun _ _ => trivial, hslot, fun provider h => absurd h (hinactive provider)⟩,
    fun _ => hnone, fun provider h => absurd h (hinactive provider)⟩

/-- Whatever leaves directory, options and slot alone leaves the slot in order. -/
theorem Orderly.of_same (h : project.Orderly compiler mode)
    (hdirectory : after.directory = project.directory) (hoptions : after.options = project.options)
    (hslot : after.slot = project.slot) : after.Orderly compiler mode := by
  refine ⟨⟨hdirectory ▸ h.wired.directory, fun _ _ => trivial, ?_, ?_⟩, ?_, ?_⟩
  · rw [hslot]
    exact h.wired.slot
  · rw [hslot, hoptions]
    exact h.wired.provider
  · rw [hslot]
    exact h.inactive
  · rw [hslot]
    exact h.complete

/-- A step leaves the slot in order, also in another mode if the slot allows it. -/
theorem Orderly.steps (h : project.Orderly compiler mode)
    (hsteps : project.Steps (fun _ => True) after)
    (hslot : newMode = .semantic → after.slot ≠ .disabled)
    (hinactive : newMode ≠ .semantic → after.slot.isActive = false) :
    after.Orderly compiler newMode := by
  refine ⟨hsteps.wired h.wired (fun _ _ => trivial) hslot, hinactive, ?_⟩
  intro provider hactive hclean
  -- A clean provider is the one from before, because a step can only make providers dirty.
  obtain ⟨-, earlier, hearlier, rfl | rfl⟩ := hsteps.slot.provider hactive
  · exact h.complete provider hearlier hclean
  · rw [earlier.isDirty_markDirty] at hclean
    exact absurd hclean (by simp)

/-- A step in one mode leaves the slot in order. -/
theorem Orderly.steps_same_mode (h : project.Orderly compiler mode)
    (hsteps : project.Steps (fun _ => True) after) : after.Orderly compiler mode := by
  refine h.steps hsteps (fun hmode => hsteps.slot.ne_disabled (h.wired.slot hmode)) fun hmode => ?_
  have hnone := h.inactive hmode
  cases hslot : after.slot with
  | unset => rfl
  | disabled => rfl
  | active provider =>
    obtain ⟨-, earlier, hearlier, -⟩ := hsteps.slot.provider hslot
    rw [hearlier] at hnone
    exact absurd hnone (by simp [Slot.isActive])

/-- A change of mode leaves the slot in order for the new mode. -/
theorem Orderly.modeChanged (h : project.Orderly compiler mode) (newMode : SessionMode) :
    (project.modeChanged newMode).Orderly compiler newMode := by
  refine h.steps (modeChanged_steps h.wired newMode) ?_ ?_
  · intro hmode
    unfold Project.modeChanged
    rw [if_pos hmode]
    exact settingsChanged_ne_disabled project.slot
  · intro hmode
    unfold Project.modeChanged
    rw [if_neg hmode]
    rfl

/-- Updating the graph leaves the slot in order. -/
theorem Orderly.updateGraph (h : project.Orderly compiler mode) (state : σ) :
    (project.updateGraph compiler state).2.1.Orderly compiler mode := by
  rcases updateGraph_eq compiler project state with heq | ⟨-, heq⟩ | heq
  · rw [heq]
    exact h
  · rw [heq]
    exact h.of_same rfl rfl rfl
  · rw [heq]
    exact h.steps_same_mode ⟨rfl, fun _ _ => trivial, Or.inr rfl, .dirties rfl (Or.inl rfl)⟩

/-! ## Queries -/

variable {services : Services} {shared : Shared σ} {outcome : Option Program × Project × Shared σ}

/-- However a query comes out, the slot is left in order. -/
theorem Outcome.orderly (h : Outcome compiler services project shared outcome)
    (horderly : project.Orderly compiler services.mode) :
    outcome.2.1.Orderly compiler services.mode := by
  obtain ⟨lookup, symlinks, consulted, hframe⟩ :=
    findings_frame services project shared.manifests
  cases h with
  | closed hslot => exact horderly
  | closes hmode =>
    exact orderly_of_no_provider horderly.wired.directory (fun h => absurd h hmode) rfl
  | clean provider hmode hslot hclean => exact horderly
  | empties index hmode hroots =>
    rw [hframe]
    exact orderly_of_no_provider horderly.wired.directory (fun _ => by simp) rfl
  | builds index provider old hmode hroots hold hoptions hclean hprogram hgiven hpackages =>
    have hcomplete : provider.Complete compiler := by
      refine ⟨⟨_, _, hgiven, hroots, hprogram, _, _, rfl, rfl⟩, ?_⟩
      rw [hpackages]
      exact (discover_isSound services _ _ project shared.manifests).packages_ne_nil hroots
    have hwired : provider.Wired (fun _ => True) project.options :=
      ⟨hoptions, fun hdirty => absurd (hclean.symm.trans hdirty) (by simp), fun _ _ => trivial⟩
    rw [hframe]
    refine ⟨⟨horderly.wired.directory, fun _ _ => trivial, fun _ => by simp, ?_⟩,
      fun h => absurd hmode h, ?_⟩
    · intro other hother
      rw [← Slot.active.inj hother]
      exact hwired
    · intro other hother _
      rw [← Slot.active.inj hother]
      exact hcomplete

/-- After a query the slot has a clean provider with the program that was answered, or none. -/
theorem Outcome.slot (h : Outcome compiler services project shared outcome)
    (horderly : project.Orderly compiler services.mode) :
    (∀ provider, outcome.2.1.slot = .active provider → provider.isDirty = false) ∧
      outcome.2.1.slot.isActive = outcome.1.isSome := by
  cases h with
  | closed hslot =>
    rw [hslot]
    exact ⟨fun provider hactive => absurd hactive (by simp), rfl⟩
  | closes hmode => exact ⟨fun provider hactive => absurd hactive (by simp), rfl⟩
  | clean provider hmode hslot hclean =>
    obtain ⟨-, program, -, -, hprogram, -⟩ := (horderly.complete provider hslot hclean).program
    rw [hslot, hprogram]
    refine ⟨fun other hactive => ?_, rfl⟩
    rw [← Slot.active.inj hactive]
    exact hclean
  | empties index hmode hroots => exact ⟨fun provider hactive => absurd hactive (by simp), rfl⟩
  | builds index provider old hmode hroots hold hoptions hclean =>
    refine ⟨fun other hactive => ?_, rfl⟩
    rw [← Slot.active.inj hactive]
    exact hclean

end Project

/-! ## Sessions -/

namespace Session

variable {compiler : Compiler σ} {session after : Session σ}

/-- The slots of all projects are in order. -/
def Orderly (compiler : Compiler σ) (session : Session σ) : Prop :=
  ∀ id project, session.project? id = some project → project.Orderly compiler session.mode

/-- A query of a project that is not open answers nothing and changes nothing. -/
theorem queryProvider_of_closed (compiler : Compiler σ) (view : FileView) {id : Nat}
    (hclosed : session.project? id = none) :
    (session.queryProvider compiler view id).val = (none, session) := by
  unfold queryProvider
  rw [hclosed]
  rfl

/-- Putting a project back in order keeps all slots in order. -/
theorem Orderly.put (h : session.Orderly compiler) (id : Nat) {project : Project}
    (hproject : project.Orderly compiler session.mode) (shared : Shared σ) :
    (session.put id project shared).Orderly compiler :=
  Each.put h id hproject shared

/-- An operation that changes every project, or leaves it alone. -/
theorem Orderly.of_changes (h : session.Orderly compiler) {change : Project → Project}
    (hchange : ∀ project, project.Orderly compiler session.mode →
      (change project).Orderly compiler after.mode)
    (hproject : ∀ id, after.project? id = (session.project? id).map change) :
    after.Orderly compiler :=
  Each.of_changes h hchange hproject

/-- Updating a graph leaves the slot in order. -/
theorem Orderly.current (h : session.Orderly compiler) {id : Nat} {project : Project}
    (hopen : session.project? id = some project) :
    (session.current compiler project).1.Orderly compiler session.mode :=
  (h id project hopen).updateGraph session.compilerState

/-- A query of an open project has one of the outcomes. -/
theorem Orderly.outcome (h : session.Orderly compiler) (view : FileView) {id : Nat}
    {project : Project} (hopen : session.project? id = some project) :
    Project.Outcome compiler (session.services view) (session.current compiler project).1
      ⟨session.manifests, (session.current compiler project).2⟩
      (session.asked compiler view project) :=
  Project.queryProvider_outcome (h.current hopen).wired

/-- Asking for the provider leaves the slot in order. -/
theorem Orderly.asked (h : session.Orderly compiler) (view : FileView) {id : Nat}
    {project : Project} (hopen : session.project? id = some project) :
    (session.asked compiler view project).2.1.Orderly compiler session.mode :=
  (h.outcome view hopen).orderly (h.current hopen)

/-- Every operation leaves the slots in order, whatever the file system is at that moment. -/
theorem Orderly.run (h : session.Orderly compiler) (view : FileView) (operation : Operation) :
    (operation.run compiler view session).Orderly compiler := by
  cases operation with
  | openProject name directory roots options =>
    apply Each.openProject h
    exact Project.orderly_of_no_provider (Path.isNormal_normalize directory Path.isNormal_root)
      (fun _ => by simp [Project.create]) rfl
  | closeProject closed => exact Each.closeProject h closed
  | configure configuration =>
    refine h.of_changes (fun project horderly => ?_) (project?_modifyProjects session · _)
    exact horderly.steps_same_mode
      (Project.reconfigure_steps horderly.wired session.configuration configuration)
  | setMode mode =>
    show (session.setMode mode).Orderly compiler
    unfold setMode
    split
    · exact h
    · exact h.of_changes (fun project horderly => horderly.modeChanged mode)
        (project?_modifyProjects session · _)
  | updateGraph id =>
    show (session.updateGraph compiler id).2.Orderly compiler
    cases hopen : session.project? id with
    | none =>
      unfold Session.updateGraph
      rw [hopen]
      exact h
    | some project =>
      rw [updateGraph_of_open hopen]
      exact h.put id (h.current hopen) _
  | queryProvider id =>
    show (session.queryProvider compiler view id).val.2.Orderly compiler
    cases hopen : session.project? id with
    | none =>
      rw [queryProvider_of_closed compiler view hopen]
      exact h
    | some project =>
      rw [queryProvider_of_open hopen]
      exact h.put id (h.asked view hopen) _
  | queryExports id =>
    show (session.queryExports compiler view id).val.2.Orderly compiler
    cases hopen : session.project? id with
    | none =>
      unfold Session.queryExports
      rw [hopen]
      exact h
    | some project =>
      obtain ⟨index, hval⟩ := queryExports_of_open compiler view hopen
      rw [hval]
      refine h.put id ?_ _
      exact (h.asked view hopen).of_same rfl rfl rfl
  | projectManifests id =>
    show (session.projectManifests view id).val.2.Orderly compiler
    cases hopen : session.project? id with
    | none =>
      unfold Session.projectManifests
      rw [hopen]
      exact h
    | some project =>
      obtain ⟨consulted, hval⟩ := projectManifests_of_open view hopen
      rw [hval]
      refine h.put id ?_ _
      exact (h id project hopen).of_same rfl rfl rfl
  | visibleManifests fileName rootDirectory => exact h
  | manifestChanged fileName change =>
    refine h.of_changes (fun project horderly => ?_)
      (project?_manifestChanged session view fileName change)
    exact horderly.steps_same_mode (Project.manifestChanged_steps horderly.wired _)
  | dependencyChanged fileName =>
    refine h.of_changes (fun project horderly => ?_) (project?_dependencyChanged session fileName)
    exact horderly.steps_same_mode (Project.dependencyChanged_steps horderly.wired _)
  | onProject changed operation =>
    apply Each.modifyProject h
    intro project horderly
    exact horderly.steps_same_mode (operation.steps horderly.wired)

/-- A session that has just started has its slots in order, having none. -/
theorem startWith_orderly (compiler : Compiler σ) (caseSensitive : Bool)
    (configuration : HostConfiguration) (mode : SessionMode) (state : σ) :
    (startWith caseSensitive configuration mode state).Orderly compiler :=
  each_startWith _ caseSensitive configuration mode state

/-- Through any steps all slots stay in order. -/
theorem Orderly.through (h : session.Orderly compiler) (steps : List (FileView × Operation)) :
    (session.through compiler steps).Orderly compiler := by
  induction steps generalizing session with
  | nil => exact h
  | cons step rest ih => exact ih (h.run step.1 step.2)

/-- Take a new session and any operations, each on the file system as it is then, with a compiler
whose programs have the roots that it is asked for.  Then no slot is closed in a session that can
build programs, and none has a provider in another one.  Every provider is clean, with roots,
packages and a program of just these roots, or it is dirty and has no roots.  A query of any number
leaves no dirty provider to the project of that number, and a provider exactly if there was an
answer. -/
theorem slot_states {compiler : Compiler σ}
    (hcompiler : ∀ request state, (compiler.build request state).1.roots = request.roots)
    (caseSensitive : Bool) (configuration : HostConfiguration) (mode : SessionMode) (state : σ)
    (steps : List (FileView × Operation)) :
    let session := (startWith caseSensitive configuration mode state).through compiler steps
    (∀ id project, session.project? id = some project →
      (session.mode = .semantic → project.slot ≠ .disabled) ∧
      (session.mode ≠ .semantic → project.slot.isActive = false) ∧
      ∀ provider, project.slot = .active provider →
        (provider.isDirty = false ∧ provider.packageDirectories ≠ [] ∧
          ∃ roots program, provider.roots = some roots ∧ roots ≠ [] ∧
            provider.program = some program ∧ program.roots = roots) ∨
        (provider.isDirty = true ∧ provider.roots = none)) ∧
    ∀ view id,
      let queried := (session.queryProvider compiler view id).val
      let slot? := (queried.2.project? id).map Project.slot
      (∀ provider, slot? = some (.active provider) → provider.isDirty = false) ∧
        (slot?.any Slot.isActive = true ↔ queried.1.isSome = true) := by
  intro session
  have horderly : session.Orderly compiler :=
    (startWith_orderly compiler caseSensitive configuration mode state).through steps
  constructor
  · intro id project hopen
    have hproject := horderly id project hopen
    refine ⟨hproject.wired.slot, hproject.inactive, fun provider hactive => ?_⟩
    cases hdirty : provider.isDirty with
    | true => exact Or.inr ⟨rfl, (hproject.wired.provider provider hactive).roots hdirty⟩
    | false =>
      have hcomplete := hproject.complete provider hactive hdirty
      obtain ⟨roots, program, hgiven, hne, hprogram, request, built, hrequest, hbuilt⟩ :=
        hcomplete.program
      refine Or.inl ⟨rfl, hcomplete.packages, roots, program, hgiven, hne, hprogram, ?_⟩
      rw [← hbuilt, hcompiler, hrequest]
  · intro view id
    cases hopen : session.project? id with
    | none =>
      rw [queryProvider_of_closed compiler view hopen]
      dsimp only
      rw [hopen]
      exact ⟨fun provider hslot => absurd hslot (by simp), by simp⟩
    | some project =>
      obtain ⟨hclean, hactive⟩ := (horderly.outcome view hopen).slot (horderly.current hopen)
      rw [queryProvider_of_open hopen]
      dsimp only
      rw [project?_put, if_pos rfl]
      refine ⟨fun provider hslot => hclean provider (Option.some.inj hslot), ?_⟩
      rw [← hactive]
      rfl

/-- A project that lists an installed package is opened and queried. -/
def answered : Option Program × Session Nat :=
  (((startWith true {} .semantic 0).through .fileList
    [(installedTree.view, .openProject "p" "/" [] {})]).queryProvider .fileList
      installedTree.view 0).val

/-- There is an answer, so the query leaves a provider, which is clean. -/
theorem slot_states_answered :
    answered.1.isSome = true ∧
      ((answered.2.project? 0).map Project.slot).any Slot.isActive = true ∧
      ∀ provider, (answered.2.project? 0).map Project.slot = some (.active provider) →
        provider.isDirty = false := by
  have hanswer : answered.1.isSome = true := by decide +kernel
  obtain ⟨hclean, hactive⟩ := (slot_states Compiler.fileList_faithful.roots true {} .semantic 0
    [(installedTree.view, .openProject "p" "/" [] {})]).2 installedTree.view 0
  exact ⟨hanswer, hactive.2 hanswer, hclean⟩

end Session

end AutoImport
