import AutoImport.Proofs.Session.SettledProjects

/-!
# The steps of a project

Every operation on a project other than a query is a step in the sense of `Project.Steps`: building
the program anew, the operations of `ProjectOperation`, and what a new configuration or a new mode
of the session does.

Some of them reset the project: they drop all that is remembered about packages and leave no clean
provider behind.  From a reset project only the manifests of the session matter, so it is settled
wherever these agree with the tree (`settled_of_isReset`).
-/

set_option autoImplicit false

namespace AutoImport

namespace Project

variable {knows : Program → Prop} {mode : SessionMode} {project : Project}

/-- A reported manifest leaves the project, or drops its packages and its index and makes the
provider dirty. -/
theorem manifestChanged_eq (fileName : String) (project : Project) :
    project.manifestChanged fileName = (false, project) ∨
      project.manifestChanged fileName =
        (true,
          { project.clearDependencies with
            exportIndex := {}, slot := project.slot.markDirty }) := by
  unfold manifestChanged
  dsimp only
  split
  · exact Or.inr rfl
  · exact Or.inl rfl

/-- Whether a path is the manifest of a package that is looked for from the project's directory. -/
def sees (project : Project) (fileName : String) : Bool :=
  ChangeRouting.isManifestInScope (project.key fileName) (project.key project.directory)

/-- Whether a change of a file reaches the project: what it remembers about packages is dropped, or
its provider becomes dirty. -/
def reacts (project : Project) (fileName : String) : Bool :=
  project.sees fileName ||
    project.slot.provider?.any fun provider =>
      ChangeRouting.affects (project.key fileName) provider project.symlinks

/-- A change either does not reach the project and leaves it as it is, or resets it; the answer
tells that a provider became dirty. -/
theorem dependencyChanged_eq (fileName : String) (project : Project) :
    (project.reacts fileName = false ∧ project.dependencyChanged fileName = (false, project)) ∨
      (project.reacts fileName = true ∧ project.slot.provider? = none ∧
        project.dependencyChanged fileName = (false, { project with lookup := {} })) ∨
      (project.reacts fileName = true ∧ ∃ provider, project.slot = .active provider ∧
        project.dependencyChanged fileName =
          (true, { project.clearDependencies with slot := .active provider.markDirty })) := by
  unfold reacts sees dependencyChanged
  dsimp only
  cases hscope : ChangeRouting.isManifestInScope (project.key fileName)
      (project.key project.directory) with
  | true =>
    cases hslot : project.slot with
    | unset => exact Or.inr (Or.inl ⟨rfl, rfl, rfl⟩)
    | disabled => exact Or.inr (Or.inl ⟨rfl, rfl, rfl⟩)
    | active provider => exact Or.inr (Or.inr ⟨rfl, provider, rfl, rfl⟩)
  | false =>
    cases hslot : project.slot with
    | unset => exact Or.inl ⟨rfl, by simp [hslot]⟩
    | disabled => exact Or.inl ⟨rfl, by simp [hslot]⟩
    | active provider =>
      cases haffects : ChangeRouting.affects (project.key fileName) provider project.symlinks with
      | true => exact Or.inr (Or.inr ⟨by simp [Slot.provider?, haffects], provider, rfl,
          by simp [hslot, haffects]⟩)
      | false => exact Or.inl ⟨by simp [Slot.provider?, haffects], by simp [hslot, haffects]⟩

/-- An operation that leaves program, inputs, memories and slot alone is a step. -/
theorem steps_of_same (h : project.Wired knows mode) {after : Project}
    (hsame : project.SameInputs after) (hlookup : after.lookup = project.lookup ∨ after.lookup = {})
    (hslot : after.slot = project.slot) : project.Steps knows after where
  directory := hsame.directory
  program := by
    rw [hsame.program]
    exact h.program
  lookup := hlookup
  slot := .keeps hsame hslot

/-- Changed settings are a step. -/
theorem settingsChanged_steps (h : project.Wired knows mode) :
    project.Steps knows project.settingsChanged :=
  ⟨rfl, h.program, Or.inl rfl, .dirties rfl (Or.inr rfl)⟩

/-- A change of mode is a step. -/
theorem modeChanged_steps (h : project.Wired knows mode) (newMode : SessionMode) :
    project.Steps knows (project.modeChanged newMode) := by
  unfold modeChanged
  split
  · exact settingsChanged_steps h
  · exact ⟨rfl, h.program, Or.inl rfl, .empties rfl⟩

/-- Switching the option is a step. -/
theorem setEnabled_steps (h : project.Wired knows mode) (isEnabled : Bool) :
    project.Steps knows (project.setEnabled isEnabled) := by
  unfold setEnabled
  split
  · exact steps_of_same h ⟨rfl, rfl, rfl, rfl, rfl⟩ (Or.inl rfl) rfl
  · split
    · exact ⟨rfl, h.program, Or.inl rfl, .dirties rfl (Or.inr rfl)⟩
    · exact ⟨rfl, h.program, Or.inl rfl, .empties rfl⟩

/-- A reported manifest is a step. -/
theorem manifestChanged_steps (h : project.Wired knows mode) (fileName : String) :
    project.Steps knows (project.manifestChanged fileName).2 := by
  rcases manifestChanged_eq fileName project with heq | heq
  · rw [heq]
    exact steps_of_same h ⟨rfl, rfl, rfl, rfl, rfl⟩ (Or.inl rfl) rfl
  · rw [heq]
    exact ⟨rfl, h.program, Or.inr rfl, .dirties rfl (Or.inl rfl)⟩

/-- A reported dependency is a step. -/
theorem dependencyChanged_steps (h : project.Wired knows mode) (fileName : String) :
    project.Steps knows (project.dependencyChanged fileName).2 := by
  rcases dependencyChanged_eq fileName project with ⟨-, heq⟩ | ⟨-, -, heq⟩ |
    ⟨-, provider, hslot, heq⟩
  · rw [heq]
    exact steps_of_same h ⟨rfl, rfl, rfl, rfl, rfl⟩ (Or.inl rfl) rfl
  · rw [heq]
    exact steps_of_same h ⟨rfl, rfl, rfl, rfl, rfl⟩ (Or.inr rfl) rfl
  · rw [heq]
    refine ⟨rfl, h.program, Or.inr rfl, .dirties rfl (Or.inl ?_)⟩
    rw [hslot]
    rfl

/-- A configuration that changes neither the inclusion nor the directory of types only concerns the
specifiers; any other one is a change of settings too. -/
theorem reconfigure_eq (old new : HostConfiguration) (project : Project) :
    ∃ specifiers,
      (old.inclusion = new.inclusion ∧
          old.globalTypingsCacheLocation = new.globalTypingsCacheLocation ∧
          Session.reconfigure old new project = { project with specifiers }) ∨
        Session.reconfigure old new project = settingsChanged { project with specifiers } := by
  have hspecifiers : ∃ specifiers,
      (if old.preferences.importModuleSpecifierEnding ≠
            new.preferences.importModuleSpecifierEnding ∨
          old.preferences.importModuleSpecifierPreference ≠
            new.preferences.importModuleSpecifierPreference then
        { project with specifiers := {} } else project) = { project with specifiers } := by
    split
    · exact ⟨_, rfl⟩
    · exact ⟨project.specifiers, rfl⟩
  obtain ⟨specifiers, hspecifiers⟩ := hspecifiers
  refine ⟨specifiers, ?_⟩
  unfold Session.reconfigure
  dsimp only
  rw [hspecifiers]
  split
  · exact Or.inr rfl
  · rename_i hsettings
    rw [not_or, Decidable.not_not, Decidable.not_not] at hsettings
    refine Or.inl ⟨?_, hsettings.2, rfl⟩
    unfold HostConfiguration.inclusion
    rw [hsettings.1]

/-- A change of the configuration is a step. -/
theorem reconfigure_steps (h : project.Wired knows mode) (old new : HostConfiguration) :
    project.Steps knows (Session.reconfigure old new project) := by
  obtain ⟨specifiers, ⟨-, -, heq⟩ | heq⟩ := reconfigure_eq old new project
  · rw [heq]
    exact steps_of_same h ⟨rfl, rfl, rfl, rfl, rfl⟩ (Or.inl rfl) rfl
  · rw [heq]
    exact ⟨rfl, h.program, Or.inl rfl, .dirties rfl (Or.inr rfl)⟩

/-! ## Programs -/

/-- What the compiler is asked for when the program is built anew. -/
def request (project : Project) : ProgramRequest :=
  { roots := project.roots, options := project.options, old := project.program }

/-- The program is as it was demanded, or it is built anew and turns out to be the same or another
one. -/
theorem updateGraph_eq {σ : Type} (compiler : Compiler σ) (project : Project) (state : σ) :
    (project.updateGraph compiler state = (false, project, state)) ∨
      (Program.same project.program (some (compiler.build project.request state).1) = true ∧
        project.updateGraph compiler state =
          (false,
            { project with
              program := some (compiler.build project.request state).1
              isDirty := false },
            (compiler.build project.request state).2)) ∨
      (project.updateGraph compiler state =
        (true,
          { project.clearDependencies with
            program := some (compiler.build project.request state).1
            isDirty := false
            version := project.version + 1
            exportIndex := {}
            symlinks := project.symlinks.unseed
            slot := project.slot.markDirty },
          (compiler.build project.request state).2)) := by
  unfold updateGraph request
  dsimp only
  split
  · split
    · rename_i hsame
      exact Or.inr (Or.inl ⟨hsame, rfl⟩)
    · exact Or.inr (Or.inr rfl)
  · exact Or.inl rfl

section Compilers

variable {σ : Type} {compiler : Compiler σ} {knows : σ → Program → Prop} {state : σ}

/-- The compiler knows after an update the programs it knew before. -/
theorem updateGraph_keeps (hcompiler : compiler.Faithful knows) (program : Program)
    (h : knows state program) : knows (project.updateGraph compiler state).2.2 program := by
  rcases updateGraph_eq compiler project state with heq | ⟨-, heq⟩ | heq
  · rw [heq]
    exact h
  · rw [heq]
    exact hcompiler.kept _ _ program h
  · rw [heq]
    exact hcompiler.kept _ _ program h

/-- Building the program anew is a step, and so is finding it unchanged. -/
theorem updateGraph_steps (hcompiler : compiler.Faithful knows)
    (h : project.Wired (knows state) mode) :
    project.Steps (knows (project.updateGraph compiler state).2.2)
      (project.updateGraph compiler state).2.1 := by
  have hbuilt : knows (compiler.build project.request state).2
      (compiler.build project.request state).1 := hcompiler.built _ _ h.program
  rcases updateGraph_eq compiler project state with heq | ⟨hsame, heq⟩ | heq
  · rw [heq]
    exact steps_of_same h ⟨rfl, rfl, rfl, rfl, rfl⟩ (Or.inl rfl) rfl
  · -- The compiler gave back the program that the project has.
    have hprogram : some (compiler.build project.request state).1 = project.program := by
      unfold Program.same at hsame
      cases hcurrent : project.program with
      | none =>
        rw [hcurrent] at hsame
        exact absurd hsame (by simp)
      | some old =>
        rw [hcurrent] at hsame
        have hid : old.id = (compiler.build project.request state).1.id := by simpa using hsame
        rw [hcompiler.same project.request state old hcurrent (h.program old hcurrent) hid.symm]
    rw [heq]
    refine ⟨rfl, ?_, Or.inl rfl, .keeps ⟨rfl, rfl, hprogram, rfl, rfl⟩ rfl⟩
    intro program hmine
    rw [← Option.some.inj hmine]
    exact hbuilt
  · rw [heq]
    refine ⟨rfl, ?_, Or.inr rfl, .dirties rfl (Or.inl rfl)⟩
    intro program hmine
    rw [← Option.some.inj hmine]
    exact hbuilt

end Compilers

/-! ## Resets -/

/-- Nothing is remembered about packages, and no clean provider is left. -/
structure IsReset (project : Project) : Prop where
  lookup : project.lookup = {}
  slot : project.slot.IsStale

/-- A reset project is settled wherever the manifests of its session agree with the tree. -/
theorem settled_of_isReset {tree : MemoryTree} {services : Services} {cache : ManifestCache}
    (h : project.IsReset) (hwired : project.Wired knows services.mode)
    (hcase : cache.caseSensitive = tree.caseSensitive)
    (hmanifests : ∀ directory ∈ project.visibleDirectories, cache.AgreesAt tree directory) :
    project.Settled knows tree services cache := by
  refine settled_of_isStale hwired ⟨hcase, hmanifests, ?_⟩ h.slot
  rw [h.lookup]
  exact PackageLookup.truthful_empty _

/-- Set options reset the project. -/
theorem setOptions_isReset (options : CompilerOptions) (project : Project) :
    (project.setOptions options).IsReset :=
  ⟨rfl, isStale_unset⟩

/-- An update that changes the graph resets the project. -/
theorem updateGraph_isReset {σ : Type} {compiler : Compiler σ} {state : σ}
    (h : (project.updateGraph compiler state).1 = true) :
    (project.updateGraph compiler state).2.1.IsReset := by
  rcases updateGraph_eq compiler project state with heq | ⟨-, heq⟩ | heq
  · rw [heq] at h
    exact absurd h (by simp)
  · rw [heq] at h
    exact absurd h (by simp)
  · rw [heq]
    exact ⟨rfl, isStale_markDirty project.slot⟩

/-- A reported manifest that reaches the project resets it. -/
theorem manifestChanged_isReset {fileName : String}
    (h : (project.manifestChanged fileName).1 = true) :
    (project.manifestChanged fileName).2.IsReset := by
  rcases manifestChanged_eq fileName project with heq | heq
  · rw [heq] at h
    exact absurd h (by simp)
  · rw [heq]
    exact ⟨rfl, isStale_markDirty project.slot⟩

/-- Updating the graph leaves the project where it is. -/
theorem directory_updateGraph {σ : Type} (compiler : Compiler σ) (project : Project) (state : σ) :
    (project.updateGraph compiler state).2.1.directory = project.directory := by
  rcases updateGraph_eq compiler project state with heq | ⟨-, heq⟩ | heq
  · rw [heq]
  · rw [heq]
  · rw [heq]
    rfl

/-- A reported manifest leaves the project where it is. -/
theorem directory_manifestChanged (fileName : String) (project : Project) :
    (project.manifestChanged fileName).2.directory = project.directory := by
  rcases manifestChanged_eq fileName project with heq | heq
  · rw [heq]
  · rw [heq]
    rfl

/-- A reported dependency leaves the project where it is. -/
theorem directory_dependencyChanged (fileName : String) (project : Project) :
    (project.dependencyChanged fileName).2.directory = project.directory := by
  rcases dependencyChanged_eq fileName project with ⟨-, heq⟩ | ⟨-, -, heq⟩ | ⟨-, _, -, heq⟩
  · rw [heq]
  · rw [heq]
  · rw [heq]
    rfl

/-- A change that reaches the project resets it, whatever the state of its slot. -/
theorem dependencyChanged_isReset {fileName : String} (h : project.reacts fileName = true) :
    (project.dependencyChanged fileName).2.IsReset := by
  rcases dependencyChanged_eq fileName project with ⟨hno, -⟩ | ⟨-, hslot, heq⟩ |
    ⟨-, provider, -, heq⟩
  · rw [hno] at h
    exact absurd h (by simp)
  · rw [heq]
    refine ⟨rfl, fun provider hactive => ?_⟩
    rw [hactive] at hslot
    exact absurd hslot (by simp [Slot.provider?])
  · rw [heq]
    refine ⟨rfl, fun other hactive => ?_⟩
    obtain rfl : provider.markDirty = other := Slot.active.inj hactive
    exact provider.isDirty_markDirty

/-- A reported dependency that is answered with true reaches the project. -/
theorem reacts_of_dependencyChanged {fileName : String}
    (h : (project.dependencyChanged fileName).1 = true) : project.reacts fileName = true := by
  rcases dependencyChanged_eq fileName project with ⟨-, heq⟩ | ⟨-, -, heq⟩ | ⟨hreacts, -⟩
  · rw [heq] at h
    exact absurd h (by simp)
  · rw [heq] at h
    exact absurd h (by simp)
  · exact hreacts

/-- A manifest that the project sees reaches it. -/
theorem reacts_of_sees {fileName : String} (h : project.sees fileName = true) :
    project.reacts fileName = true := by
  unfold reacts
  rw [h]
  rfl

end Project

/-- An operation on a project is a step. -/
theorem ProjectOperation.steps {knows : Program → Prop} {mode : SessionMode} {project : Project}
    (h : project.Wired knows mode) (operation : ProjectOperation) :
    project.Steps knows (operation.run project) := by
  cases operation with
  | setRoots roots => exact Project.steps_of_same h ⟨rfl, rfl, rfl, rfl, rfl⟩ (Or.inl rfl) rfl
  | setOptions options => exact ⟨rfl, h.program, Or.inr rfl, .empties rfl⟩
  | setEnabled isEnabled => exact Project.setEnabled_steps h isEnabled
  | markDirty => exact Project.steps_of_same h ⟨rfl, rfl, rfl, rfl, rfl⟩ (Or.inl rfl) rfl
  | settingsChanged => exact Project.settingsChanged_steps h
  | modeChanged newMode => exact Project.modeChanged_steps h newMode
  | manifestChanged fileName => exact Project.manifestChanged_steps h fileName
  | dependencyChanged fileName => exact Project.dependencyChanged_steps h fileName
  | seedSymlinks => exact Project.steps_of_same h ⟨rfl, rfl, rfl, rfl, rfl⟩ (Or.inl rfl) rfl
  | setSpecifiers specifiers =>
    exact Project.steps_of_same h ⟨rfl, rfl, rfl, rfl, rfl⟩ (Or.inl rfl) rfl
  | close =>
    refine ⟨rfl, ?_, Or.inr rfl, .empties rfl⟩
    intro program hprogram
    exact absurd hprogram (by simp [ProjectOperation.run, Project.close])

end AutoImport
