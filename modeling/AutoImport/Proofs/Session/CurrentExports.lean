import AutoImport.Proofs.Session.RepeatedQueries

/-!
# Export indexes are never stale

An index of exports is used again as long as the two programs that it was built from have the
identities of the current ones.  Some of the operations that replace a program drop the index and
some do not, so it matters that an identity stands for one program only.

`Compiler.History` lists the programs that a compiler can have handed out on the way to a state.
All programs that a project holds, also those that its index remembers, are among them, and an
index that is built has the contents of its two programs (`Project.Recalls`).  Every operation keeps
this.  Where identities tell the handed programs apart, an index that is used again is the one that
would be built anew (`ExportIndex.Recalls.renew_eq`).
-/

set_option autoImplicit false

namespace AutoImport

variable {σ : Type}

namespace Compiler

/-- The programs that the compiler can have handed out between two states, the latest one first.
Only such a program is ever to be replaced. -/
inductive History (compiler : Compiler σ) (start : σ) : σ → List Program → Prop where
  | start : History compiler start start []
  | build {state : σ} {handed : List Program} (request : ProgramRequest)
    (h : History compiler start state handed)
    (hold : ∀ old, request.old = some old → old ∈ handed) :
    History compiler start (compiler.build request state).2
      ((compiler.build request state).1 :: handed)

/-- Identities tell programs apart: what was handed out under an identity never changes. -/
def Distinguishes (compiler : Compiler σ) (start : σ) : Prop :=
  ∀ state handed, compiler.History start state handed →
    ∀ first ∈ handed, ∀ second ∈ handed, first.id = second.id → first = second

/-- The compiler that works by tables numbers its programs, so none shares its number with an
earlier one. -/
theorem scripted_distinguishes (start : Script) : scripted.Distinguishes start := by
  have hcases : ∀ request script,
      (∃ old, request.old = some old ∧ (scripted.build request script).1 = old ∧
        (scripted.build request script).2.built = script.built) ∨
      ((scripted.build request script).1.id = script.built + 1 ∧
        (scripted.build request script).2.built = script.built + 1) := by
    intro request script
    unfold scripted
    dsimp only
    cases request.old with
    | none => exact Or.inr ⟨rfl, rfl⟩
    | some old =>
      dsimp only
      split
      · exact Or.inl ⟨old, rfl, rfl, rfl⟩
      · exact Or.inr ⟨rfl, rfl⟩
  -- No program has a number above that of the latest one.
  have hinvariant : ∀ state handed, scripted.History start state handed →
      (∀ program ∈ handed, program.id ≤ state.built) ∧
        ∀ first ∈ handed, ∀ second ∈ handed, first.id = second.id → first = second := by
    intro state handed hhistory
    induction hhistory with
    | start => simp
    | @build state handed request hhistory hold ih =>
      obtain ⟨hbound, hdistinct⟩ := ih
      rcases hcases request state with ⟨old, hrequest, hbuild, hcount⟩ | ⟨hid, hcount⟩
      · have hmem := hold old hrequest
        rw [hbuild, hcount]
        constructor
        · intro program hprogram
          rcases List.mem_cons.1 hprogram with rfl | hprogram
          · exact hbound _ hmem
          · exact hbound _ hprogram
        · intro first hfirst second hsecond
          apply hdistinct
          · rcases List.mem_cons.1 hfirst with rfl | hfirst
            · exact hmem
            · exact hfirst
          · rcases List.mem_cons.1 hsecond with rfl | hsecond
            · exact hmem
            · exact hsecond
      · rw [hcount]
        constructor
        · intro program hprogram
          rcases List.mem_cons.1 hprogram with rfl | hprogram
          · omega
          · have := hbound _ hprogram
            omega
        · intro first hfirst second hsecond hsame
          rcases List.mem_cons.1 hfirst with rfl | hfirst
          · rcases List.mem_cons.1 hsecond with rfl | hsecond
            · rfl
            · have := hbound _ hsecond
              omega
          · rcases List.mem_cons.1 hsecond with rfl | hsecond
            · have := hbound _ hfirst
              omega
            · exact hdistinct first hfirst second hsecond hsame
  intro state handed hhistory
  exact (hinvariant state handed hhistory).2

end Compiler

/-! ## Indexes -/

namespace ExportIndex

/-- The programs that the index remembers were handed out, and once it is built it has their
exports. -/
structure Recalls (handed : List Program) (index : ExportIndex) : Prop where
  host : ∀ program, index.host = some program → program ∈ handed
  provider : ∀ program, index.provider = some program → program ∈ handed
  contents : index.isBuilt = true → index = build index.host index.provider

variable {handed later : List Program} {index : ExportIndex} {host provider : Option Program}

/-- An empty index recalls nothing. -/
theorem recalls_empty (handed : List Program) : Recalls handed {} := by
  constructor <;> simp

/-- An index of programs that were handed out recalls them. -/
theorem recalls_build (hhost : ∀ program, host = some program → program ∈ handed)
    (hprovider : ∀ program, provider = some program → program ∈ handed) :
    Recalls handed (build host provider) :=
  ⟨hhost, hprovider, fun _ => rfl⟩

/-- An index recalls its programs however many are handed out later. -/
theorem Recalls.mono (h : index.Recalls handed) (hlater : handed ⊆ later) :
    index.Recalls later where
  host program hprogram := hlater (h.host program hprogram)
  provider program hprogram := hlater (h.provider program hprogram)
  contents := h.contents

/-- Of programs that identities tell apart, those with one identity are the same. -/
theorem eq_of_same
    (hdistinct : ∀ first ∈ handed, ∀ second ∈ handed, first.id = second.id → first = second)
    {first second : Option Program} (hfirst : ∀ program, first = some program → program ∈ handed)
    (hsecond : ∀ program, second = some program → program ∈ handed)
    (hsame : Program.same first second = true) : first = second := by
  unfold Program.same at hsame
  cases first with
  | none =>
    cases second with
    | none => rfl
    | some _ => simp at hsame
  | some program =>
    cases second with
    | none => simp at hsame
    | some other =>
      have hid : program.id = other.id := by simpa using hsame
      rw [hdistinct program (hfirst program rfl) other (hsecond other rfl) hid]

/-- An index that is used again is the one that would be built anew. -/
theorem Recalls.renew_eq (h : index.Recalls handed)
    (hdistinct : ∀ first ∈ handed, ∀ second ∈ handed, first.id = second.id → first = second)
    (hhost : ∀ program, host = some program → program ∈ handed)
    (hprovider : ∀ program, provider = some program → program ∈ handed) :
    index.renew host provider = build host provider := by
  unfold renew
  split
  · rename_i hcurrent
    unfold isCurrent at hcurrent
    rw [Bool.and_eq_true, Bool.and_eq_true] at hcurrent
    obtain ⟨⟨hbuilt, hsameHost⟩, hsameProvider⟩ := hcurrent
    rw [h.contents hbuilt, eq_of_same hdistinct h.host hhost hsameHost,
      eq_of_same hdistinct h.provider hprovider hsameProvider]
  · rfl

end ExportIndex

/-! ## Projects -/

namespace Project

/-- The project holds programs that were handed out, and its index recalls its own two. -/
structure Recalls (handed : List Program) (mode : SessionMode) (project : Project) : Prop where
  wired : project.Wired (· ∈ handed) mode
  index : project.exportIndex.Recalls handed

variable {compiler : Compiler σ} {start : σ} {handed later : List Program}
  {mode newMode : SessionMode} {project after : Project}

/-- A project recalls its programs however many are handed out later. -/
theorem Recalls.mono (h : project.Recalls handed mode) (hlater : handed ⊆ later) :
    project.Recalls later mode :=
  ⟨h.wired.mono fun _ hmem => hlater hmem, h.index.mono hlater⟩

/-- A step that leaves the index alone or empties it keeps what the project recalls. -/
theorem Recalls.steps (h : project.Recalls handed mode)
    (hsteps : project.Steps (· ∈ handed) after)
    (hindex : after.exportIndex = project.exportIndex ∨ after.exportIndex = {})
    (hslot : newMode = .semantic → after.slot ≠ .disabled) : after.Recalls handed newMode := by
  refine ⟨hsteps.wired h.wired (fun _ hmem => hmem) hslot, ?_⟩
  rcases hindex with hindex | hindex
  · rw [hindex]
    exact h.index
  · rw [hindex]
    exact ExportIndex.recalls_empty handed

/-- The same holds of a step that leaves the mode alone. -/
theorem Recalls.steps_same_mode (h : project.Recalls handed mode)
    (hsteps : project.Steps (· ∈ handed) after)
    (hindex : after.exportIndex = project.exportIndex ∨ after.exportIndex = {}) :
    after.Recalls handed mode := by
  apply h.steps hsteps hindex
  intro hmode
  exact hsteps.slot.ne_disabled (h.wired.slot hmode)

/-- A reported manifest leaves the index or empties it. -/
theorem exportIndex_manifestChanged (fileName : String) (project : Project) :
    (project.manifestChanged fileName).2.exportIndex = project.exportIndex ∨
      (project.manifestChanged fileName).2.exportIndex = {} := by
  rcases manifestChanged_eq fileName project with heq | heq <;> simp [heq]

/-- A reported dependency leaves the index. -/
theorem exportIndex_dependencyChanged (fileName : String) (project : Project) :
    (project.dependencyChanged fileName).2.exportIndex = project.exportIndex := by
  rcases dependencyChanged_eq fileName project with ⟨-, heq⟩ | ⟨-, -, heq⟩ |
    ⟨-, provider, -, heq⟩ <;>
    simp [heq, clearDependencies]

/-- Switching the option leaves the index. -/
theorem exportIndex_setEnabled (isEnabled : Bool) (project : Project) :
    (project.setEnabled isEnabled).exportIndex = project.exportIndex := by
  unfold setEnabled
  split
  · rfl
  · split <;> rfl

/-- A change of mode leaves the index. -/
theorem exportIndex_modeChanged (mode : SessionMode) (project : Project) :
    (project.modeChanged mode).exportIndex = project.exportIndex := by
  unfold modeChanged
  split <;> rfl

/-- A change of the configuration leaves the index. -/
theorem exportIndex_reconfigure (old new : HostConfiguration) (project : Project) :
    (Session.reconfigure old new project).exportIndex = project.exportIndex := by
  obtain ⟨specifiers, ⟨-, -, heq⟩ | heq⟩ := reconfigure_eq old new project <;>
    simp [heq, settingsChanged]

end Project

/-- An operation on the project leaves the index or empties it. -/
theorem ProjectOperation.exportIndex_run (operation : ProjectOperation) (project : Project) :
    (operation.run project).exportIndex = project.exportIndex ∨
      (operation.run project).exportIndex = {} := by
  cases operation with
  | manifestChanged fileName =>
    rw [ProjectOperation.run]
    exact Project.exportIndex_manifestChanged fileName project
  | dependencyChanged fileName =>
    rw [ProjectOperation.run]
    exact Or.inl (Project.exportIndex_dependencyChanged fileName project)
  | setEnabled isEnabled =>
    rw [ProjectOperation.run]
    exact Or.inl (Project.exportIndex_setEnabled isEnabled project)
  | modeChanged mode =>
    rw [ProjectOperation.run]
    exact Or.inl (Project.exportIndex_modeChanged mode project)
  | close => exact Or.inr rfl
  | _ => exact Or.inl rfl

/-! ## Queries -/

namespace Project

variable {compiler : Compiler σ} {services : Services} {start : σ} {handed : List Program}
  {mode : SessionMode} {project : Project} {shared : Shared σ}
  {outcome : Option Program × Project × Shared σ}

/-- A refresh of the provider leaves the index or empties it. -/
theorem exportIndex_refresh (compiler : Compiler σ) (services : Services) (provider : Provider)
    (project : Project) (shared : Shared σ) :
    (project.refresh compiler services provider shared).val.2.1.exportIndex =
        project.exportIndex ∨
      (project.refresh compiler services provider shared).val.2.1.exportIndex = {} := by
  obtain ⟨lookup, symlinks, consulted, hframe⟩ := discover_frame services
    (project.inclusion services.inclusion) provider.options project shared.manifests
  unfold refresh
  cases provider.roots with
  | some roots =>
    simp only [Probed.val_bind, Probed.val_pure]
    split <;> simp
  | none =>
    simp only [Probed.val_bind, Probed.val_pure]
    split <;> simp [hframe]

/-- A query leaves the index as it is or drops it. -/
theorem exportIndex_queryProvider (compiler : Compiler σ) (services : Services)
    (project : Project) (shared : Shared σ) :
    (project.queryProvider compiler services shared).val.2.1.exportIndex = project.exportIndex ∨
      (project.queryProvider compiler services shared).val.2.1.exportIndex = {} := by
  have hunset : (project.queryUnset compiler services shared).val.2.1.exportIndex =
        project.exportIndex ∨
      (project.queryUnset compiler services shared).val.2.1.exportIndex = {} := by
    obtain ⟨lookup, symlinks, consulted, hframe⟩ := discover_frame services
      (project.inclusion services.inclusion) project.options.forProvider project shared.manifests
    unfold queryUnset
    dsimp only
    split
    · exact Or.inl rfl
    · rw [Probed.val_bind]
      split
      · simp [hframe]
      · rename_i provider _
        have hrefresh := exportIndex_refresh compiler services provider
          (project.discover services (project.inclusion services.inclusion)
            project.options.forProvider shared.manifests).val.2.1
          { shared with manifests := (project.discover services
            (project.inclusion services.inclusion) project.options.forProvider
              shared.manifests).val.2.2 }
        rw [Probed.val_bind]
        rwa [hframe] at hrefresh ⊢
  unfold queryProvider
  cases project.slot with
  | disabled => exact Or.inl rfl
  | unset =>
    dsimp only
    split
    · exact Or.inl rfl
    · exact hunset
  | active provider =>
    dsimp only
    split
    · exact Or.inl rfl
    · unfold queryActive
      split
      · have hrefresh := exportIndex_refresh compiler services provider project shared
        rw [Probed.val_bind]
        generalize (project.refresh compiler services provider shared).val = refreshed at hrefresh ⊢
        obtain ⟨compiled, left, rest⟩ := refreshed
        dsimp only at hrefresh ⊢
        split <;> exact hrefresh
      · exact Or.inl rfl

/-- Bringing the program up to date adds at most one program to those that were handed out. -/
theorem Recalls.updateGraph {state : σ} (h : project.Recalls handed mode)
    (hhistory : compiler.History start state handed) :
    ∃ later, handed ⊆ later ∧
      compiler.History start (project.updateGraph compiler state).2.2 later ∧
      (project.updateGraph compiler state).2.1.Recalls later mode := by
  have hbuilt : compiler.History start (compiler.build project.request state).2
      ((compiler.build project.request state).1 :: handed) := .build _ hhistory h.wired.program
  have hlater : handed ⊆ (compiler.build project.request state).1 :: handed :=
    List.subset_cons_self _ _
  have hkept := h.mono hlater
  rcases updateGraph_eq compiler project state with heq | ⟨-, heq⟩ | heq
  · rw [heq]
    exact ⟨handed, List.Subset.refl _, hhistory, h⟩
  · rw [heq]
    refine ⟨_, hlater, hbuilt, ⟨hkept.wired.directory, ?_, hkept.wired.slot, hkept.wired.provider⟩,
      hkept.index⟩
    intro program hprogram
    simp [← Option.some.inj hprogram]
  · rw [heq]
    refine ⟨_, hlater, hbuilt,
      hkept.steps_same_mode ⟨rfl, ?_, Or.inr rfl, .dirties rfl (Or.inl rfl)⟩
      (Or.inr rfl)⟩
    intro program hprogram
    simp [← Option.some.inj hprogram]

/-- So does a query, and its answer is one of them. -/
theorem Outcome.recalls (houtcome : Outcome compiler services project shared outcome)
    (hindex : outcome.2.1.exportIndex = project.exportIndex ∨ outcome.2.1.exportIndex = {})
    (h : project.Recalls handed services.mode)
    (hhistory : compiler.History start shared.compilerState handed) :
    ∃ later, handed ⊆ later ∧ compiler.History start outcome.2.2.compilerState later ∧
      outcome.2.1.Recalls later services.mode ∧
      ∀ program, outcome.1 = some program → program ∈ later := by
  have hindexed : outcome.2.1.exportIndex.Recalls handed := by
    rcases hindex with hindex | hindex
    · rw [hindex]
      exact h.index
    · rw [hindex]
      exact ExportIndex.recalls_empty handed
  have hsame := houtcome.sameInputs
  have hdirectory : Path.IsNormal outcome.2.1.directory := hsame.directory ▸ h.wired.directory
  have hprogram : ∀ program, outcome.2.1.program = some program → program ∈ handed :=
    hsame.program ▸ h.wired.program
  cases houtcome with
  | closed hslot => exact ⟨handed, List.Subset.refl _, hhistory, h, by simp⟩
  | closes hmode =>
    refine ⟨handed, List.Subset.refl _, hhistory, ⟨⟨hdirectory, hprogram, ?_, ?_⟩, hindexed⟩, ?_⟩
    · intro hsemantic
      exact absurd hsemantic hmode
    · simp
    · simp
  | clean provider hmode hslot hclean =>
    exact ⟨handed, List.Subset.refl _, hhistory, h, (h.wired.provider provider hslot).program⟩
  | empties index hmode hroots =>
    refine ⟨handed, List.Subset.refl _, hhistory, ⟨⟨hdirectory, hprogram, ?_, ?_⟩, hindexed⟩, ?_⟩
    · simp
    · simp
    · simp
  | builds index provider old hmode hroots hold hoptions hclean hcompiled hgiven hpackages =>
    have hlater : handed ⊆ (project.compiled compiler
        (project.findings services shared.manifests).1.roots old shared.compilerState).1 ::
          handed :=
      List.subset_cons_self _ _
    refine ⟨_, hlater, .build _ hhistory ?_, ⟨⟨hdirectory, ?_, ?_, ?_⟩, hindexed.mono hlater⟩, ?_⟩
    · intro program hprogram
      obtain ⟨earlier, hslot, hearlier⟩ := hold program hprogram
      exact (h.wired.provider earlier hslot).program program hearlier
    · intro program hmine
      exact hlater (hprogram program hmine)
    · simp
    · intro other hother
      obtain rfl : provider = other := Slot.active.inj hother
      refine ⟨?_, ?_, ?_⟩
      · rw [hsame.options]
        exact hoptions
      · simp [hclean]
      · intro program hmine
        rw [hcompiled] at hmine
        simp [← Option.some.inj hmine]
    · intro program hmine
      simp [← Option.some.inj hmine]

/-- A second query answers the same, whatever index of exports stands ready. -/
theorem Outcome.again_of_index (h : Outcome compiler services project shared outcome)
    (hnormal : Path.IsNormal project.directory) (other : Compiler σ) (index : ExportIndex) :
    (({ outcome.2.1 with exportIndex := index } : Project).queryProvider other services
      outcome.2.2).val.1 = outcome.1 := by
  cases h with
  | closed hslot =>
    unfold queryProvider
    simp only [hslot]
    rfl
  | closes hmode => rfl
  | clean provider hmode hslot hclean =>
    have hactive : ({ project with exportIndex := index } : Project).slot = .active provider :=
      hslot
    dsimp only
    rw [queryProvider_of_clean hmode hactive hclean]
  | empties earlier hmode hroots =>
    have hempties : Outcome compiler services project shared _ := .empties index hmode hroots
    have hagain := hempties.again hnormal other
    dsimp only at hagain ⊢
    rw [hagain]
  | builds earlier provider old hmode hroots hold hoptions hclean hprogram hgiven hpackages =>
    dsimp only
    rw [queryProvider_of_clean hmode rfl hclean, hprogram]

end Project

/-! ## Sessions -/

namespace Session

/-- The compiler has come from a state to its present one by handing out the given programs, and all
projects recall them. -/
structure Recalls (compiler : Compiler σ) (start : σ) (handed : List Program)
    (session : Session σ) : Prop where
  history : compiler.History start session.compilerState handed
  projects : ∀ id project, session.project? id = some project →
    project.Recalls handed session.mode

variable {compiler : Compiler σ} {start : σ} {handed later : List Program}
  {session after : Session σ} {id : Nat} {project : Project}

/-- Putting a project back keeps what the session recalls. -/
theorem Recalls.put (h : session.Recalls compiler start handed) (id : Nat) {shared : Shared σ}
    (hlater : handed ⊆ later) (hhistory : compiler.History start shared.compilerState later)
    (hproject : project.Recalls later session.mode) :
    (session.put id project shared).Recalls compiler start later :=
  ⟨hhistory, Each.put (Each.mono h.projects fun _ hrecalls => hrecalls.mono hlater) id hproject
    shared⟩

/-- An operation that changes every project and asks for no program. -/
theorem Recalls.of_changes (h : session.Recalls compiler start handed)
    (hstate : after.compilerState = session.compilerState) {change : Project → Project}
    (hchange : ∀ project, project.Recalls handed session.mode →
      (change project).Recalls handed after.mode)
    (hproject : ∀ id, after.project? id = (session.project? id).map change) :
    after.Recalls compiler start handed :=
  ⟨hstate ▸ h.history, Each.of_changes h.projects hchange hproject⟩

/-- What a query of an open project leaves. -/
theorem Recalls.asked (h : session.Recalls compiler start handed) (view : FileView)
    (hopen : session.project? id = some project) :
    ∃ later, handed ⊆ later ∧
      compiler.History start (session.asked compiler view project).2.2.compilerState later ∧
      (session.asked compiler view project).2.1.Recalls later session.mode ∧
      ∀ program, (session.asked compiler view project).1 = some program → program ∈ later := by
  obtain ⟨middle, hmiddle, hhistory, hcurrent⟩ :=
    (h.projects id project hopen).updateGraph h.history
  have houtcome : Project.Outcome compiler (session.services view)
      (session.current compiler project).1
      ⟨session.manifests, (session.current compiler project).2⟩
      (session.asked compiler view project) := Project.queryProvider_outcome hcurrent.wired
  obtain ⟨later, hlater, hleft⟩ := houtcome.recalls
    (Project.exportIndex_queryProvider compiler (session.services view) _ _) hcurrent hhistory
  exact ⟨later, List.Subset.trans hmiddle hlater, hleft⟩

/-- Every operation leaves a session in which all projects recall the programs handed out. -/
theorem Recalls.run (h : session.Recalls compiler start handed) (view : FileView)
    (operation : Operation) :
    ∃ later, (operation.run compiler view session).Recalls compiler start later := by
  cases operation with
  | openProject name directory roots options =>
    refine ⟨handed, h.history, Each.openProject h.projects name directory roots options ?_⟩
    have hnormal := Path.isNormal_normalize directory Path.isNormal_root
    exact ⟨⟨hnormal, by simp [Project.create], by simp [Project.create], by simp [Project.create]⟩,
      ExportIndex.recalls_empty handed⟩
  | closeProject closed => exact ⟨handed, h.history, Each.closeProject h.projects closed⟩
  | configure configuration =>
    refine ⟨handed, h.of_changes rfl ?_ (project?_modifyProjects session · _)⟩
    intro project hrecalls
    exact hrecalls.steps_same_mode
      (Project.reconfigure_steps hrecalls.wired session.configuration configuration)
      (Or.inl (Project.exportIndex_reconfigure _ _ project))
  | setMode mode =>
    refine ⟨handed, ?_⟩
    show (session.setMode mode).Recalls compiler start handed
    unfold setMode
    split
    · exact h
    · refine h.of_changes rfl ?_ (project?_modifyProjects session · _)
      intro project hrecalls
      apply hrecalls.steps (Project.modeChanged_steps hrecalls.wired mode)
        (Or.inl (Project.exportIndex_modeChanged mode project))
      intro hmode
      have hsemantic : mode = .semantic := hmode
      unfold Project.modeChanged
      rw [if_pos hsemantic]
      exact Project.settingsChanged_ne_disabled project.slot
  | updateGraph id =>
    show ∃ later, (session.updateGraph compiler id).2.Recalls compiler start later
    cases hopen : session.project? id with
    | none =>
      unfold Session.updateGraph
      rw [hopen]
      exact ⟨handed, h⟩
    | some project =>
      obtain ⟨later, hlater, hhistory, hcurrent⟩ :=
        (h.projects id project hopen).updateGraph h.history
      rw [updateGraph_of_open hopen]
      exact ⟨later, h.put id hlater hhistory hcurrent⟩
  | queryProvider id =>
    show ∃ later, (session.queryProvider compiler view id).val.2.Recalls compiler start later
    cases hopen : session.project? id with
    | none =>
      rw [queryProvider_of_closed compiler view hopen]
      exact ⟨handed, h⟩
    | some project =>
      obtain ⟨later, hlater, hhistory, hleft, -⟩ := h.asked view hopen
      rw [queryProvider_of_open hopen]
      exact ⟨later, h.put id hlater hhistory hleft⟩
  | queryExports id =>
    show ∃ later, (session.queryExports compiler view id).val.2.Recalls compiler start later
    cases hopen : session.project? id with
    | none =>
      unfold Session.queryExports
      rw [hopen]
      exact ⟨handed, h⟩
    | some project =>
      obtain ⟨later, hlater, hhistory, hleft, hanswer⟩ := h.asked view hopen
      rw [queryExports_eq compiler view hopen]
      refine ⟨later, h.put id hlater hhistory ⟨⟨hleft.wired.directory, hleft.wired.program,
        hleft.wired.slot, hleft.wired.provider⟩, ?_⟩⟩
      unfold ExportIndex.renew
      split
      · exact hleft.index
      · exact ExportIndex.recalls_build hleft.wired.program hanswer
  | projectManifests id =>
    show ∃ later, (session.projectManifests view id).val.2.Recalls compiler start later
    cases hopen : session.project? id with
    | none =>
      unfold Session.projectManifests
      rw [hopen]
      exact ⟨handed, h⟩
    | some project =>
      obtain ⟨consulted, hval⟩ := projectManifests_of_open view hopen
      have hproject := h.projects id project hopen
      rw [hval]
      refine ⟨handed, h.put id (List.Subset.refl _) h.history ?_⟩
      exact hproject.steps_same_mode
        (Project.steps_of_same hproject.wired ⟨rfl, rfl, rfl, rfl, rfl⟩ (Or.inl rfl) rfl)
        (Or.inl rfl)
  | visibleManifests fileName rootDirectory => exact ⟨handed, h.history, h.projects⟩
  | manifestChanged fileName change =>
    refine ⟨handed, h.of_changes rfl ?_ (project?_manifestChanged session view fileName change)⟩
    intro project hrecalls
    exact hrecalls.steps_same_mode (Project.manifestChanged_steps hrecalls.wired _)
      (Project.exportIndex_manifestChanged _ project)
  | dependencyChanged fileName =>
    refine ⟨handed, h.of_changes rfl ?_ (project?_dependencyChanged session fileName)⟩
    intro project hrecalls
    exact hrecalls.steps_same_mode (Project.dependencyChanged_steps hrecalls.wired _)
      (Or.inl (Project.exportIndex_dependencyChanged _ project))
  | onProject changed operation =>
    refine ⟨handed, h.history, Each.modifyProject h.projects changed ?_⟩
    intro project hrecalls
    exact hrecalls.steps_same_mode (operation.steps hrecalls.wired)
      (operation.exportIndex_run project)

/-- A session recalls its programs through any steps. -/
theorem Recalls.through (h : session.Recalls compiler start handed)
    (steps : List (FileView × Operation)) :
    ∃ later, (session.through compiler steps).Recalls compiler start later := by
  induction steps generalizing session handed with
  | nil => exact ⟨handed, h⟩
  | cons step rest ih =>
    obtain ⟨later, hnext⟩ := h.run step.1 step.2
    exact ih hnext

/-- A session that has just started has nothing to recall. -/
theorem startWith_recalls (compiler : Compiler σ) (caseSensitive : Bool)
    (configuration : HostConfiguration) (mode : SessionMode) (state : σ) :
    (startWith caseSensitive configuration mode state).Recalls compiler state [] :=
  ⟨.start, each_startWith _ caseSensitive configuration mode state⟩

/-- Take a new session and any operations, each on the file system as it is then, with a compiler
whose programs never change.  Then the exports of an open project are those of an index built anew,
from the program that the project has and from the answer to a query of the provider, whether that
is asked in place of the exports or right after them. -/
theorem queryExports_eq_build {compiler : Compiler σ} {state : σ}
    (hcompiler : compiler.Distinguishes state) (caseSensitive : Bool)
    (configuration : HostConfiguration) (mode : SessionMode)
    (steps : List (FileView × Operation)) (view : FileView) (id : Nat) :
    let session := (startWith caseSensitive configuration mode state).through compiler steps
    let provider := (session.queryProvider compiler view id).val.1
    let exports := (session.queryExports compiler view id).val
    ∀ project, session.project? id = some project →
      ∃ current, exports.2.project? id = some current ∧
        exports.1 = some (ExportIndex.build current.program provider) ∧
        (exports.2.queryProvider compiler view id).val.1 = provider := by
  intro session provider exports project hopen
  have horderly : session.Orderly compiler :=
    (startWith_orderly compiler caseSensitive configuration mode state).through steps
  obtain ⟨handed, hrecalls⟩ : ∃ handed, session.Recalls compiler state handed :=
    (startWith_recalls compiler caseSensitive configuration mode state).through steps
  obtain ⟨later, -, hhistory, hleft, hanswer⟩ := hrecalls.asked view hopen
  have hprovider : provider = (session.asked compiler view project).1 :=
    congrArg Prod.fst (queryProvider_of_open hopen)
  have hexports : exports = _ := queryExports_eq compiler view hopen
  have houtcome := horderly.outcome view hopen
  have hclean : (session.asked compiler view project).2.1.isDirty = false :=
    houtcome.isDirty.trans (Project.isDirty_updateGraph compiler project session.compilerState)
  rw [hexports, hprovider]
  generalize session.asked compiler view project = left at *
  dsimp only
  have hindex := hleft.index.renew_eq (hcompiler _ _ hhistory) hleft.wired.program hanswer
  refine ⟨{ left.2.1 with exportIndex := .build left.2.1.program left.1 }, ?_, ?_, ?_⟩
  · rw [project?_put, if_pos rfl, hindex]
  · rw [hindex]
  · -- The program is up to date, so the query that follows finds what this one left.
    rw [queryProvider_of_open (by rw [project?_put, if_pos rfl])]
    unfold Session.asked Session.current
    rw [Project.updateGraph_of_clean compiler (by exact hclean)]
    exact houtcome.again_of_index (horderly.current hopen).wired.directory compiler _

/-- A project whose exports were asked for before the package that it lists was installed. -/
def installing : Session Compiler.Script :=
  (startWith true {} .semantic {}).through .scripted
    [(listingTree.view, .openProject "p" "/" ["/main.ts"] {}), (listingTree.view, .queryExports 0),
      (installedTree.view, .dependencyChanged "/node_modules/a/package.json")]

/-- The index of before is still there, but it is not used again: the provider has got its first
program. -/
theorem queryExports_eq_build_installing :
    (installing.queryExports .scripted installedTree.view 0).val.1.map
        (fun index => (index.search "").map Export.symbol) = some ["index", "main"] ∧
      ∃ current,
        (installing.queryExports .scripted installedTree.view 0).val.2.project? 0 = some current ∧
        (installing.queryExports .scripted installedTree.view 0).val.1 =
          some (.build current.program
            (installing.queryProvider .scripted installedTree.view 0).val.1) := by
  have hopen : (installing.project? 0).isSome = true := by decide +kernel
  obtain ⟨project, hproject⟩ := Option.isSome_iff_exists.1 hopen
  obtain ⟨current, hcurrent, hindex, -⟩ := queryExports_eq_build
    (Compiler.scripted_distinguishes {}) true {} .semantic
    [(listingTree.view, .openProject "p" "/" ["/main.ts"] {}), (listingTree.view, .queryExports 0),
      (installedTree.view, .dependencyChanged "/node_modules/a/package.json")]
    installedTree.view 0 project hproject
  exact ⟨by decide +kernel, current, hcurrent, hindex⟩

end Session

end AutoImport
