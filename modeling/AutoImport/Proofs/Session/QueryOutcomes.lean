import AutoImport.Proofs.Discovery.FreshFindings
import AutoImport.Proofs.Session.Operations

/-!
# What a query can do

A project is wired when its parts fit together: its directory is normal, a provider that it keeps
has the options derived from its own, a dirty provider has no roots, the slot is closed only in
a session that cannot build programs, and all its programs were handed out by the compiler.

A query of a wired project has one of five outcomes, which `Outcome` lists with everything that
they do to the project and to what the projects share (`queryProvider_outcome`).  Whatever a query
keeps or promises is shown outcome by outcome.
-/

set_option autoImplicit false

namespace AutoImport

namespace Provider

/-- The provider fits the options of a project: its own are derived from them, and while it is dirty
it has no roots. -/
structure Wired (knows : Program → Prop) (options : CompilerOptions) (provider : Provider) :
    Prop where
  options : provider.options = options.forProvider
  roots : provider.isDirty = true → provider.roots = none
  program : ∀ program, provider.program = some program → knows program

/-- A provider that is marked dirty is dirty. -/
theorem isDirty_markDirty (provider : Provider) : provider.markDirty.isDirty = true := by
  unfold markDirty
  split
  · rename_i h
    exact h.1
  · rfl

/-- A provider that is marked dirty still fits the options. -/
theorem Wired.markDirty {knows : Program → Prop} {options : CompilerOptions} {provider : Provider}
    (h : provider.Wired knows options) : provider.markDirty.Wired knows options := by
  unfold Provider.markDirty
  split
  · exact h
  · exact ⟨h.options, fun _ => rfl, h.program⟩

/-- The provider of a discovery that found something. -/
theorem ofDiscovery?_of_ne_nil (directory : String) (caseSensitive : Bool)
    (options : CompilerOptions) {found : Discovery.Result} (h : found.roots ≠ []) :
    ∃ provider, ofDiscovery? directory caseSensitive options found = some provider ∧
      provider.roots = some found.roots ∧
      provider.packageDirectories = found.packageDirectories ∧
      provider.options = options ∧ provider.program = none := by
  unfold ofDiscovery? Discovery.Result.isEmpty
  rw [if_neg fun hempty => h (List.isEmpty_iff.1 hempty)]
  exact ⟨_, rfl, rfl, rfl, rfl, rfl⟩

end Provider

namespace Project

/-- The parts of the project fit together in a session of the given mode. -/
structure Wired (knows : Program → Prop) (mode : SessionMode) (project : Project) : Prop where
  directory : Path.IsNormal project.directory
  program : ∀ program, project.program = some program → knows program
  slot : mode = .semantic → project.slot ≠ .disabled
  provider : ∀ provider, project.slot = .active provider → provider.Wired knows project.options

/-- What the discovery for the provider finds, with the project and the cache that it leaves. -/
def findings (services : Services) (project : Project) (cache : ManifestCache) :
    Discovery.Result × Project × ManifestCache :=
  (project.discover services (project.inclusion services.inclusion) project.options.forProvider
    cache).val

/-- What the compiler answers for a provider with the given roots. -/
def compiled {σ : Type} (compiler : Compiler σ) (project : Project) (roots : List String)
    (old : Option Program) (state : σ) : Program × σ :=
  compiler.build { roots, options := project.options.forProvider, old } state

/-- The outcomes of a query: the answer, and the project and the shared parts that it leaves. -/
inductive Outcome {σ : Type} (compiler : Compiler σ) (services : Services) (project : Project)
    (shared : Shared σ) : Option Program × Project × Shared σ → Prop where
  /-- The slot is closed. -/
  | closed (hslot : project.slot = .disabled) :
    Outcome compiler services project shared (none, project, shared)
  /-- The session cannot build programs, which closes the slot. -/
  | closes (hmode : services.mode ≠ .semantic) :
    Outcome compiler services project shared (none, { project with slot := .disabled }, shared)
  /-- The provider is clean. -/
  | clean (provider : Provider) (hmode : services.mode = .semantic)
    (hslot : project.slot = .active provider) (hclean : provider.isDirty = false) :
    Outcome compiler services project shared (provider.program, project, shared)
  /-- Nothing is found, which empties the slot. -/
  | empties (index : ExportIndex) (hmode : services.mode = .semantic)
    (hroots : (project.findings services shared.manifests).1.roots = []) :
    Outcome compiler services project shared
      (none,
        { (project.findings services shared.manifests).2.1 with
          slot := .unset
          exportIndex := index },
        { shared with manifests := (project.findings services shared.manifests).2.2 })
  /-- What is found is compiled. -/
  | builds (index : ExportIndex) (provider : Provider) (old : Option Program)
    (hmode : services.mode = .semantic)
    (hroots : (project.findings services shared.manifests).1.roots ≠ [])
    (hold : ∀ program, old = some program →
      ∃ earlier, project.slot = .active earlier ∧ earlier.program = some program)
    (hoptions : provider.options = project.options.forProvider)
    (hclean : provider.isDirty = false)
    (hprogram : provider.program = some (project.compiled compiler
      (project.findings services shared.manifests).1.roots old shared.compilerState).1)
    (hgiven : provider.roots = some (project.findings services shared.manifests).1.roots)
    (hpackages : provider.packageDirectories =
      (project.findings services shared.manifests).1.packageDirectories) :
    Outcome compiler services project shared
      (some (project.compiled compiler (project.findings services shared.manifests).1.roots old
          shared.compilerState).1,
        { (project.findings services shared.manifests).2.1 with
          slot := .active provider
          exportIndex := index },
        ⟨(project.findings services shared.manifests).2.2,
          (project.compiled compiler (project.findings services shared.manifests).1.roots old
            shared.compilerState).2⟩)

variable {σ : Type} {compiler : Compiler σ} {services : Services} {project : Project}
  {shared : Shared σ} {knows : Program → Prop}

/-- With the inclusion off a discovery finds nothing and changes nothing. -/
theorem discover_of_off (h : (project.inclusion services.inclusion).isOff = true)
    (cache : ManifestCache) : project.findings services cache = ({}, project, cache) := by
  unfold findings discover
  rw [h]
  rfl

/-- A provider that has its roots is compiled; nothing but the export index is lost. -/
theorem refresh_of_roots (compiler : Compiler σ) (services : Services) (provider : Provider)
    (project : Project) (shared : Shared σ) {roots : List String}
    (hroots : provider.roots = some roots) :
    ∃ index, (project.refresh compiler services provider shared).val =
      ((provider.compile compiler shared.compilerState).1,
        { project with exportIndex := index },
        ⟨shared.manifests, (provider.compile compiler shared.compilerState).2⟩) := by
  unfold refresh
  simp only [hroots, Probed.val_bind, Probed.val_pure]
  split
  · exact ⟨_, rfl⟩
  · exact ⟨project.exportIndex, rfl⟩

/-- A provider without roots takes over what a discovery finds. -/
theorem refresh_of_none {provider : Provider} (hroots : provider.roots = none)
    (hoptions : provider.options = project.options.forProvider) :
    project.refresh compiler services provider shared =
      project.discover services (project.inclusion services.inclusion) project.options.forProvider
          shared.manifests >>= fun found =>
        found.2.1.refresh compiler services (provider.adopt found.1)
          { shared with manifests := found.2.2 } := by
  unfold refresh
  rw [hroots, hoptions]
  rfl

/-- With roots to compile, the provider asks for them and is clean. -/
theorem compile_of_ne_nil (provider : Provider) {roots : List String}
    (hroots : provider.roots = some roots) (hne : roots ≠ [])
    (hoptions : provider.options = project.options.forProvider) (state : σ) :
    provider.compile compiler state =
      ({ provider with
          program := some (project.compiled compiler roots provider.program state).1
          isDirty := false },
        (project.compiled compiler roots provider.program state).2) := by
  have hfiles : provider.rootFiles = roots := by
    unfold Provider.rootFiles
    rw [hroots]
    rfl
  have hhas : provider.hasRoots = true := by
    unfold Provider.hasRoots
    rw [hfiles, List.isEmpty_eq_false_iff.2 hne]
    rfl
  unfold Provider.compile compiled
  rw [if_pos hhas, hfiles, hoptions]

/-- Without roots to compile, the provider has no program and is clean, and the compiler is not
asked. -/
theorem compile_of_nil (provider : Provider) (hroots : provider.roots = some []) (state : σ) :
    provider.compile compiler state =
      ({ provider with program := none, isDirty := false }, state) := by
  unfold Provider.compile Provider.hasRoots Provider.rootFiles
  rw [hroots]
  rfl

/-- The outcomes of a query of a dirty provider. -/
theorem queryActive_outcome {provider : Provider} (hmode : services.mode = .semantic)
    (hslot : project.slot = .active provider) (hwired : provider.Wired knows project.options)
    (hdirty : provider.isDirty = true) :
    Outcome compiler services project shared
      (project.queryActive compiler services provider shared).val := by
  have hfound : (project.discover services (project.inclusion services.inclusion)
      project.options.forProvider shared.manifests).val =
        project.findings services shared.manifests := rfl
  unfold queryActive
  rw [if_pos hdirty, Probed.val_bind, refresh_of_none (hwired.roots hdirty) hwired.options,
    Probed.val_bind, hfound]
  obtain ⟨index, hrefresh⟩ := refresh_of_roots compiler services
    (provider.adopt (project.findings services shared.manifests).1)
    (project.findings services shared.manifests).2.1
    { shared with manifests := (project.findings services shared.manifests).2.2 } rfl
  rw [hrefresh]
  by_cases hroots : (project.findings services shared.manifests).1.roots = []
  · rw [compile_of_nil (provider.adopt _) (congrArg some hroots)]
    dsimp only
    rw [if_neg (by simp [Provider.hasRoots, Provider.rootFiles, Provider.adopt, hroots])]
    exact .empties index hmode hroots
  · rw [compile_of_ne_nil (provider.adopt _) rfl hroots hwired.options]
    dsimp only
    rw [if_pos (by simp [Provider.hasRoots, Provider.rootFiles, Provider.adopt, hroots])]
    refine .builds index _ provider.program hmode hroots ?_ hwired.options rfl rfl rfl rfl
    intro program hprogram
    exact ⟨provider, hslot, hprogram⟩

/-- The outcomes of a query that finds the slot unset. -/
theorem queryUnset_outcome (hmode : services.mode = .semantic) (hslot : project.slot = .unset) :
    Outcome compiler services project shared
      (project.queryUnset compiler services shared).val := by
  have hfound : (project.discover services (project.inclusion services.inclusion)
      project.options.forProvider shared.manifests).val =
        project.findings services shared.manifests := rfl
  obtain ⟨lookup, symlinks, consulted, hframe⟩ := discover_frame services
    (project.inclusion services.inclusion) project.options.forProvider project shared.manifests
  rw [hfound] at hframe
  have hunset : { (project.findings services shared.manifests).2.1 with
      slot := .unset
      exportIndex := project.exportIndex } =
        (project.findings services shared.manifests).2.1 := by
    rw [hframe, ← hslot]
  unfold queryUnset
  dsimp only
  split
  · -- Nothing is looked for, which comes to the same as finding nothing.
    rename_i hoff
    have hnothing := discover_of_off hoff shared.manifests
    have houtcome : Outcome compiler services project shared _ :=
      .empties project.exportIndex hmode (by rw [hnothing])
    rw [hunset, hnothing] at houtcome
    exact houtcome
  · rw [Probed.val_bind, hfound]
    by_cases hroots : (project.findings services shared.manifests).1.roots = []
    · have hnone : Provider.ofDiscovery? (project.findings services shared.manifests).2.1.directory
          (project.findings services shared.manifests).2.1.caseSensitive
          project.options.forProvider (project.findings services shared.manifests).1 = none :=
        if_pos (List.isEmpty_iff.2 hroots)
      rw [hnone]
      have houtcome : Outcome compiler services project shared _ :=
        .empties project.exportIndex hmode hroots
      rw [hunset] at houtcome
      exact houtcome
    · obtain ⟨provider, hsome, hgiven, hpackages, hoptions, hold⟩ :=
        Provider.ofDiscovery?_of_ne_nil (project.findings services shared.manifests).2.1.directory
          (project.findings services shared.manifests).2.1.caseSensitive
          project.options.forProvider hroots
      rw [hsome]
      dsimp only
      obtain ⟨index, hrefresh⟩ := refresh_of_roots compiler services provider
        (project.findings services shared.manifests).2.1
        { shared with manifests := (project.findings services shared.manifests).2.2 } hgiven
      rw [Probed.val_bind, hrefresh, compile_of_ne_nil provider hgiven hroots hoptions]
      refine .builds index _ provider.program hmode hroots ?_ hoptions rfl rfl hgiven hpackages
      intro program hprogram
      rw [hold] at hprogram
      exact absurd hprogram (by simp)

/-- A query of a wired project has one of the outcomes. -/
theorem queryProvider_outcome (hwired : project.Wired knows services.mode) :
    Outcome compiler services project shared
      (project.queryProvider compiler services shared).val := by
  unfold queryProvider
  cases hslot : project.slot with
  | disabled => exact .closed hslot
  | unset =>
    dsimp only
    split
    · rename_i hmode
      exact .closes hmode
    · rename_i hmode
      exact queryUnset_outcome (Decidable.not_not.1 hmode) hslot
  | active provider =>
    dsimp only
    split
    · rename_i hmode
      exact .closes hmode
    · rename_i hmode
      have hsemantic : services.mode = .semantic := Decidable.not_not.1 hmode
      cases hdirty : provider.isDirty with
      | true => exact queryActive_outcome hsemantic hslot (hwired.provider provider hslot) hdirty
      | false =>
        unfold queryActive
        rw [if_neg (by rw [hdirty]; simp)]
        exact .clean provider hsemantic hslot hdirty

end Project

end AutoImport
