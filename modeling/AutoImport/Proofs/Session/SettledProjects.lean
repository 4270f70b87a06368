import AutoImport.Proofs.Session.QueryOutcomes

/-!
# Settled projects

A project is settled on a tree when it is wired, what it and its session remember is so on the tree,
and a clean provider offers the roots that a discovery from empty memories finds.  A query of
a settled project answers with these roots (`Outcome.answer_eq`) and leaves it settled
(`Outcome.settled`).

The other operations do one of two things: they leave everything alone that the provider's roots
rest on, or they leave no clean provider behind.  `Steps` says so, and settled projects stay settled
under it (`Settled.steps`).
-/

set_option autoImplicit false

namespace AutoImport

/-- No clean provider is in the slot. -/
def Slot.IsStale (slot : Slot) : Prop :=
  ∀ provider, slot = .active provider → provider.isDirty = true

namespace Project

/-- The roots that a query is to answer with: those that a discovery from empty memories finds, in
a session that can build programs and if there are any. -/
def offer (services : Services) (project : Project) : Option (List String) :=
  if services.mode = .semantic ∧ (project.freshFindings services).roots ≠ [] then
    some (project.freshFindings services).roots
  else none

/-- What the project keeps is up to date with the tree. -/
structure Settled (knows : Program → Prop) (tree : MemoryTree) (services : Services)
    (cache : ManifestCache) (project : Project) : Prop where
  wired : project.Wired knows services.mode
  truthful : project.TruthfulOn tree cache
  clean : ∀ provider, project.slot = .active provider → provider.isDirty = false →
    (project.freshFindings services).roots ≠ [] ∧
      provider.program.map Program.roots = some (project.freshFindings services).roots

/-- Two projects agree in all that a discovery reads besides its memories. -/
structure SameInputs (before after : Project) : Prop where
  directory : after.directory = before.directory
  caseSensitive : after.caseSensitive = before.caseSensitive
  program : after.program = before.program
  options : after.options = before.options
  isEnabled : after.isEnabled = before.isEnabled

/-- Fresh findings depend on nothing but what discoveries read. -/
theorem SameInputs.freshFindings {before after : Project} (h : before.SameInputs after)
    (services : Services) : after.freshFindings services = before.freshFindings services :=
  freshFindings_congr services h.directory h.caseSensitive h.program h.options h.isEnabled

/-- What is true of the cache stays true when it learns from the tree. -/
theorem TruthfulOn.learns {tree : MemoryTree} {cache later : ManifestCache} {project : Project}
    (h : project.TruthfulOn tree cache) (hnormal : Path.IsNormal project.directory)
    (hlearns : cache.Learns tree later) : project.TruthfulOn tree later where
  caseSensitive := hlearns.caseSensitive.trans h.caseSensitive
  manifests directory hdirectory :=
    hlearns.agreesAt h.caseSensitive (isNormal_of_mem_visibleDirectories hnormal hdirectory)
      (h.manifests directory hdirectory)
  lookup := h.lookup

/-- A project stays wired when more programs are known. -/
theorem Wired.mono {knows later : Program → Prop} {mode : SessionMode} {project : Project}
    (h : project.Wired knows mode) (hknows : ∀ program, knows program → later program) :
    project.Wired later mode where
  directory := h.directory
  program program hprogram := hknows program (h.program program hprogram)
  slot := h.slot
  provider provider hslot :=
    let hprovider := h.provider provider hslot
    ⟨hprovider.options, hprovider.roots, fun program hprogram =>
      hknows program (hprovider.program program hprogram)⟩

/-- A project stays settled when the cache learns from the tree. -/
theorem Settled.learns {knows : Program → Prop} {tree : MemoryTree} {services : Services}
    {cache later : ManifestCache} {project : Project}
    (h : project.Settled knows tree services cache) (hlearns : cache.Learns tree later) :
    project.Settled knows tree services later :=
  ⟨h.wired, h.truthful.learns h.wired.directory hlearns, h.clean⟩

/-! ## Queries -/

section Queries

variable {σ : Type} {compiler : Compiler σ} {services : Services} {project : Project}
  {shared : Shared σ} {outcome : Option Program × Project × Shared σ}
  {knows : σ → Program → Prop}

/-- A discovery changes the memories of the project, and nothing else. -/
theorem findings_frame (services : Services) (project : Project) (cache : ManifestCache) :
    ∃ lookup symlinks consulted,
      (project.findings services cache).2.1 = { project with lookup, symlinks, consulted } :=
  discover_frame services _ _ project cache

/-- A query changes nothing that a discovery reads besides its memories. -/
theorem Outcome.sameInputs (h : Outcome compiler services project shared outcome) :
    project.SameInputs outcome.2.1 := by
  obtain ⟨lookup, symlinks, consulted, hframe⟩ :=
    findings_frame services project shared.manifests
  cases h with
  | closed hslot => exact ⟨rfl, rfl, rfl, rfl, rfl⟩
  | closes hmode => exact ⟨rfl, rfl, rfl, rfl, rfl⟩
  | clean provider hmode hslot hclean => exact ⟨rfl, rfl, rfl, rfl, rfl⟩
  | empties index hmode hroots =>
    rw [hframe]
    exact ⟨rfl, rfl, rfl, rfl, rfl⟩
  | builds index provider old hmode hroots hold hoptions hclean hprogram =>
    rw [hframe]
    exact ⟨rfl, rfl, rfl, rfl, rfl⟩

/-- A query keeps what the compiler knows. -/
theorem Outcome.keeps (hcompiler : compiler.Faithful knows)
    (h : Outcome compiler services project shared outcome) (program : Program)
    (hknown : knows shared.compilerState program) :
    knows outcome.2.2.compilerState program := by
  cases h with
  | closed hslot => exact hknown
  | closes hmode => exact hknown
  | clean provider hmode hslot hclean => exact hknown
  | empties index hmode hroots => exact hknown
  | builds index provider old hmode hroots hold hoptions hclean hprogram =>
    exact hcompiler.kept _ _ program hknown

/-- A query of a wired project leaves it wired, whatever the file system is. -/
theorem Outcome.wired (hcompiler : compiler.Faithful knows)
    (h : Outcome compiler services project shared outcome)
    (hwired : project.Wired (knows shared.compilerState) services.mode) :
    outcome.2.1.Wired (knows outcome.2.2.compilerState) services.mode := by
  have hsame := h.sameInputs
  have hkept := hwired.mono (h.keeps hcompiler)
  have hdirectory : Path.IsNormal outcome.2.1.directory := by
    rw [hsame.directory]
    exact hwired.directory
  have hprograms : ∀ program, outcome.2.1.program = some program →
      knows outcome.2.2.compilerState program := by
    rw [hsame.program]
    exact hkept.program
  cases h with
  | closed hslot => exact hkept
  | closes hmode =>
    refine ⟨hdirectory, hprograms, fun hsemantic => absurd hsemantic hmode, ?_⟩
    intro provider hslot
    exact absurd hslot (by simp)
  | clean provider hmode hslot hclean => exact hkept
  | empties index hmode hroots =>
    refine ⟨hdirectory, hprograms, fun _ => by simp, ?_⟩
    intro provider hslot
    exact absurd hslot (by simp)
  | builds index provider old hmode hroots hold hoptions hclean hprogram =>
    refine ⟨hdirectory, hprograms, fun _ => by simp, ?_⟩
    intro other hslot
    obtain rfl : provider = other := Slot.active.inj hslot
    refine ⟨?_, fun hdirty => ?_, fun program hother => ?_⟩
    · rw [hsame.options]
      exact hoptions
    · rw [hclean] at hdirty
      exact absurd hdirty (by simp)
    · rw [hprogram] at hother
      rw [← Option.some.inj hother]
      refine hcompiler.built _ _ fun earlier hearlier => ?_
      obtain ⟨previous, hactive, hprevious⟩ := hold earlier hearlier
      exact (hwired.provider previous hactive).program earlier hprevious

variable {tree : MemoryTree}

/-- From truthful memories, what is found is what is found from empty ones. -/
theorem findings_of_truthful (hview : services.view = tree.view)
    (hnormal : Path.IsNormal project.directory) {cache : ManifestCache}
    (h : project.TruthfulOn tree cache) :
    (project.findings services cache).1 = project.freshFindings services ∧
      (project.findings services cache).2.1.TruthfulOn tree
        (project.findings services cache).2.2 := by
  obtain ⟨lookup, symlinks, consulted, hframe⟩ := findings_frame services project cache
  obtain ⟨hfound, hlookup⟩ := discover_eq_forgetful hview hnormal h
    (project.inclusion services.inclusion) project.options.forProvider
  have hlater := h.learns hnormal (learns_discover hview hnormal
    (project.inclusion services.inclusion) project.options.forProvider cache)
  refine ⟨hfound, ?_⟩
  have htruthful : (project.findings services cache).2.1.lookup.Truthful
      (PackageLookup.answerOn tree (project.dependenciesOn tree)) := hlookup
  rw [hframe] at htruthful ⊢
  exact ⟨hlater.caseSensitive, hlater.manifests, htruthful⟩

/-- A query learns from the tree what it looks at. -/
theorem Outcome.learns (hview : services.view = tree.view)
    (h : Outcome compiler services project shared outcome)
    (hnormal : Path.IsNormal project.directory) :
    shared.manifests.Learns tree outcome.2.2.manifests := by
  have hlearns := learns_discover hview hnormal (project.inclusion services.inclusion)
    project.options.forProvider shared.manifests
  cases h with
  | closed hslot => exact .refl
  | closes hmode => exact .refl
  | clean provider hmode hslot hclean => exact .refl
  | empties index hmode hroots => exact hlearns
  | builds index provider old hmode hroots hold hoptions hclean hprogram => exact hlearns

/-- A query of a settled project answers with the roots that a discovery from empty memories
finds. -/
theorem Outcome.answer_eq (hcompiler : compiler.Faithful knows) (hview : services.view = tree.view)
    (h : Outcome compiler services project shared outcome)
    (hsettled : project.Settled (knows shared.compilerState) tree services shared.manifests) :
    outcome.1.map Program.roots = project.offer services := by
  obtain ⟨hfound, -⟩ :=
    findings_of_truthful hview hsettled.wired.directory hsettled.truthful
  unfold offer
  cases h with
  | closed hslot =>
    rw [if_neg fun hoffer => hsettled.wired.slot hoffer.1 hslot]
    rfl
  | closes hmode =>
    rw [if_neg fun hoffer => hmode hoffer.1]
    rfl
  | clean provider hmode hslot hclean =>
    -- Nothing is looked at here: only the invariant ties the provider to the tree.
    obtain ⟨hne, hroots⟩ := hsettled.clean provider hslot hclean
    rw [if_pos ⟨hmode, hne⟩]
    exact hroots
  | empties index hmode hroots =>
    rw [hfound] at hroots
    rw [if_neg fun hoffer => hoffer.2 hroots]
    rfl
  | builds index provider old hmode hroots hold hoptions hclean hprogram =>
    rw [hfound] at hroots
    rw [if_pos ⟨hmode, hroots⟩, hfound]
    exact congrArg some (hcompiler.roots _ _)

/-- A query of a settled project leaves it settled. -/
theorem Outcome.settled (hcompiler : compiler.Faithful knows) (hview : services.view = tree.view)
    (h : Outcome compiler services project shared outcome)
    (hsettled : project.Settled (knows shared.compilerState) tree services shared.manifests) :
    outcome.2.1.Settled (knows outcome.2.2.compilerState) tree services
      outcome.2.2.manifests := by
  have hwired := h.wired hcompiler hsettled.wired
  have hfresh := h.sameInputs.freshFindings services
  obtain ⟨hfound, htruthful⟩ :=
    findings_of_truthful hview hsettled.wired.directory hsettled.truthful
  refine ⟨hwired, ?_, ?_⟩
  · cases h with
    | closed hslot => exact hsettled.truthful
    | closes hmode =>
      exact ⟨hsettled.truthful.caseSensitive, hsettled.truthful.manifests,
        hsettled.truthful.lookup⟩
    | clean provider hmode hslot hclean => exact hsettled.truthful
    | empties index hmode hroots =>
      exact ⟨htruthful.caseSensitive, htruthful.manifests, htruthful.lookup⟩
    | builds index provider old hmode hroots hold hoptions hclean hprogram =>
      exact ⟨htruthful.caseSensitive, htruthful.manifests, htruthful.lookup⟩
  · rw [hfresh]
    intro other hother hotherClean
    cases h with
    | closed hslot => exact hsettled.clean other hother hotherClean
    | closes hmode => exact absurd hother (by simp)
    | clean provider hmode hslot hclean => exact hsettled.clean other hother hotherClean
    | empties index hmode hroots => exact absurd hother (by simp)
    | builds index provider old hmode hroots hold hoptions hclean hprogram =>
      obtain rfl : provider = other := Slot.active.inj hother
      rw [hfound] at hroots hprogram
      rw [hprogram]
      exact ⟨hroots, congrArg some (hcompiler.roots _ _)⟩

end Queries

/-! ## Steps -/

/-- What an operation may do to the slot: leave it alone together with all that the roots of the
provider rest on, empty it, or make the provider dirty. -/
inductive SlotStep (before after : Project) : Prop where
  | keeps (hsame : before.SameInputs after) (hslot : after.slot = before.slot)
  | empties (hslot : after.slot = .unset)
  | dirties (hoptions : after.options = before.options)
    (hslot : after.slot = before.slot.markDirty ∨ after.slot = before.slot.settingsChanged)

/-- What an operation other than a query may do to a project. -/
structure Steps (knows : Program → Prop) (before after : Project) : Prop where
  directory : after.directory = before.directory
  program : ∀ program, after.program = some program → knows program
  lookup : after.lookup = before.lookup ∨ after.lookup = {}
  slot : SlotStep before after

variable {knows later : Program → Prop} {mode : SessionMode} {before after : Project}

/-- A slot that is marked dirty has no clean provider. -/
theorem isStale_markDirty (slot : Slot) : slot.markDirty.IsStale := by
  intro provider hslot
  cases slot with
  | unset => exact absurd hslot (by simp [Slot.markDirty])
  | disabled => exact absurd hslot (by simp [Slot.markDirty])
  | active earlier =>
    obtain rfl : earlier.markDirty = provider := Slot.active.inj hslot
    exact earlier.isDirty_markDirty

/-- Changed settings leave no clean provider in the slot. -/
theorem isStale_settingsChanged (slot : Slot) : slot.settingsChanged.IsStale := by
  intro provider hslot
  cases slot with
  | unset => exact absurd hslot (by simp [Slot.settingsChanged])
  | disabled => exact absurd hslot (by simp [Slot.settingsChanged])
  | active earlier =>
    obtain rfl : earlier.markDirty = provider := Slot.active.inj hslot
    exact earlier.isDirty_markDirty

/-- Changed settings leave the slot open. -/
theorem settingsChanged_ne_disabled (slot : Slot) : slot.settingsChanged ≠ .disabled := by
  cases slot <;> simp [Slot.settingsChanged]

/-- An unset slot has no clean provider. -/
theorem isStale_unset : Slot.unset.IsStale := by
  intro provider hslot
  exact absurd hslot (by simp)

/-- The provider after a step is the one before it, or that one made dirty. -/
theorem SlotStep.provider (h : SlotStep before after) {provider : Provider}
    (hslot : after.slot = .active provider) :
    after.options = before.options ∧ ∃ earlier, before.slot = .active earlier ∧
      (provider = earlier ∨ provider = earlier.markDirty) := by
  cases h with
  | keeps hsame hkeep => exact ⟨hsame.options, provider, hkeep ▸ hslot, Or.inl rfl⟩
  | empties hunset =>
    rw [hunset] at hslot
    exact absurd hslot (by simp)
  | dirties hoptions hchange =>
    refine ⟨hoptions, ?_⟩
    cases hbefore : before.slot with
    | unset =>
      rw [hbefore, hslot] at hchange
      exact absurd hchange (by simp [Slot.markDirty, Slot.settingsChanged])
    | disabled =>
      rw [hbefore, hslot] at hchange
      exact absurd hchange (by simp [Slot.markDirty, Slot.settingsChanged])
    | active earlier =>
      rw [hbefore, hslot] at hchange
      refine ⟨earlier, rfl, Or.inr ?_⟩
      rcases hchange with hchange | hchange
      · exact Slot.active.inj hchange
      · exact Slot.active.inj hchange

/-- A step closes no slot. -/
theorem SlotStep.ne_disabled (h : SlotStep before after) (hbefore : before.slot ≠ .disabled) :
    after.slot ≠ .disabled := by
  cases h with
  | keeps hsame hkeep =>
    rw [hkeep]
    exact hbefore
  | empties hunset =>
    rw [hunset]
    simp
  | dirties hoptions hchange =>
    cases hslot : before.slot with
    | unset => rcases hchange with h | h <;> rw [h, hslot] <;> simp [Slot.markDirty,
        Slot.settingsChanged]
    | disabled => exact absurd hslot hbefore
    | active earlier => rcases hchange with h | h <;> rw [h, hslot] <;> simp [Slot.markDirty,
        Slot.settingsChanged]

/-- A step leaves a wired project wired, also in another mode if the slot allows it. -/
theorem Steps.wired {newMode : SessionMode} (hsteps : before.Steps later after)
    (h : before.Wired knows mode) (hknows : ∀ program, knows program → later program)
    (hslot : newMode = .semantic → after.slot ≠ .disabled) : after.Wired later newMode where
  directory := by
    rw [hsteps.directory]
    exact h.directory
  program := hsteps.program
  slot := hslot
  provider provider hactive := by
    obtain ⟨hoptions, earlier, hearlier, hprovider⟩ := hsteps.slot.provider hactive
    have hwired := (h.mono hknows).provider earlier hearlier
    rw [hoptions]
    rcases hprovider with rfl | rfl
    · exact hwired
    · exact hwired.markDirty

/-- A step keeps what a project remembers true, or forgets it. -/
theorem TruthfulOn.steps {tree : MemoryTree} {cache : ManifestCache}
    (h : before.TruthfulOn tree cache) (hsteps : before.Steps later after) :
    after.TruthfulOn tree cache := by
  have hdirectories : after.visibleDirectories = before.visibleDirectories := by
    unfold visibleDirectories
    rw [hsteps.directory]
  refine ⟨h.caseSensitive, ?_, ?_⟩
  · rw [hdirectories]
    exact h.manifests
  · unfold dependenciesOn
    rw [hdirectories]
    rcases hsteps.lookup with hlookup | hlookup
    · rw [hlookup]
      exact h.lookup
    · rw [hlookup]
      exact PackageLookup.truthful_empty _

/-- A project whose slot holds no clean provider is settled as soon as its memories are truthful. -/
theorem settled_of_isStale {tree : MemoryTree} {services : Services} {cache : ManifestCache}
    {project : Project} (hwired : project.Wired knows services.mode)
    (htruthful : project.TruthfulOn tree cache) (hstale : project.slot.IsStale) :
    project.Settled knows tree services cache := by
  refine ⟨hwired, htruthful, fun provider hslot hclean => ?_⟩
  rw [hstale provider hslot] at hclean
  exact absurd hclean (by simp)

/-- A settled project stays settled under a step. -/
theorem Settled.steps {tree : MemoryTree} {services : Services} {cache : ManifestCache}
    (h : before.Settled knows tree services cache) (hsteps : before.Steps later after)
    (hknows : ∀ program, knows program → later program) :
    after.Settled later tree services cache := by
  have hwired : after.Wired later services.mode := hsteps.wired h.wired hknows fun hmode =>
    hsteps.slot.ne_disabled (h.wired.slot hmode)
  have htruthful := h.truthful.steps hsteps
  cases hsteps.slot with
  | keeps hsame hslot =>
    refine ⟨hwired, htruthful, ?_⟩
    rw [hsame.freshFindings services, hslot]
    exact h.clean
  | empties hslot =>
    refine settled_of_isStale hwired htruthful ?_
    rw [hslot]
    exact isStale_unset
  | dirties hoptions hslot =>
    refine settled_of_isStale hwired htruthful ?_
    rcases hslot with hslot | hslot
    · rw [hslot]
      exact isStale_markDirty before.slot
    · rw [hslot]
      exact isStale_settingsChanged before.slot

end Project

end AutoImport
