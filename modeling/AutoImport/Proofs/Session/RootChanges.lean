import AutoImport.Proofs.Discovery.RootOrigins
import AutoImport.Proofs.Entrypoints.MainEntries
import AutoImport.Proofs.Session.ChangeRoutes

/-!
# Changes of roots

A provider notices the changes below the packages that contributed to it, and it is expected to
notice those of its own roots.  A root comes from an entry point of a contributing package.  Where
that entry point descends from the directory of its package, the root descends from the real
directory, which is among the packages of the provider, so a change of it is noticed
(`dependencyChanged_of_root`).

A manifest may send its entry points elsewhere, by a text that names a file above the package or by
a pattern that leaves it.  Such a root belongs to no package of the provider, and a change of it
goes unnoticed (`dependencyChanged_of_root_outside`).
-/

set_option autoImplicit false

namespace AutoImport

variable {σ : Type}

/-- The manifest stands in a proper directory, and nothing in it leads out of there. -/
structure Manifest.IsConfined (manifest : Manifest) : Prop where
  normal : Path.IsNormal manifest.directory
  slash : Path.IsSlashRooted manifest.directory
  below : manifest.directory ≠ "/"
  inside : Entrypoints.KeepsInside manifest

namespace Search

variable {search : Search} {offer : Discovery.Offer} {entry root : String}

/-- The offers of the packages that contributed roots. -/
def offers (search : Search) : List Discovery.Offer :=
  search.project.contributions search.services search.project.options.forProvider search.manifests

/-- An entry point of an offered package gave a root to the search. -/
def Gives (search : Search) (offer : Discovery.Offer) (entry root : String) : Prop :=
  ∃ program, search.project.program = some program ∧
    (search.project.site search.services search.project.options.forProvider program).Gives
      offer entry root

/-- Every root that is found is given by an entry point of a contributing package. -/
theorem exists_gives (h : root ∈ search.found.roots) :
    ∃ offer ∈ search.offers, ∃ entry, search.Gives offer entry root := by
  obtain ⟨program, hprogram, offer, hoffer, entry, hgives⟩ :=
    Project.exists_contribution_of_discover h
  exact ⟨offer, hoffer, entry, program, hprogram, hgives⟩

/-- The directory of an offered package is among the contributors. -/
theorem directory_mem_contributors (h : offer ∈ search.offers) :
    offer.manifest.directory ∈ search.contributors :=
  List.mem_map_of_mem h

/-- The entry points of a confined package descend from its directory. -/
theorem Gives.descends_entry (h : search.Gives offer entry root)
    (hview : search.services.view.ListsNames) (hconfined : offer.manifest.IsConfined) :
    Path.Descends offer.manifest.directory entry := by
  obtain ⟨program, -, ⟨kind, entries, hentries, hentry⟩, -⟩ := h
  exact descends_of_mem_entrypoints hview hconfined.normal hconfined.slash hconfined.below
    hconfined.inside hentries entry hentry

/-- A root descends from the real directory of its package if its entry point descends from the
directory in which the package was found. -/
theorem Gives.descends_root (h : search.Gives offer entry root)
    (hentry : Path.Descends offer.manifest.directory entry) :
    Path.Descends (search.realDirectory offer.manifest.directory) root := by
  obtain ⟨program, -, hgives⟩ := h
  exact hgives.descends hentry

end Search

/-- A slot has a provider exactly when it is active with it. -/
theorem Slot.provider?_eq_some {slot : Slot} {provider : Provider} :
    slot.provider? = some provider ↔ slot = .active provider := by
  cases slot <;> simp [Slot.provider?]

/-- A change below a package of the provider makes it dirty. -/
theorem Project.dependencyChanged_of_package {project : Project} {provider : Provider}
    {directory path : String} (hslot : project.slot = .active provider)
    (hpackage : directory ∈ provider.packageDirectories)
    (hbelow : Path.contains directory (project.key path) = true) :
    (project.dependencyChanged path).1 = true ∧
      ∃ dirty, (project.dependencyChanged path).2.slot = .active dirty ∧ dirty.isDirty = true := by
  have hreacts : project.reacts path = true := by
    unfold Project.reacts
    rw [hslot]
    simp only [Slot.provider?, Option.any_some]
    rw [Bool.or_eq_true]
    exact Or.inr (ChangeRouting.affects_of_package hpackage hbelow)
  rcases Project.dependencyChanged_eq path project with ⟨hno, -⟩ | ⟨-, hnone, -⟩ |
    ⟨-, current, -, heq⟩
  · simp [hreacts] at hno
  · simp [hslot, Slot.provider?] at hnone
  · rw [heq]
    exact ⟨rfl, current.markDirty, rfl, current.isDirty_markDirty⟩

namespace Session

/-- A search was made on the file system of one of the operations. -/
theorem exists_view_of_lastSearch {compiler : Compiler σ} {id : Nat}
    {steps : List (FileView × Operation)} {session : Session σ} {search : Search}
    (h : session.lastSearch compiler id steps = some search) :
    ∃ step ∈ steps, search.services.view = step.1 := by
  induction steps generalizing session with
  | nil => simp [lastSearch] at h
  | cons step rest ih =>
    rw [lastSearch, Option.or_eq_some_iff] at h
    rcases h with hlater | ⟨-, hhere⟩
    · obtain ⟨later, hmem, hview⟩ := ih hlater
      exact ⟨later, List.mem_cons_of_mem step hmem, hview⟩
    · refine ⟨step, List.mem_cons_self, ?_⟩
      unfold search? at hhere
      rw [Option.ite_none_right_eq_some] at hhere
      obtain ⟨project, -, hproject⟩ := Option.bind_eq_some_iff.1 hhere.2
      unfold Project.search? at hproject
      rw [Option.ite_none_right_eq_some, Option.some.injEq] at hproject
      rw [← hproject.2]
      rfl

/-- Take a new session and any operations, each on the file system as it is then, and a project with
a clean provider.  Every root of the provider is given by an entry point of a package that
contributed to the last search for the project.  On file systems that list names, the entry point
of a confined package descends from its directory.  Where an entry point does, and the real
directory of its package is normal, the root lies in a package of the provider, and a change of it
makes the provider dirty. -/
theorem dependencyChanged_of_root (compiler : Compiler σ) (caseSensitive : Bool)
    (configuration : HostConfiguration) (mode : SessionMode) (state : σ)
    (steps : List (FileView × Operation)) (id : Nat) :
    let start := startWith caseSensitive configuration mode state
    ∀ project provider, (start.through compiler steps).project? id = some project →
      project.slot = .active provider → provider.isDirty = false →
      ∃ search roots, start.lastSearch compiler id steps = some search ∧
        provider.roots = some roots ∧
        ∀ root ∈ roots, ∃ offer ∈ search.offers, ∃ entry, search.Gives offer entry root ∧
          ((∀ step ∈ steps, step.1.ListsNames) → offer.manifest.IsConfined →
            Path.Descends offer.manifest.directory entry) ∧
          (Path.Descends offer.manifest.directory entry →
            Path.IsNormal (search.realDirectory offer.manifest.directory) →
            (∃ directory ∈ provider.packageDirectories,
              Path.contains directory (project.key root) = true) ∧
            (project.dependencyChanged root).1 = true ∧
              ∃ dirty, (project.dependencyChanged root).2.slot = .active dirty ∧
                dirty.isDirty = true) := by
  intro start project provider hproject hslot hclean
  have hlinked := ((startWith_linked compiler caseSensitive configuration mode state id
    none).through steps).project project hproject
  rw [Option.or_none] at hlinked
  obtain ⟨search, hsearch, hbacks⟩ := hlinked.backed provider hslot hclean
  obtain ⟨step, hstep, hview⟩ := exists_view_of_lastSearch hsearch
  refine ⟨search, search.found.roots, hsearch, hbacks.roots, ?_⟩
  intro root hroot
  obtain ⟨offer, hoffer, entry, hgives⟩ := Search.exists_gives hroot
  refine ⟨offer, hoffer, entry, hgives, ?_, ?_⟩
  · intro hnames
    exact hgives.descends_entry (hview ▸ hnames step hstep)
  · intro hentry hnormal
    have hpackage := hbacks.package _ (Search.directory_mem_contributors hoffer)
    have hbelow : Path.contains (project.key (search.realDirectory offer.manifest.directory))
        (project.key root) = true :=
      Path.contains_canonical_of_descends hnormal (hgives.descends_root hentry) _ _
    exact ⟨⟨_, hpackage, hbelow⟩, Project.dependencyChanged_of_package hslot hpackage hbelow⟩

/-- A project in `/w` whose only dependency is a link to the package in `/l` with the given
manifest, and one more file. -/
def rootTree (manifest file : String) : MemoryTree :=
  (((MemoryTree.writeFile {} "/w/package.json"
      "\x7b\"dependencies\":\x7b\"d\":\"1\"\x7d\x7d").writeFile
    "/l/package.json" manifest).writeFile file "").linkDirectory "/w/node_modules/d" "/l"

/-- The project is opened, and its provider is asked for. -/
def rootSteps (manifest file : String) (options : CompilerOptions) : List (FileView × Operation) :=
  [((rootTree manifest file).view, .openProject "p" "/w" ["/w/m.ts"] options),
    ((rootTree manifest file).view, .queryProvider 0)]

/-- The package has types of its own. -/
def typedSteps : List (FileView × Operation) :=
  rootSteps "\x7b\"types\":\"./i.d.ts\"\x7d" "/l/i.d.ts" {}

/-- The example steps run on trees that list plain names. -/
theorem listsNames_typedSteps : ∀ step ∈ typedSteps, step.1.ListsNames := by
  have hnames : (rootTree "\x7b\"types\":\"./i.d.ts\"\x7d" "/l/i.d.ts").view.ListsNames :=
    MemoryTree.listsNames_view (by decide +kernel) (by decide +kernel)
  intro step hstep
  simp only [typedSteps, rootSteps, List.mem_cons, List.not_mem_nil, or_false] at hstep
  rcases hstep with rfl | rfl
  · exact hnames
  · exact hnames

/-- A change of the types of the linked package, which are the only root, is noticed. -/
theorem dependencyChanged_of_root_linked :
    ∃ project provider, ((startWith true {} .semantic {}).through .scripted
        typedSteps).project? 0 = some project ∧
      project.slot = .active provider ∧ provider.roots = some ["/l/i.d.ts"] ∧
      (project.dependencyChanged "/l/i.d.ts").1 = true := by
  have hleft : (((startWith true {} .semantic {}).through .scripted typedSteps).project? 0).bind
      (fun project => project.slot.provider?.map fun provider =>
        (provider.isDirty, provider.roots)) = some (false, some ["/l/i.d.ts"]) := by
    decide +kernel
  have hmade : ((startWith true {} .semantic {}).lastSearch .scripted 0 typedSteps).map
      (fun search => (search.offers.map fun offer => (offer.manifest.directory,
          Entrypoints.mainTexts offer.manifest, offer.manifest.exports.isNone),
        search.realDirectory "/w/node_modules/d")) =
      some ([("/w/node_modules/d", ["./i.d.ts"], true)], "/l") := by
    decide +kernel
  obtain ⟨project, hproject, hprovider⟩ := Option.bind_eq_some_iff.1 hleft
  obtain ⟨provider, hactive, hparts⟩ := Option.map_eq_some_iff.1 hprovider
  obtain ⟨hclean, hroots⟩ := Prod.mk.inj hparts
  have hslot : project.slot = .active provider := Slot.provider?_eq_some.1 hactive
  obtain ⟨search, roots, hsearch, hgiven, hreacts⟩ := dependencyChanged_of_root .scripted true {}
    .semantic {} _ 0 project provider hproject hslot hclean
  rw [hsearch, Option.map_some, Option.some.injEq, Prod.mk.injEq] at hmade
  obtain rfl : ["/l/i.d.ts"] = roots := Option.some.inj (hroots.symm.trans hgiven)
  obtain ⟨offer, hoffer, entry, -, hdescends, hnoticed⟩ := hreacts "/l/i.d.ts" (by simp)
  have hmember := List.mem_map_of_mem (f := fun offer : Discovery.Offer =>
    (offer.manifest.directory, Entrypoints.mainTexts offer.manifest,
      offer.manifest.exports.isNone)) hoffer
  rw [hmade.1, List.mem_singleton] at hmember
  simp only [Prod.mk.injEq] at hmember
  obtain ⟨hdirectory, htexts, hexports⟩ := hmember
  have hconfined : offer.manifest.IsConfined := by
    refine ⟨?_, ?_, ?_, ?_, ?_⟩
    · rw [hdirectory]
      exact Path.isNormal_of_normalize_eq (by decide +kernel)
    · rw [hdirectory]
      decide +kernel
    · rw [hdirectory]
      decide
    · rw [htexts]
      decide +kernel
    · intro exports hsome
      simp [hsome] at hexports
  have hreal : Path.IsNormal (search.realDirectory offer.manifest.directory) := by
    rw [hdirectory, hmade.2]
    exact Path.isNormal_of_normalize_eq (by decide +kernel)
  exact ⟨project, provider, hproject, hslot, hroots,
    (hnoticed (hdescends listsNames_typedSteps hconfined) hreal).2.1⟩

/-- Whether a change of a root of the clean provider of a project goes unnoticed. -/
def missesRoot (session : Session σ) (id : Nat) (root : String) : Bool :=
  (session.project? id).any fun project =>
    project.slot.provider?.any (fun provider =>
      !provider.isDirty && provider.roots.any fun roots => roots.contains root) &&
      !(project.dependencyChanged root).1

/-- A text of a manifest that names a file above the package gives a root whose change goes
unnoticed.  So does a pattern of an export map that leaves the package. -/
theorem dependencyChanged_of_root_outside :
    missesRoot ((startWith true {} .semantic {}).through .scripted
        (rootSteps "\x7b\"types\":\"../s.d.ts\"\x7d" "/w/node_modules/s.d.ts" {})) 0
        "/w/node_modules/s.d.ts" = true ∧
      missesRoot ((startWith true {} .semantic {}).through .scripted
        (rootSteps "\x7b\"exports\":\"./../*.d.ts\"\x7d" "/w/node_modules/s.d.ts"
          { moduleResolution := some "bundler" })) 0 "/w/node_modules/s.d.ts" = true := by
  constructor
  · decide +kernel
  · decide +kernel

end Session

end AutoImport
