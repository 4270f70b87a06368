import AutoImport.Proofs.Discovery.ContributingPackages
import AutoImport.Proofs.Path.PackageScope
import AutoImport.Proofs.Session.ProjectFates

/-!
# Changes that reach a provider

A provider rests on the last discovery that was made for its project.  A package that contributed to
it was found in some directory, and its real directory may be another one.  Changes are reported
under either path, so for every contributor there are two places below which a change has to make
the provider dirty.

The real directory is among the packages of the provider, which is tested first.  The other one is
a link that the discovery recorded, unless its path has a part that is never tracked.  A recorded
link is listed under the real directory to which it led when it was first recorded.  So it is found
from the package, or it is still listed under an earlier target; then the change is found if the
link is the deepest one on the way to it (`dependencyChanged_of_contributor`).  Both exceptions do
occur (`dependencyChanged_unnoticed`).
-/

set_option autoImplicit false

namespace AutoImport

variable {σ : Type}

/-! ## Routes -/

namespace Chars

/-- A path contains what follows it, be it nothing or behind a slash. -/
theorem contains_append (parent : Chars) {rest : Chars} (h : rest = [] ∨ rest.head? = some '/') :
    contains parent (parent ++ rest) = true := by
  rcases h with rfl | hslash
  · rw [List.append_nil]
    exact contains_self parent
  · obtain ⟨below, rfl⟩ := List.head?_eq_some_iff.1 hslash
    by_cases hlast : parent.getLast? = some '/'
    · obtain ⟨start, rfl⟩ := List.getLast?_eq_some_iff.1 hlast
      have hcontains := contains_append_slash (start ++ ['/']) ('/' :: below)
      rw [Text.dropTrailingSlash_concat] at hcontains
      rw [List.append_assoc]
      exact hcontains
    · have hcontains := contains_append_slash parent below
      rwa [Text.dropTrailingSlash_of_getLast? hlast] at hcontains

/-- What a directory other than a root contains goes on behind it. -/
theorem eq_append_of_contains {parent child : Chars} (hlast : parent.getLast? ≠ some '/')
    (h : contains parent child = true) :
    ∃ rest, child = parent ++ rest ∧ (rest = [] ∨ rest.head? = some '/') := by
  have htrimmed := Text.dropTrailingSlash_of_getLast? hlast
  rcases contains_cases (by rwa [htrimmed]) h with hsame | ⟨rest, hmore⟩
  · rw [htrimmed] at hsame
    exact ⟨[], by rw [hsame, List.append_nil], Or.inl rfl⟩
  · rw [htrimmed] at hmore
    exact ⟨'/' :: rest, hmore, Or.inr rfl⟩

end Chars

namespace ChangeRouting

variable {changed directory link : String} {provider : Provider} {symlinks : SymlinkTable}

/-- A file in one of the provider's packages affects the provider. -/
theorem affects_of_package (hpackage : directory ∈ provider.packageDirectories)
    (h : Path.contains directory changed = true) : affects changed provider symlinks = true := by
  have hdepends : provider.dependsOn changed = true := List.any_eq_true.2 ⟨directory, hpackage, h⟩
  unfold affects
  rw [hdepends, Bool.true_or, Bool.true_or]

/-- A file below a link that is listed for one of the packages affects the provider. -/
theorem affects_of_listed (hpackage : directory ∈ provider.packageDirectories)
    (hlink : link ∈ symlinks.linksTo directory) (h : Path.contains link changed = true) :
    affects changed provider symlinks = true := by
  unfold affects
  rw [Bool.or_eq_true]
  right
  apply List.any_eq_true.2
  exact ⟨directory, hpackage, List.any_eq_true.2 ⟨link, hlink, h⟩⟩

/-- A path below the deepest link on its way is the same path below the real directory. -/
theorem affects_of_deepest {real : RealDirectory}
    (hpackage : real.realKey ∈ provider.packageDirectories) (hfile : symlinks.file? changed = none)
    (hdeepest : symlinks.deepest? (symlinks.key changed) = some (link, real))
    (hroot : Text.endsWith "/" link = false) : affects changed provider symlinks = true := by
  have hlast : link.toList.getLast? ≠ some '/' := by
    rw [ne_eq, ← Chars.isSuffixOf_slash]
    exact Bool.eq_false_iff.1 hroot
  obtain ⟨rest, hrest, hbelow⟩ :=
    Chars.eq_append_of_contains hlast (SymlinkTable.longest_of_deepest? hdeepest).2.1
  have hreal : symlinks.realPath? changed = some (real.realKey ++ .ofList rest) := by
    unfold SymlinkTable.file? at hfile
    unfold SymlinkTable.realPath?
    dsimp only
    rw [hfile, hdeepest, hrest]
    dsimp only [Option.map_some]
    rw [← String.length_toList, List.drop_left]
  have hdepends : provider.dependsOn (real.realKey ++ .ofList rest) = true := by
    apply List.any_eq_true.2
    refine ⟨real.realKey, hpackage, ?_⟩
    unfold Path.contains
    rw [String.toList_append, String.toList_ofList]
    exact Chars.contains_append _ hbelow
  unfold affects
  rw [hreal, Option.any_some, hdepends, Bool.or_true, Bool.true_or]

end ChangeRouting

/-! ## The discovery behind a provider -/

/-- A discovery for the provider of a project: what it was made with. -/
structure Search where
  /-- The project as it was then. -/
  project : Project
  services : Services
  manifests : ManifestCache

namespace Search

/-- What the search found. -/
def found (search : Search) : Discovery.Result :=
  (search.project.findings search.services search.manifests).1

/-- The directories of the packages that contributed roots, as they were reached. -/
def contributors (search : Search) : List String :=
  search.project.contributors search.services search.project.options.forProvider search.manifests

/-- The real directory of a package directory at the time of the search. -/
def realDirectory (search : Search) (directory : String) : String :=
  search.project.realDirectory search.services.view directory

/-- A provider of a project rests on the search: it has its roots, the packages of all contributors,
and the project knows the tracked links to them. -/
structure Backs (search : Search) (provider : Provider) (project : Project) : Prop where
  roots : provider.roots = some search.found.roots
  package : ∀ directory ∈ search.contributors,
    project.key (search.realDirectory directory) ∈ provider.packageDirectories
  link : ∀ directory ∈ search.contributors,
    project.key (search.realDirectory directory) ≠ project.key directory →
    SymlinkTable.isIgnored (project.key directory) = false →
    project.symlinks.directories.contains (project.key directory) = true

end Search

/-- Whether a question to the provider starts a search. -/
def Slot.awaitsSearch : Slot → Bool
  | .unset => true
  | .disabled => false
  | .active provider => provider.isDirty

namespace Project

variable {compiler : Compiler σ} {services : Services} {shared : Shared σ}
  {mode : SessionMode} {before after project : Project} {provider : Provider}
  {earlier later : Option Search}

/-- The search that a question to the provider starts. -/
def search? (services : Services) (cache : ManifestCache) (project : Project) : Option Search :=
  if services.mode = .semantic ∧ project.slot.awaitsSearch then
    some ⟨project, services, cache⟩
  else none

/-- The table of links fits the project, and a clean provider rests on the given search. -/
structure Linked (search : Option Search) (project : Project) : Prop where
  base : project.symlinks.base = project.directory
  caseSensitive : project.symlinks.caseSensitive = project.caseSensitive
  listed : project.symlinks.Listed
  backed : ∀ provider, project.slot = .active provider → provider.isDirty = false →
    ∃ made, search = some made ∧ made.Backs provider project

/-- The link table of a linked project keys paths as the project does. -/
theorem Linked.key_eq (h : project.Linked earlier) (path : String) :
    project.symlinks.key path = project.key path := by
  unfold SymlinkTable.key key
  rw [h.base, h.caseSensitive]

/-- A project without a clean provider can be linked to any search. -/
theorem Linked.of_isStale (h : project.Linked earlier) (hstale : project.slot.IsStale) :
    project.Linked later := by
  refine ⟨h.base, h.caseSensitive, h.listed, ?_⟩
  intro provider hslot hclean
  simp [hstale provider hslot] at hclean

/-- The second project has the place of the first one, at least its links, and no clean provider
that the first one does not have; or all links are forgotten, and the provider with them. -/
structure Keeps (before after : Project) : Prop where
  directory : after.directory = before.directory
  caseSensitive : after.caseSensitive = before.caseSensitive
  symlinks : before.symlinks.Extends after.symlinks ∨
    after.symlinks = before.symlinks.clear ∧ after.slot = .unset
  slot : ∀ provider, after.slot = .active provider → provider.isDirty = false →
    before.slot = .active provider

/-- What keeps a project's links and its clean provider keeps it linked. -/
theorem Linked.keeps (h : before.Linked earlier) (hkeeps : before.Keeps after) :
    after.Linked earlier := by
  have hkey : ∀ path, after.key path = before.key path := by
    intro path
    unfold key
    rw [hkeeps.directory, hkeeps.caseSensitive]
  rcases hkeeps.symlinks with hextends | ⟨hclear, hunset⟩
  · refine ⟨?_, ?_, hextends.listed h.listed, ?_⟩
    · rw [hextends.base, h.base, hkeeps.directory]
    · rw [hextends.caseSensitive, h.caseSensitive, hkeeps.caseSensitive]
    · intro provider hslot hclean
      obtain ⟨made, hmade, hbacks⟩ := h.backed provider (hkeeps.slot provider hslot hclean) hclean
      refine ⟨made, hmade, hbacks.roots, ?_, ?_⟩
      · simp only [hkey]
        exact hbacks.package
      · simp only [hkey]
        intro directory hdirectory hne hignored
        exact hextends.directories _ (hbacks.link directory hdirectory hne hignored)
  · refine ⟨?_, ?_, ?_, ?_⟩
    · rw [hclear, hkeeps.directory]
      exact h.base
    · rw [hclear, hkeeps.caseSensitive]
      exact h.caseSensitive
    · rw [hclear]
      exact SymlinkTable.listed_clear _
    · intro provider hslot
      rw [hunset] at hslot
      simp at hslot

end Project

/-! ## Changes -/

namespace ProjectOperation

/-- An operation on a project leaves its place, and at least its links unless it closes it. -/
theorem run_frame (operation : ProjectOperation) (project : Project) :
    (operation.run project).directory = project.directory ∧
      (operation.run project).caseSensitive = project.caseSensitive ∧
      (project.symlinks.Extends (operation.run project).symlinks ∨
        (operation.run project).symlinks = project.symlinks.clear ∧
          (operation.run project).slot = .unset) := by
  have hrefl := SymlinkTable.Extends.refl project.symlinks
  cases operation with
  | setEnabled isEnabled =>
    rw [run]
    unfold Project.setEnabled
    split
    · exact ⟨rfl, rfl, Or.inl hrefl⟩
    · split <;> exact ⟨rfl, rfl, Or.inl hrefl⟩
  | modeChanged mode =>
    rw [run]
    unfold Project.modeChanged
    split <;> exact ⟨rfl, rfl, Or.inl hrefl⟩
  | manifestChanged fileName =>
    rw [run]
    rcases Project.manifestChanged_eq fileName project with heq | heq <;> rw [heq] <;>
      exact ⟨rfl, rfl, Or.inl hrefl⟩
  | dependencyChanged fileName =>
    rw [run]
    rcases Project.dependencyChanged_eq fileName project with
      ⟨-, heq⟩ | ⟨-, -, heq⟩ | ⟨-, provider, -, heq⟩ <;> rw [heq] <;>
      exact ⟨rfl, rfl, Or.inl hrefl⟩
  | seedSymlinks => exact ⟨rfl, rfl, Or.inl (SymlinkTable.extends_seedOnce _ _)⟩
  | close => exact ⟨rfl, rfl, Or.inr ⟨rfl, rfl⟩⟩
  | _ => exact ⟨rfl, rfl, Or.inl hrefl⟩

end ProjectOperation

namespace Project

variable {compiler : Compiler σ} {services : Services} {shared : Shared σ}
  {mode : SessionMode} {project next : Project} {earlier : Option Search}
  {outcome : Option Program × Project × Shared σ}

/-- What a change does to a project keeps its links and its clean provider, or forgets both. -/
theorem Change.keeps (h : project.Change compiler next)
    (hwired : project.Wired (fun _ => True) mode) : project.Keeps next := by
  have hslot : ∀ provider, next.slot = .active provider → provider.isDirty = false →
      project.slot = .active provider := fun _ => h.slot_of_clean hwired
  have hrefl := SymlinkTable.Extends.refl project.symlinks
  cases h with
  | rest => exact ⟨rfl, rfl, Or.inl hrefl, hslot⟩
  | updateGraph state =>
    rcases updateGraph_eq compiler project state with heq | ⟨-, heq⟩ | heq
    · rw [heq] at hslot ⊢
      exact ⟨rfl, rfl, Or.inl hrefl, hslot⟩
    · rw [heq] at hslot ⊢
      exact ⟨rfl, rfl, Or.inl hrefl, hslot⟩
    · rw [heq] at hslot ⊢
      exact ⟨rfl, rfl, Or.inl ⟨rfl, rfl, fun _ h => h, fun h => h⟩, hslot⟩
  | reconfigure old new =>
    obtain ⟨specifiers, ⟨-, -, heq⟩ | heq⟩ := reconfigure_eq old new project
    · rw [heq] at hslot ⊢
      exact ⟨rfl, rfl, Or.inl hrefl, hslot⟩
    · rw [heq] at hslot ⊢
      exact ⟨rfl, rfl, Or.inl hrefl, hslot⟩
  | consult consulted => exact ⟨rfl, rfl, Or.inl hrefl, hslot⟩
  | operate operation =>
    obtain ⟨hdirectory, hcase, hsymlinks⟩ := operation.run_frame project
    exact ⟨hdirectory, hcase, hsymlinks, hslot⟩

/-- A question that starts no search leaves the project as it is, or closes its slot. -/
theorem queryProvider_of_no_search (compiler : Compiler σ)
    (h : project.search? services shared.manifests = none) :
    (project.queryProvider compiler services shared).val.2.1 = project ∨
      (project.queryProvider compiler services shared).val.2.1 =
        { project with slot := .disabled } := by
  unfold search? at h
  rw [ite_eq_right_iff] at h
  unfold queryProvider
  cases hslot : project.slot with
  | disabled => exact Or.inl rfl
  | unset =>
    dsimp only
    split
    · exact Or.inr rfl
    · rename_i hmode
      simp [hslot, Slot.awaitsSearch, Decidable.not_not.1 hmode] at h
  | active provider =>
    dsimp only
    split
    · exact Or.inr rfl
    · rename_i hmode
      have hclean : provider.isDirty = false := by
        simpa [hslot, Slot.awaitsSearch, Decidable.not_not.1 hmode] using h
      unfold queryActive
      rw [hclean]
      exact Or.inl rfl

/-- A search that finds roots backs the provider that is made of them. -/
theorem backs_findings (hlinked : project.Linked earlier) {cache : ManifestCache}
    {provider : Provider} (hroots : (project.findings services cache).1.roots ≠ [])
    (hgiven : provider.roots = some (project.findings services cache).1.roots)
    (hpackages : provider.packageDirectories =
      (project.findings services cache).1.packageDirectories) (index : ExportIndex) :
    Search.Backs ⟨project, services, cache⟩ provider
      { (project.findings services cache).2.1 with
        slot := .active provider
        exportIndex := index } := by
  obtain ⟨lookup, symlinks, consulted, hframe⟩ := findings_frame services project cache
  have hsymlinks : (project.findings services cache).2.1.symlinks = symlinks := by rw [hframe]
  have haccounts : ∀ directory ∈ project.contributors services project.options.forProvider cache,
      project.key (project.realDirectory services.view directory) ∈
          (project.findings services cache).1.packageDirectories ∧
        (project.key (project.realDirectory services.view directory) ≠ project.key directory →
          SymlinkTable.isIgnored (project.symlinks.key directory) = false →
          (project.findings services cache).2.1.symlinks.directories.contains
            (project.symlinks.key directory) = true) :=
    fun directory hdirectory => discover_accounts hroots hdirectory
  simp only [hlinked.key_eq, hsymlinks] at haccounts
  rw [hframe]
  refine ⟨hgiven, ?_, ?_⟩
  · intro directory hdirectory
    rw [hpackages]
    exact (haccounts directory hdirectory).1
  · intro directory hdirectory
    exact (haccounts directory hdirectory).2

/-- What a search leaves of a linked project fits together, whatever is put into the slot. -/
theorem Linked.findings (h : project.Linked earlier) (services : Services) (cache : ManifestCache)
    (slot : Slot) (index : ExportIndex) {later : Option Search}
    (hbacked : ∀ provider, slot = .active provider → provider.isDirty = false →
      ∃ made, later = some made ∧ made.Backs provider
        { (project.findings services cache).2.1 with slot, exportIndex := index }) :
    ({ (project.findings services cache).2.1 with slot, exportIndex := index } : Project).Linked
      later := by
  obtain ⟨lookup, symlinks, consulted, hframe⟩ := findings_frame services project cache
  have hextends : project.symlinks.Extends (project.findings services cache).2.1.symlinks :=
    extends_discover services _ _ project cache
  have hdirectory : (project.findings services cache).2.1.directory = project.directory := by
    rw [hframe]
  have hcase : (project.findings services cache).2.1.caseSensitive = project.caseSensitive := by
    rw [hframe]
  refine ⟨?_, ?_, hextends.listed h.listed, hbacked⟩
  · exact (hextends.base.trans h.base).trans hdirectory.symm
  · exact (hextends.caseSensitive.trans h.caseSensitive).trans hcase.symm

/-- A question to the provider leaves the project linked to the search that it starts, if it starts
one. -/
theorem Linked.asked (h : project.Linked earlier) (compiler : Compiler σ) (services : Services)
    (hwired : project.Wired (fun _ => True) services.mode) (shared : Shared σ) :
    (project.queryProvider compiler services shared).val.2.1.Linked
      ((project.search? services shared.manifests).or earlier) := by
  have hclosed : ({ project with slot := .disabled } : Project).Linked earlier :=
    h.keeps ⟨rfl, rfl, Or.inl (.refl _), fun provider hslot => by simp at hslot⟩
  cases hsearch : project.search? services shared.manifests with
  | none =>
    rw [Option.none_or]
    rcases queryProvider_of_no_search compiler hsearch with heq | heq
    · rw [heq]
      exact h
    · rw [heq]
      exact hclosed
  | some made =>
    rw [Option.some_or]
    unfold search? at hsearch
    split at hsearch
    · rename_i hawaits
      obtain rfl : (⟨project, services, shared.manifests⟩ : Search) = made :=
        Option.some.inj hsearch
      have houtcome : Outcome compiler services project shared _ := queryProvider_outcome hwired
      generalize (project.queryProvider compiler services shared).val = outcome at houtcome ⊢
      cases houtcome with
      | closed hslot => simp [hslot, Slot.awaitsSearch] at hawaits
      | closes hmode => exact hclosed.of_isStale (by intro provider hslot; simp at hslot)
      | clean provider hmode hslot hclean => simp [hslot, Slot.awaitsSearch, hclean] at hawaits
      | empties index hmode hroots =>
        apply h.findings services shared.manifests .unset index
        intro provider hslot
        simp at hslot
      | builds index provider old hmode hroots hold hoptions hclean hprogram hgiven hpackages =>
        apply h.findings services shared.manifests (.active provider) index
        intro other hslot _
        obtain rfl : provider = other := Slot.active.inj hslot
        exact ⟨_, rfl, backs_findings h hroots hgiven hpackages index⟩
    · simp at hsearch

/-- A new project is linked to any search, having no provider yet. -/
theorem create_linked (name directory : String) (roots : List String) (options : CompilerOptions)
    (caseSensitive : Bool) (search : Option Search) :
    (create name directory roots options caseSensitive).Linked search := by
  refine ⟨rfl, rfl, ?_, ?_⟩
  · exact SymlinkTable.listed_clear (create name directory roots options caseSensitive).symlinks
  · intro provider hslot
    simp [create] at hslot

end Project

/-! ## Sessions -/

namespace Session

variable {compiler : Compiler σ} {session : Session σ} {id : Nat} {earlier : Option Search}

/-- The search that an operation starts for a project. -/
def search? (compiler : Compiler σ) (view : FileView) (id : Nat) (session : Session σ)
    (operation : Operation) : Option Search :=
  if operation.asks id then
    (session.project? id).bind fun project =>
      (session.current compiler project).1.search? (session.services view) session.manifests
  else none

/-- The last search for a project in the course of operations, each of which is given the file
system as it is at that moment. -/
def lastSearch (compiler : Compiler σ) (id : Nat) :
    List (FileView × Operation) → Session σ → Option Search
  | [], _ => none
  | step :: rest, session =>
    (lastSearch compiler id rest (step.2.run compiler step.1 session)).or
      (session.search? compiler step.1 id step.2)

/-- The slots are in order, and the project of a number is linked to a search. -/
structure Linked (compiler : Compiler σ) (id : Nat) (search : Option Search)
    (session : Session σ) : Prop where
  orderly : session.Orderly compiler
  project : ∀ project, session.project? id = some project → project.Linked search

/-- An operation leaves a project linked to the search that it makes, or else to the earlier one. -/
theorem Linked.run (h : session.Linked compiler id earlier) (view : FileView)
    (operation : Operation) :
    (operation.run compiler view session).Linked compiler id
      ((session.search? compiler view id operation).or earlier) := by
  refine ⟨h.orderly.run view operation, ?_⟩
  intro project hproject
  cases session.fate compiler view operation id with
  | closed hafter => simp [hproject] at hafter
  | opened name directory roots options hafter =>
    rw [hproject] at hafter
    rw [Option.some.inj hafter]
    exact Project.create_linked name directory roots options _ _
  | changed before next hasks hbefore hafter hchange =>
    have hnone : session.search? compiler view id operation = none := by
      unfold search?
      simp [hasks]
    rw [hproject] at hafter
    rw [Option.some.inj hafter, hnone, Option.none_or]
    exact (h.project before hbefore).keeps
      (hchange.keeps (h.orderly id before hbefore).wired)
  | asked before index hasks hbefore hafter =>
    have hsearch : session.search? compiler view id operation =
        (session.current compiler before).1.search? (session.services view)
          session.manifests := by
      unfold search?
      rw [if_pos hasks, hbefore]
      rfl
    have hcurrent : (session.current compiler before).1.Linked earlier :=
      (h.project before hbefore).keeps (Project.Change.keeps
        (.updateGraph session.compilerState) (h.orderly id before hbefore).wired)
    have hasked := hcurrent.asked compiler (session.services view)
      (h.orderly.current hbefore).wired ⟨session.manifests, (session.current compiler before).2⟩
    rw [hproject] at hafter
    rw [Option.some.inj hafter, hsearch]
    exact hasked.keeps ⟨rfl, rfl, Or.inl (.refl _), fun _ hslot _ => hslot⟩

/-- After any steps a project is linked to the last search that one of them made. -/
theorem Linked.through (h : session.Linked compiler id earlier)
    (steps : List (FileView × Operation)) :
    (session.through compiler steps).Linked compiler id
      ((session.lastSearch compiler id steps).or earlier) := by
  induction steps generalizing session earlier with
  | nil => exact h
  | cons step rest ih =>
    rw [lastSearch, Option.or_assoc]
    exact ih (h.run step.1 step.2)

/-- A session that has just started has no project to link. -/
theorem startWith_linked (compiler : Compiler σ) (caseSensitive : Bool)
    (configuration : HostConfiguration) (mode : SessionMode) (state : σ) (id : Nat)
    (search : Option Search) :
    (startWith caseSensitive configuration mode state).Linked compiler id search := by
  refine ⟨startWith_orderly compiler caseSensitive configuration mode state, ?_⟩
  intro project hproject
  simp [startWith, start, project?, Table.get?, Table.lookupIn] at hproject

/-- Take a new session and any operations, each on the file system as it is then, and a project with
a clean provider.  The provider has the roots of the last search for the project.  For every package
that contributed to that search, a change at or below its real directory makes the provider dirty.
So does a change at or below the directory in which the package was found, as long as that is
tracked and either is not listed under an earlier real directory, or is, with the real directory it
has now, the deepest known link on the way to the change, which is no known linked file itself. -/
theorem dependencyChanged_of_contributor (compiler : Compiler σ) (caseSensitive : Bool)
    (configuration : HostConfiguration) (mode : SessionMode) (state : σ)
    (steps : List (FileView × Operation)) (id : Nat) :
    let start := startWith caseSensitive configuration mode state
    ∀ project provider, (start.through compiler steps).project? id = some project →
      project.slot = .active provider → provider.isDirty = false →
      ∃ search, start.lastSearch compiler id steps = some search ∧
        provider.roots = some search.found.roots ∧
        ∀ directory ∈ search.contributors, ∀ path,
          let link := project.key directory
          let real := project.key (search.realDirectory directory)
          let changed := project.key path
          (Path.contains real changed ∨
            Path.contains link changed ∧ SymlinkTable.isIgnored link = false ∧
              ((∀ listing, link ∈ project.symlinks.linksTo listing → listing = real) ∨
                project.symlinks.file? changed = none ∧ Text.endsWith "/" link = false ∧
                  (project.symlinks.deepest? (project.symlinks.key changed)).map
                    (fun entry => (entry.1, entry.2.realKey)) = some (link, real))) →
          (project.dependencyChanged path).1 = true ∧
            ∃ dirty, (project.dependencyChanged path).2.slot = .active dirty ∧
              dirty.isDirty = true := by
  intro start project provider hproject hslot hclean
  have hlinked := ((startWith_linked compiler caseSensitive configuration mode state id
    none).through steps).project project hproject
  rw [Option.or_none] at hlinked
  obtain ⟨search, hsearch, hbacks⟩ := hlinked.backed provider hslot hclean
  refine ⟨search, hsearch, hbacks.roots, ?_⟩
  intro directory hdirectory path link real changed hroute
  have hpackage : real ∈ provider.packageDirectories := hbacks.package directory hdirectory
  have haffects : ChangeRouting.affects changed provider project.symlinks = true := by
    rcases hroute with hreal | ⟨hbelow, hignored, hlisting | ⟨hfile, hroot, hdeepest⟩⟩
    · exact ChangeRouting.affects_of_package hpackage hreal
    · by_cases hsame : real = link
      · rw [← hsame] at hbelow
        exact ChangeRouting.affects_of_package hpackage hbelow
      · -- The link was recorded, so it is listed, and that can only be under its real directory.
        obtain ⟨listing, hlisted⟩ :=
          hlinked.listed link (hbacks.link directory hdirectory hsame hignored)
        rw [hlisting listing hlisted] at hlisted
        exact ChangeRouting.affects_of_listed hpackage hlisted hbelow
    · obtain ⟨⟨deepest, target⟩, hfound, hentry⟩ := Option.map_eq_some_iff.1 hdeepest
      obtain ⟨rfl, hreal⟩ := Prod.mk.inj hentry
      rw [← hreal] at hpackage
      exact ChangeRouting.affects_of_deepest hpackage hfile hfound hroot
  have hreacts : project.reacts path = true := by
    unfold Project.reacts
    rw [hslot]
    simp only [Slot.provider?, Option.any_some]
    rw [Bool.or_eq_true]
    exact Or.inr haffects
  rcases Project.dependencyChanged_eq path project with ⟨hno, -⟩ | ⟨-, hnone, -⟩ |
    ⟨-, current, hcurrent, heq⟩
  · simp [hreacts] at hno
  · simp [hslot, Slot.provider?] at hnone
  · rw [heq]
    exact ⟨rfl, current.markDirty, rfl, current.isDirty_markDirty⟩

/-- A project in `directory` whose only dependency is a link to the package in `/lib`. -/
def linkedTree (directory : String) : MemoryTree :=
  (((MemoryTree.writeFile {} (directory ++ "/package.json")
      "\x7b\"dependencies\":\x7b\"dep\":\"1\"\x7d\x7d").writeFile
    "/lib/package.json" "{}").writeFile "/lib/index.ts" "").linkDirectory
      (directory ++ "/node_modules/dep") "/lib"

/-- The project is opened, and its provider is asked for. -/
def linkedSteps (directory : String) : List (FileView × Operation) :=
  [((linkedTree directory).view, .openProject "p" directory [directory ++ "/main.ts"] {}),
    ((linkedTree directory).view, .queryProvider 0)]

/-- A change of a file in the linked package is noticed. -/
theorem dependencyChanged_of_contributor_linked :
    ∃ project, ((startWith true {} .semantic {}).through .scripted
        (linkedSteps "/app")).project? 0 = some project ∧
      (project.dependencyChanged "/app/node_modules/dep/index.ts").1 = true := by
  have hleft : (((startWith true {} .semantic {}).through .scripted
      (linkedSteps "/app")).project? 0).map (fun project =>
        (project.directory, project.caseSensitive, project.slot.provider?.map Provider.isDirty,
          project.symlinks.byReal)) =
      some ("/app", true, some false, ⟨[("/lib", ["/app/node_modules/dep"])]⟩) := by
    decide +kernel
  have hmade : ((startWith true {} .semantic {}).lastSearch .scripted 0
      (linkedSteps "/app")).map (fun search =>
        (search.contributors, search.realDirectory "/app/node_modules/dep")) =
      some (["/app/node_modules/dep"], "/lib") := by
    decide +kernel
  obtain ⟨project, hproject, hparts⟩ := Option.map_eq_some_iff.1 hleft
  simp only [Prod.mk.injEq] at hparts
  obtain ⟨hdirectory, hcase, hprovider, hlisted⟩ := hparts
  obtain ⟨provider, hslot, hclean⟩ : ∃ provider, project.slot = .active provider ∧
      provider.isDirty = false := by
    cases hslot : project.slot with
    | active provider => exact ⟨provider, rfl, by simpa [hslot, Slot.provider?] using hprovider⟩
    | _ => simp [hslot, Slot.provider?] at hprovider
  refine ⟨project, hproject, ?_⟩
  obtain ⟨search, hsearch, -, hroutes⟩ := dependencyChanged_of_contributor .scripted true {}
    .semantic {} (linkedSteps "/app") 0 project provider hproject hslot hclean
  rw [hsearch] at hmade
  simp only [Option.map_some, Option.some.injEq, Prod.mk.injEq] at hmade
  refine (hroutes "/app/node_modules/dep" (by simp [hmade.1]) _ (Or.inr ⟨?_, ?_, Or.inl ?_⟩)).1
  · unfold Project.key
    rw [hdirectory, hcase]
    decide +kernel
  · unfold Project.key
    rw [hdirectory, hcase]
    decide +kernel
  · have hreal : project.key "/lib" = "/lib" := by
      unfold Project.key
      rw [hdirectory, hcase]
      decide +kernel
    intro listing hlisting
    rw [hmade.2, hreal]
    unfold SymlinkTable.linksTo at hlisting
    rw [hlisted] at hlisting
    simp only [Table.get?, Table.lookupIn] at hlisting
    split at hlisting
    · rename_i hsame
      exact hsame.symm
    · simp at hlisting

/-- Whether a change at or below a package directory that contributed to the last search for
a project goes unnoticed, although the project has a clean provider. -/
def misses (compiler : Compiler σ) (start : Session σ) (steps : List (FileView × Operation))
    (id : Nat) (directory path : String) : Bool :=
  ((start.through compiler steps).project? id).any fun project =>
    (start.lastSearch compiler id steps).any fun search =>
      search.contributors.contains directory &&
        project.slot.provider?.any (fun provider => !provider.isDirty) &&
        Path.contains (project.key directory) (project.key path) &&
        !(project.dependencyChanged path).1

/-- In a directory whose path is never tracked, a change below a link goes unnoticed. -/
theorem dependencyChanged_unnoticed :
    misses .scripted (startWith true {} .semantic {}) (linkedSteps "/.github") 0
      "/.github/node_modules/dep" "/.github/node_modules/dep/index.ts" = true := by
  decide +kernel

/-- A change of a file that the program resolved while the link led elsewhere goes unnoticed: the
link is still listed under the directory to which it led then. -/
theorem dependencyChanged_unnoticed_relinked :
    misses .scripted
      (startWith true {} .semantic
        { resolutions := [⟨"/old/index.ts", some "/app/node_modules/dep/index.ts"⟩] })
      (linkedSteps "/app") 0
      "/app/node_modules/dep" "/app/node_modules/dep/index.ts" = true := by
  decide +kernel

end Session

end AutoImport
