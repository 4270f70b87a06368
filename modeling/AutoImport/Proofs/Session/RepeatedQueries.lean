import AutoImport.Proofs.Discovery.RepeatedRuns
import AutoImport.Proofs.Session.SlotStates

/-!
# Queries that are repeated

A query that follows another one for the same project, with nothing in between, is answered with the
same program and changes nothing in the session.  It is answered without a compiler: whatever
compiler stands ready for the second query, it is not asked for anything.

If the first query leaves a clean provider or a closed slot, the second one only reads it.  If it
leaves the slot empty, the second one discovers once more, and finds nothing once more because
repeated discoveries find the same and leave everything as it is.
-/

set_option autoImplicit false

namespace AutoImport

variable {σ : Type}

namespace Project

variable {compiler : Compiler σ} {services : Services} {project : Project} {shared : Shared σ}
  {outcome : Option Program × Project × Shared σ}

/-- A discovery neither reads nor changes the slot and the export index. -/
theorem findings_of_slot (services : Services) (project : Project) (cache : ManifestCache)
    (slot : Slot) (index : ExportIndex) :
    ({ project with slot, exportIndex := index } : Project).findings services cache =
      let found := project.findings services cache
      (found.1, { found.2.1 with slot, exportIndex := index }, found.2.2) := by
  have hinclusion : ({ project with slot, exportIndex := index } : Project).inclusion
      services.inclusion = project.inclusion services.inclusion := rfl
  unfold findings
  rw [hinclusion]
  unfold discover
  dsimp only
  split
  · rfl
  · rfl

/-- The discovery for the provider finds the same again and changes nothing any more. -/
theorem findings_again (hnormal : Path.IsNormal project.directory) (services : Services)
    (cache : ManifestCache) :
    let first := project.findings services cache
    first.2.1.findings services first.2.2 = first := by
  obtain ⟨lookup, symlinks, consulted, hframe⟩ := findings_frame services project cache
  have hagain := discover_again hnormal services (project.inclusion services.inclusion)
    project.options.forProvider cache
  have hinclusion : (project.findings services cache).2.1.inclusion services.inclusion =
      project.inclusion services.inclusion := by
    rw [hframe]
    rfl
  have hoptions : (project.findings services cache).2.1.options = project.options := by
    rw [hframe]
  show (discover services ((project.findings services cache).2.1.inclusion services.inclusion)
    (project.findings services cache).2.1.options.forProvider _ _).val = _
  rw [hinclusion, hoptions]
  exact hagain

/-- In semantic mode a clean provider answers with its program, and nothing changes. -/
theorem queryProvider_of_clean {provider : Provider} (hmode : services.mode = .semantic)
    (hslot : project.slot = .active provider) (hclean : provider.isDirty = false) :
    (project.queryProvider compiler services shared).val =
      (provider.program, project, shared) := by
  unfold queryProvider queryActive
  rw [hslot]
  dsimp only
  rw [if_neg (not_not_intro hmode), if_neg (by simp [hclean])]
  rfl

/-- A project without a provider for which nothing is found, and nothing new is remembered, is left
as it is. -/
theorem queryProvider_of_nothing (hmode : services.mode = .semantic)
    (hslot : project.slot = .unset) {found : Discovery.Result} (hroots : found.roots = [])
    (hfound : project.findings services shared.manifests = (found, project, shared.manifests)) :
    (project.queryProvider compiler services shared).val = (none, project, shared) := by
  have hdiscover : (project.discover services (project.inclusion services.inclusion)
      project.options.forProvider shared.manifests).val = (found, project, shared.manifests) :=
    hfound
  unfold queryProvider queryUnset
  rw [hslot]
  dsimp only
  rw [if_neg (not_not_intro hmode)]
  split
  · rfl
  · have hnone : Provider.ofDiscovery? project.directory project.caseSensitive
        project.options.forProvider found = none := if_pos (List.isEmpty_iff.2 hroots)
    rw [Probed.val_bind, hdiscover]
    dsimp only
    rw [hnone]
    rfl

/-- Whatever a query leaves, a second one answers the same and leaves it as it is. -/
theorem Outcome.again (h : Outcome compiler services project shared outcome)
    (hnormal : Path.IsNormal project.directory) (other : Compiler σ) :
    (outcome.2.1.queryProvider other services outcome.2.2).val = outcome := by
  cases h with
  | closed hslot =>
    unfold queryProvider
    rw [hslot]
    rfl
  | closes hmode => rfl
  | clean provider hmode hslot hclean => exact queryProvider_of_clean hmode hslot hclean
  | empties index hmode hroots =>
    have hagain := findings_again hnormal services shared.manifests
    refine queryProvider_of_nothing hmode rfl hroots ?_
    dsimp only at hagain ⊢
    rw [findings_of_slot, hagain]
  | builds index provider old hmode hroots hold hoptions hclean hprogram hgiven hpackages =>
    rw [← hprogram]
    exact queryProvider_of_clean hmode rfl hclean

/-- A query leaves the project as dirty as it was. -/
theorem Outcome.isDirty (h : Outcome compiler services project shared outcome) :
    outcome.2.1.isDirty = project.isDirty := by
  obtain ⟨lookup, symlinks, consulted, hframe⟩ :=
    findings_frame services project shared.manifests
  cases h with
  | closed hslot => rfl
  | closes hmode => rfl
  | clean provider hmode hslot hclean => rfl
  | empties index hmode hroots => rw [hframe]
  | builds index provider old hmode hroots hold hoptions hclean => rw [hframe]

/-- Bringing the program up to date leaves nothing to be built. -/
theorem isDirty_updateGraph (compiler : Compiler σ) (project : Project) (state : σ) :
    (project.updateGraph compiler state).2.1.isDirty = false := by
  unfold updateGraph
  split
  · dsimp only
    split
    · rfl
    · rfl
  · rename_i hclean
    exact Bool.eq_false_iff.2 hclean

/-- An up-to-date graph is not updated again. -/
theorem updateGraph_of_clean (compiler : Compiler σ) (h : project.isDirty = false) (state : σ) :
    project.updateGraph compiler state = (false, project, state) := by
  unfold updateGraph
  rw [h]
  rfl

end Project

namespace Session

/-- Putting a project back twice is putting it back once. -/
theorem put_put (session : Session σ) (id : Nat) (project : Project) (shared : Shared σ) :
    (session.put id project shared).put id project shared = session.put id project shared := by
  have hget : (session.projects.insert id project).get? id = some project := by
    rw [Table.get?_insert, if_pos rfl]
  unfold put
  dsimp only
  rw [Table.insert_of_get? hget]

/-- Take a new session and any operations, each on the file system as it is then, and query the
provider of any project.  A second query on the same file system, for which any compiler may stand
ready, has the same answer and leaves the session, compiler and memories included, as the first
query left it. -/
theorem queryProvider_idempotent (compiler : Compiler σ) (caseSensitive : Bool)
    (configuration : HostConfiguration) (mode : SessionMode) (state : σ)
    (steps : List (FileView × Operation)) (view : FileView) (id : Nat) (other : Compiler σ) :
    let session := (startWith caseSensitive configuration mode state).through compiler steps
    let first := (session.queryProvider compiler view id).val
    (first.2.queryProvider other view id).val = first := by
  intro session first
  have horderly : session.Orderly compiler :=
    (startWith_orderly compiler caseSensitive configuration mode state).through steps
  cases hopen : session.project? id with
  | none =>
    have hfirst : first = (none, session) := queryProvider_of_closed compiler view hopen
    rw [hfirst]
    exact queryProvider_of_closed other view hopen
  | some project =>
    have houtcome := horderly.outcome view hopen
    have hnormal := (horderly.current hopen).wired.directory
    have hclean : (session.asked compiler view project).2.1.isDirty = false :=
      houtcome.isDirty.trans (Project.isDirty_updateGraph compiler project session.compilerState)
    have hfirst : first = ((session.asked compiler view project).1,
        session.put id (session.asked compiler view project).2.1
          (session.asked compiler view project).2.2) := queryProvider_of_open hopen
    rw [hfirst]
    generalize session.asked compiler view project = left at houtcome hclean
    have hleft : (session.put id left.2.1 left.2.2).project? id = some left.2.1 := by
      rw [project?_put, if_pos rfl]
    have hsecond : (session.put id left.2.1 left.2.2).asked other view left.2.1 = left := by
      unfold asked current
      rw [Project.updateGraph_of_clean other hclean]
      exact houtcome.again hnormal other
    rw [queryProvider_of_open hleft, hsecond, put_put]

end Session

end AutoImport
