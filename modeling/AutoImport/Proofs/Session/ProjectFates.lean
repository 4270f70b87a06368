import AutoImport.Proofs.Session.SlotStates

/-!
# What an operation does to one project

An operation of a session reaches the project of a number in one of four ways: afterwards there is
no such project, it was opened just now, it was changed without a question to its provider, or its
provider was asked for (`Session.Fate`).  A change is one of the calls that a project answers by
itself (`Project.Change`).  What all operations keep true of a project is then shown for these few
cases, whatever the compiler and the file system are.
-/

set_option autoImplicit false

namespace AutoImport

variable {σ : Type}

/-- What may happen to a project while its provider is not asked for. -/
inductive Project.Change (compiler : Compiler σ) (project : Project) : Project → Prop where
  | rest : Change compiler project project
  | updateGraph (state : σ) : Change compiler project (project.updateGraph compiler state).2.1
  | reconfigure (old new : HostConfiguration) :
    Change compiler project (Session.reconfigure old new project)
  | consult (consulted : List String) : Change compiler project { project with consulted }
  | operate (operation : ProjectOperation) : Change compiler project (operation.run project)

namespace Project

variable {compiler : Compiler σ} {mode : SessionMode} {project next : Project} {provider : Provider}

/-- A step that ends with a clean provider began with it. -/
theorem SlotStep.slot_of_clean (h : SlotStep project next) (hslot : next.slot = .active provider)
    (hclean : provider.isDirty = false) : project.slot = .active provider := by
  obtain ⟨-, earlier, hearlier, rfl | rfl⟩ := h.provider hslot
  · exact hearlier
  · simp [earlier.isDirty_markDirty] at hclean

/-- A change leaves no clean provider but the one that was there. -/
theorem Change.slot_of_clean (h : project.Change compiler next)
    (hwired : project.Wired (fun _ => True) mode) (hslot : next.slot = .active provider)
    (hclean : provider.isDirty = false) : project.slot = .active provider := by
  cases h with
  | rest => exact hslot
  | updateGraph state =>
    rcases updateGraph_eq compiler project state with heq | ⟨-, heq⟩ | heq
    · rwa [heq] at hslot
    · rwa [heq] at hslot
    · rw [heq] at hslot
      simp [isStale_markDirty project.slot provider hslot] at hclean
  | reconfigure old new => exact (reconfigure_steps hwired old new).slot.slot_of_clean hslot hclean
  | consult consulted => exact hslot
  | operate operation => exact (operation.steps hwired).slot.slot_of_clean hslot hclean

end Project

/-- Whether the operation asks for the provider of a project. -/
def Operation.asks (id : Nat) : Operation → Bool
  | .queryProvider asked => asked = id
  | .queryExports asked => asked = id
  | _ => false

namespace Session

/-- What an operation does to the project of a number. -/
inductive Fate (compiler : Compiler σ) (view : FileView) (operation : Operation) (id : Nat)
    (before after : Session σ) : Prop where
  | closed (hafter : after.project? id = none)
  | opened (name directory : String) (roots : List String) (options : CompilerOptions)
    (hafter : after.project? id =
      some (Project.create name directory roots options before.manifests.caseSensitive))
  | changed (project next : Project) (hasks : operation.asks id = false)
    (hbefore : before.project? id = some project) (hafter : after.project? id = some next)
    (hchange : project.Change compiler next)
  | asked (project : Project) (index : ExportIndex) (hasks : operation.asks id = true)
    (hbefore : before.project? id = some project)
    (hafter : after.project? id =
      some { (before.asked compiler view project).2.1 with exportIndex := index })

variable {compiler : Compiler σ} {view : FileView} {operation : Operation} {id : Nat}
  {before after : Session σ}

/-- An operation that leaves a project alone. -/
theorem Fate.ofSame (hasks : operation.asks id = false)
    (hproject : after.project? id = before.project? id) :
    Fate compiler view operation id before after := by
  cases hopen : before.project? id with
  | none => exact .closed (hproject.trans hopen)
  | some project => exact .changed project project hasks hopen (hproject.trans hopen) .rest

/-- An operation that changes a project. -/
theorem Fate.ofChange (hasks : operation.asks id = false) {change : Project → Project}
    (hchange : ∀ project : Project, project.Change compiler (change project))
    (hproject : after.project? id = (before.project? id).map change) :
    Fate compiler view operation id before after := by
  cases hopen : before.project? id with
  | none =>
    rw [hopen] at hproject
    exact .closed hproject
  | some project =>
    rw [hopen] at hproject
    exact .changed project (change project) hasks hopen hproject (hchange project)

/-- An operation that puts one project back. -/
theorem Fate.ofPut {put : Nat} {project next : Project} (shared : Shared σ)
    (hasks : operation.asks id = false) (hopen : before.project? put = some project)
    (hchange : project.Change compiler next) :
    Fate compiler view operation id before (before.put put next shared) := by
  by_cases hid : put = id
  · subst hid
    refine .changed project next hasks hopen ?_ hchange
    rw [project?_put, if_pos rfl]
  · apply Fate.ofSame hasks
    rw [project?_put, if_neg hid]

/-- A question to the provider of a project, with whatever index of exports it leaves. -/
theorem Fate.ofAsked {asked : Nat} {project : Project} (index : ExportIndex) (shared : Shared σ)
    (hasks : operation.asks id = decide (asked = id))
    (hopen : before.project? asked = some project) :
    Fate compiler view operation id before
      (before.put asked { (before.asked compiler view project).2.1 with exportIndex := index }
        shared) := by
  by_cases hid : asked = id
  · subst hid
    refine .asked project index (hasks.trans (decide_eq_true rfl)) hopen ?_
    rw [project?_put, if_pos rfl]
  · apply Fate.ofSame (hasks.trans (decide_eq_false hid))
    rw [project?_put, if_neg hid]

/-- Every operation reaches the project of a number in one of these ways. -/
theorem fate (compiler : Compiler σ) (view : FileView) (operation : Operation) (id : Nat)
    (session : Session σ) :
    Fate compiler view operation id session (operation.run compiler view session) := by
  cases operation with
  | openProject name directory roots options =>
    have hget := Table.get?_insert session.projects session.nextId id
      (Project.create name directory roots options session.manifests.caseSensitive)
    by_cases hid : session.nextId = id
    · rw [if_pos hid] at hget
      exact .opened name directory roots options hget
    · rw [if_neg hid] at hget
      exact .ofSame rfl hget
  | closeProject closed =>
    have hget := Table.get?_erase session.projects closed id
    by_cases hid : closed = id
    · rw [if_pos hid] at hget
      exact .closed hget
    · rw [if_neg hid] at hget
      exact .ofSame rfl hget
  | configure configuration =>
    exact .ofChange rfl (fun project => .reconfigure session.configuration configuration)
      (project?_modifyProjects session id _)
  | setMode mode =>
    show Fate compiler view (.setMode mode) id session (session.setMode mode)
    unfold setMode
    split
    · exact .ofSame rfl rfl
    · exact .ofChange rfl (fun project => .operate (.modeChanged mode))
        (project?_modifyProjects session id _)
  | updateGraph updated =>
    show Fate compiler view (.updateGraph updated) id session
      (session.updateGraph compiler updated).2
    cases hopen : session.project? updated with
    | none =>
      unfold Session.updateGraph
      rw [hopen]
      exact .ofSame rfl rfl
    | some project =>
      rw [updateGraph_of_open hopen]
      exact .ofPut _ rfl hopen (.updateGraph session.compilerState)
  | queryProvider asked =>
    show Fate compiler view (.queryProvider asked) id session
      (session.queryProvider compiler view asked).val.2
    cases hopen : session.project? asked with
    | none =>
      rw [queryProvider_of_closed compiler view hopen]
      by_cases hid : asked = id
      · subst hid
        exact .closed hopen
      · exact .ofSame (decide_eq_false hid) rfl
    | some project =>
      rw [queryProvider_of_open hopen]
      exact .ofAsked (session.asked compiler view project).2.1.exportIndex _ rfl hopen
  | queryExports asked =>
    show Fate compiler view (.queryExports asked) id session
      (session.queryExports compiler view asked).val.2
    cases hopen : session.project? asked with
    | none =>
      unfold Session.queryExports
      rw [hopen]
      by_cases hid : asked = id
      · subst hid
        exact .closed hopen
      · exact .ofSame (decide_eq_false hid) rfl
    | some project =>
      obtain ⟨index, hval⟩ := queryExports_of_open compiler view hopen
      rw [hval]
      exact .ofAsked index _ rfl hopen
  | projectManifests seen =>
    show Fate compiler view (.projectManifests seen) id session
      (session.projectManifests view seen).val.2
    cases hopen : session.project? seen with
    | none =>
      unfold Session.projectManifests
      rw [hopen]
      exact .ofSame rfl rfl
    | some project =>
      obtain ⟨consulted, hval⟩ := projectManifests_of_open view hopen
      rw [hval]
      exact .ofPut _ rfl hopen (.consult consulted)
  | visibleManifests fileName rootDirectory => exact .ofSame rfl rfl
  | manifestChanged fileName change =>
    exact .ofChange rfl (fun project => .operate (.manifestChanged _))
      (project?_manifestChanged session view fileName change id)
  | dependencyChanged fileName =>
    exact .ofChange rfl (fun project => .operate (.dependencyChanged _))
      (project?_dependencyChanged session fileName id)
  | onProject changed operation =>
    have hget := project?_modifyProject session changed id operation.run
    by_cases hid : changed = id
    · rw [if_pos hid] at hget
      exact .ofChange rfl (fun project => .operate operation) hget
    · rw [if_neg hid] at hget
      exact .ofSame rfl hget

end Session

end AutoImport
