import AutoImport.Proofs.Session.OperationEffects

/-!
# Invariants of sessions

Two invariants follow from what an operation can do to a project.  One holds whatever is done to
the file system: the projects of a session are wired (`Reachable.coherent`).  The other is about
a tree that stays as it is: a settled project stays settled under truthful operations
(`SettledAt.after`), and a query of a settled project answers as if nothing were remembered
(`SettledAt.answersFresh`).
-/

set_option autoImplicit false

namespace AutoImport.Session

variable {σ : Type} {compiler : Compiler σ} {knows : σ → Program → Prop} {caseSensitive : Bool}
  {session : Session σ}

/-! ## Coherence -/

/-- Whatever happens to a project leaves it wired. -/
theorem Effect.wired (hcompiler : compiler.Faithful knows) {view : FileView} {id : Nat}
    {before after : Session σ} (h : Effect compiler knows view id before after)
    (hcoherent : before.Coherent knows caseSensitive)
    (hkeeps : ∀ program, knows before.compilerState program → knows after.compilerState program)
    {project : Project} (hopen : after.project? id = some project) :
    project.Wired (knows after.compilerState) after.mode := by
  cases h with
  | closed hafter =>
    rw [hafter] at hopen
    exact absurd hopen (by simp)
  | opened created hafter hid hnext hnormal hprogram hreset hslot =>
    obtain rfl : created = project := Option.some.inj (hafter.symm.trans hopen)
    refine ⟨hnormal, fun program hsome => ?_, fun _ => ?_, fun provider hactive => ?_⟩
    · rw [hprogram] at hsome
      exact absurd hsome (by simp)
    · rw [hslot]
      simp
    · rw [hslot] at hactive
      exact absurd hactive (by simp)
  | steps earlier next hbefore hafter hsteps hservices =>
    obtain rfl : next = project := Option.some.inj (hafter.symm.trans hopen)
    have hmode : after.mode = before.mode := congrArg Services.mode hservices
    have hwired := hcoherent.projects id earlier hbefore
    refine hsteps.wired hwired hkeeps fun hsemantic => ?_
    exact hsteps.slot.ne_disabled (hwired.slot (hmode ▸ hsemantic))
  | settings earlier next hbefore hafter hsteps hstale hslot =>
    obtain rfl : next = project := Option.some.inj (hafter.symm.trans hopen)
    exact hsteps.wired (hcoherent.projects id earlier hbefore) hkeeps hslot
  | query earlier current next answer index state hbefore hafter hsteps hkept houtcome hservices =>
    obtain rfl : { next with exportIndex := index } = project :=
      Option.some.inj (hafter.symm.trans hopen)
    have hmode : after.mode = before.mode := congrArg Services.mode hservices
    have hwired := hcoherent.projects id earlier hbefore
    have hcurrent : current.Wired (knows state) before.mode :=
      hsteps.wired hwired hkept fun hsemantic => hsteps.slot.ne_disabled (hwired.slot hsemantic)
    have hnext := houtcome.wired hcompiler hcurrent
    rw [hmode]
    exact ⟨hnext.directory, hnext.program, hnext.slot, hnext.provider⟩

/-- Every operation leaves a coherent session coherent. -/
theorem Coherent.run (hcompiler : compiler.Faithful knows)
    (hcoherent : session.Coherent knows caseSensitive) (tree : MemoryTree) (operation : Operation) :
    (operation.run compiler tree.view session).Coherent knows caseSensitive := by
  have hadvance := operation.advance hcompiler hcoherent tree
  refine ⟨fun id project hopen => ?_, fun id project hopen => ?_, ?_⟩
  · exact (hadvance.effect id).wired hcompiler hcoherent hadvance.keeps hopen
  · have hnumber : ∀ {earlier : Project}, session.project? id = some earlier →
        id < (operation.run compiler tree.view session).nextId := fun hearlier =>
      Nat.lt_of_lt_of_le (hcoherent.numbers id _ hearlier) hadvance.nextId
    cases hadvance.effect id with
    | closed hafter =>
      rw [hafter] at hopen
      exact absurd hopen (by simp)
    | opened created hafter hid hnext hnormal hprogram hreset hslot => exact hnext
    | steps earlier next hbefore hafter hsteps hservices => exact hnumber hbefore
    | settings earlier next hbefore hafter hsteps hstale hslot => exact hnumber hbefore
    | query earlier current next answer index state hbefore => exact hnumber hbefore
  · exact hadvance.caseSensitive.trans hcoherent.caseSensitive

/-- A session that has just started is coherent, having no projects. -/
theorem startWith_coherent (knows : σ → Program → Prop) (caseSensitive : Bool)
    (configuration : HostConfiguration) (mode : SessionMode) (state : σ) :
    (startWith caseSensitive configuration mode state).Coherent knows caseSensitive := by
  have hnone : ∀ id, (startWith caseSensitive configuration mode state).project? id = none :=
    fun id => Table.get?_empty id
  refine ⟨fun id project hopen => ?_, fun id project hopen => ?_, rfl⟩
  · rw [hnone] at hopen
    exact absurd hopen (by simp)
  · rw [hnone] at hopen
    exact absurd hopen (by simp)

/-- Whatever was done to the file system, a session is coherent. -/
theorem Reachable.coherent (hcompiler : compiler.Faithful knows)
    (h : Reachable compiler caseSensitive session) : session.Coherent knows caseSensitive := by
  induction h with
  | start configuration mode state =>
    exact startWith_coherent knows caseSensitive configuration mode state
  | step tree operation _ _ ih => exact ih.run hcompiler tree operation

/-! ## Settled projects -/

/-- The project of a number, if it is open, is settled on the tree. -/
def SettledAt (knows : σ → Program → Prop) (tree : MemoryTree) (id : Nat) (session : Session σ) :
    Prop :=
  ∀ project, session.project? id = some project →
    project.Settled (knows session.compilerState) tree (session.services tree.view)
      session.manifests

variable {tree : MemoryTree} {id : Nat}

/-- What happens to an open project leaves it settled, if it was and if nothing but the truth was
learnt. -/
theorem Effect.settled (hcompiler : compiler.Faithful knows) {before after : Session σ}
    (h : Effect compiler knows tree.view id before after)
    (hcoherent : before.Coherent knows caseSensitive) (hid : id ≠ before.nextId)
    (hkeeps : ∀ program, knows before.compilerState program → knows after.compilerState program)
    (hlearns : before.manifests.Learns tree after.manifests)
    (hsettled : before.SettledAt knows tree id) : after.SettledAt knows tree id := by
  intro project hopen
  have hwired := h.wired hcompiler hcoherent hkeeps hopen
  cases h with
  | closed hafter =>
    rw [hafter] at hopen
    exact absurd hopen (by simp)
  | opened created hafter hnew => exact absurd hnew hid
  | steps earlier next hbefore hafter hsteps hservices =>
    obtain rfl : next = project := Option.some.inj (hafter.symm.trans hopen)
    rw [hservices]
    exact ((hsettled earlier hbefore).learns hlearns).steps hsteps hkeeps
  | settings earlier next hbefore hafter hsteps hstale hslot =>
    obtain rfl : next = project := Option.some.inj (hafter.symm.trans hopen)
    have hearlier := (hsettled earlier hbefore).learns hlearns
    exact Project.settled_of_isStale hwired (hearlier.truthful.steps hsteps) hstale
  | query earlier current next answer index state hbefore hafter hsteps hkept houtcome hservices =>
    obtain rfl : { next with exportIndex := index } = project :=
      Option.some.inj (hafter.symm.trans hopen)
    have hcurrent := (hsettled earlier hbefore).steps hsteps hkept
    have hnext := houtcome.settled hcompiler rfl hcurrent
    rw [hservices]
    refine ⟨?_, ⟨hnext.truthful.caseSensitive, hnext.truthful.manifests, hnext.truthful.lookup⟩, ?_⟩
    · exact ⟨hnext.wired.directory, hnext.wired.program, hnext.wired.slot, hnext.wired.provider⟩
    · have hfresh : ({ next with exportIndex := index } : Project).freshFindings
          (before.services tree.view) = next.freshFindings (before.services tree.view) :=
        Project.freshFindings_congr _ rfl rfl rfl rfl rfl
      rw [hfresh]
      exact hnext.clean

/-- A settled project stays settled under a truthful operation on its tree. -/
theorem SettledAt.run (hcompiler : compiler.Faithful knows)
    (hcoherent : session.Coherent knows caseSensitive) (hid : id ≠ session.nextId)
    {operation : Operation} (htruthful : operation.Truthful tree)
    (hsettled : session.SettledAt knows tree id) :
    (operation.run compiler tree.view session).SettledAt knows tree id := by
  have hadvance := operation.advance hcompiler hcoherent tree
  exact (hadvance.effect id).settled hcompiler hcoherent hid hadvance.keeps
    (hadvance.learns htruthful) hsettled

/-- A settled project stays settled under truthful operations on its tree. -/
theorem SettledAt.after (hcompiler : compiler.Faithful knows) {operations : List Operation}
    (hcoherent : session.Coherent knows caseSensitive) (hid : id < session.nextId)
    (htruthful : ∀ operation ∈ operations, operation.Truthful tree)
    (hsettled : session.SettledAt knows tree id) :
    (session.after compiler tree operations).SettledAt knows tree id ∧
      (session.after compiler tree operations).Coherent knows caseSensitive := by
  induction operations generalizing session with
  | nil => exact ⟨hsettled, hcoherent⟩
  | cons operation rest ih =>
    have hadvance := operation.advance hcompiler hcoherent tree
    have hnext := hsettled.run hcompiler hcoherent (Nat.ne_of_lt hid)
      (htruthful operation List.mem_cons_self)
    exact ih (hcoherent.run hcompiler tree operation) (Nat.lt_of_lt_of_le hid hadvance.nextId)
      (fun other hother => htruthful other (List.mem_cons_of_mem operation hother)) hnext

/-! ## Answers -/

/-- A query of the open project of a number answers with a program of exactly the roots that
a discovery from empty memories finds now, if the session can build programs and there are any, and
with nothing otherwise. -/
def AnswersFresh (compiler : Compiler σ) (tree : MemoryTree) (id : Nat) (session : Session σ) :
    Prop :=
  ∀ project, session.project? id = some project →
    -- A query first brings the program of the project up to date.
    let current := (project.updateGraph compiler session.compilerState).2.1
    let roots := (current.freshFindings (session.services tree.view)).roots
    (session.queryProvider compiler tree.view id).val.1.map Program.roots =
      if session.mode = .semantic ∧ roots ≠ [] then some roots else none

/-- A settled project is answered for afresh. -/
theorem SettledAt.answersFresh (hcompiler : compiler.Faithful knows)
    (hsettled : session.SettledAt knows tree id) : session.AnswersFresh compiler tree id := by
  intro project hopen
  have hproject := hsettled project hopen
  have hcurrent : (session.current compiler project).1.Settled
      (knows (session.current compiler project).2) tree (session.services tree.view)
      session.manifests :=
    hproject.steps (Project.updateGraph_steps hcompiler hproject.wired)
      fun program => Project.updateGraph_keeps hcompiler program
  dsimp only
  rw [queryProvider_of_open hopen]
  exact (asked_outcome hcompiler hproject.wired).answer_eq hcompiler rfl hcurrent

end AutoImport.Session
