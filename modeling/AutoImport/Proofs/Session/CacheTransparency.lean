import AutoImport.Proofs.Session.SessionInvariants

/-!
# Memories do not show on a fixed tree

On a tree that stays as it is, no order of truthful operations makes a difference to what a query
answers: it answers with the roots that a discovery from empty memories finds
(`answersFresh_after`).  The invariant is that all projects are settled and that the manifests of
the session agree with the tree at every normal directory; the latter is what a project needs that
is opened in between.
-/

set_option autoImplicit false

namespace AutoImport.Session

variable {σ : Type} {compiler : Compiler σ} {knows : σ → Program → Prop}

/-- All projects are settled on the tree, and nothing false is known about its manifests. -/
structure Settled (knows : σ → Program → Prop) (tree : MemoryTree) (session : Session σ) :
    Prop where
  coherent : session.Coherent knows tree.caseSensitive
  manifests : ∀ directory, Path.IsNormal directory → session.manifests.AgreesAt tree directory
  settled : ∀ id, session.SettledAt knows tree id

/-- A session that has just started is settled on any tree. -/
theorem startWith_settled (knows : σ → Program → Prop) (tree : MemoryTree)
    (configuration : HostConfiguration) (mode : SessionMode) (state : σ) :
    (startWith tree.caseSensitive configuration mode state).Settled knows tree where
  coherent := startWith_coherent knows tree.caseSensitive configuration mode state
  manifests directory _ := Project.agreesAt_empty tree tree.caseSensitive directory
  settled id project hopen := by
    have hnone : (startWith tree.caseSensitive configuration mode state).project? id = none :=
      Table.get?_empty id
    rw [hnone] at hopen
    exact absurd hopen (by simp)

/-- A truthful operation on the tree keeps all projects settled, those that it opens included. -/
theorem Settled.run (hcompiler : compiler.Faithful knows) {tree : MemoryTree}
    {session : Session σ} (h : session.Settled knows tree) {operation : Operation}
    (htruthful : operation.Truthful tree) :
    (operation.run compiler tree.view session).Settled knows tree := by
  have hadvance := operation.advance hcompiler h.coherent tree
  have hcoherent := h.coherent.run hcompiler tree operation
  have hmanifests : ∀ directory, Path.IsNormal directory →
      (operation.run compiler tree.view session).manifests.AgreesAt tree directory :=
    fun directory hnormal => (hadvance.learns htruthful).agreesAt h.coherent.caseSensitive hnormal
      (h.manifests directory hnormal)
  refine ⟨hcoherent, hmanifests, fun id => ?_⟩
  by_cases hid : id = session.nextId
  · intro project hopen
    cases hadvance.effect id with
    | closed hafter =>
      rw [hafter] at hopen
      exact absurd hopen (by simp)
    | opened created hafter hnew hnext hnormal hprogram hreset hslot =>
      obtain rfl : created = project := Option.some.inj (hafter.symm.trans hopen)
      exact Project.settled_of_isReset hreset (hcoherent.projects id created hopen)
        hcoherent.caseSensitive fun directory hdirectory =>
          hmanifests directory (Project.isNormal_of_mem_visibleDirectories hnormal hdirectory)
    | steps earlier next hbefore =>
      exact absurd hid (Nat.ne_of_lt (h.coherent.numbers id earlier hbefore))
    | settings earlier next hbefore =>
      exact absurd hid (Nat.ne_of_lt (h.coherent.numbers id earlier hbefore))
    | query earlier current next answer index state hbefore =>
      exact absurd hid (Nat.ne_of_lt (h.coherent.numbers id earlier hbefore))
  · exact (h.settled id).run hcompiler h.coherent hid htruthful

/-- A settled session stays settled after any operations that report truthfully. -/
theorem Settled.after (hcompiler : compiler.Faithful knows) {tree : MemoryTree}
    {session : Session σ} (h : session.Settled knows tree) {operations : List Operation}
    (htruthful : ∀ operation ∈ operations, operation.Truthful tree) :
    (session.after compiler tree operations).Settled knows tree := by
  induction operations generalizing session with
  | nil => exact h
  | cons operation rest ih =>
    exact ih (h.run hcompiler (htruthful operation List.mem_cons_self))
      fun other hother => htruthful other (List.mem_cons_of_mem operation hother)

/-- On a tree that stays as it is, after any truthful operations, every open project is answered for
as if nothing were remembered. -/
theorem answersFresh_after (hcompiler : compiler.Faithful knows) (tree : MemoryTree)
    (configuration : HostConfiguration) (mode : SessionMode) (state : σ)
    (operations : List Operation) (htruthful : ∀ operation ∈ operations, operation.Truthful tree)
    (id : Nat) :
    ((startWith tree.caseSensitive configuration mode state).after compiler tree
      operations).AnswersFresh compiler tree id :=
  (((startWith_settled knows tree configuration mode state).after hcompiler htruthful).settled
    id).answersFresh hcompiler

/-- A tree with a manifest at its root that lists a package. -/
def listingTree : MemoryTree :=
  ({} : MemoryTree).writeFile "/package.json"
    "\x7b\"dependencies\":\x7b\"a\":\"1\"\x7d\x7d"

/-- The tree in which the listed package is installed. -/
def installedTree : MemoryTree :=
  (listingTree.writeFile "/node_modules/a/package.json" "{}").writeFile
    "/node_modules/a/index.d.ts" ""

/-- Operations of all kinds around a project at the root. -/
def mixedOperations : List Operation :=
  [.openProject "p" "/" ["/main.ts"] {}, .queryProvider 0, .setMode .syntactic, .queryExports 0,
    .manifestChanged "/package.json" .changed, .setMode .semantic,
    .configure (.ofInclusion .off), .queryProvider 0, .configure (.ofInclusion .on),
    .dependencyChanged "/node_modules/a/package.json", .projectManifests 0]

/-- After operations of all kinds, the entry point of the listed package is answered. -/
theorem answersFresh_after_mixedOperations :
    ((startWith true {} .semantic 0).after .fileList installedTree mixedOperations).AnswersFresh
        .fileList installedTree 0 ∧
      (((startWith true {} .semantic 0).after .fileList installedTree
        mixedOperations).queryProvider .fileList installedTree.view 0).val.1.map Program.roots =
          some ["/node_modules/a/index.d.ts"] :=
  ⟨answersFresh_after Compiler.fileList_faithful installedTree {} .semantic 0 mixedOperations
    (by decide +kernel) 0, by decide +kernel⟩

end AutoImport.Session
