import AutoImport.Files.Memory
import AutoImport.Session

/-!
# Runs of a session

An `Operation` is one call that an editor makes to a session or to one of its projects.  Every
operation is given the file system as it is at that moment, so a run on a fixed tree is a fold over
operations, and a session on an edited tree is `Reachable` by operations each of which saw a tree of
its own.

A notification of a changed manifest tells the truth about a tree when it names a manifest and
reports a deletion only of what is not there (`Operation.Truthful`).
-/

set_option autoImplicit false

namespace AutoImport

/-- What may be asked of a single project. -/
inductive ProjectOperation where
  | setRoots (roots : List String)
  | setOptions (options : CompilerOptions)
  | setEnabled (isEnabled : Bool)
  | markDirty
  | settingsChanged
  | modeChanged (mode : SessionMode)
  | manifestChanged (fileName : String)
  | dependencyChanged (fileName : String)
  | seedSymlinks
  | setSpecifiers (specifiers : SpecifierCache)
  | close

/-- The project after an operation. -/
def ProjectOperation.run : ProjectOperation → Project → Project
  | .setRoots roots, project => project.setRoots roots
  | .setOptions options, project => project.setOptions options
  | .setEnabled isEnabled, project => project.setEnabled isEnabled
  | .markDirty, project => project.markDirty
  | .settingsChanged, project => project.settingsChanged
  | .modeChanged mode, project => project.modeChanged mode
  | .manifestChanged fileName, project => (project.manifestChanged fileName).2
  | .dependencyChanged fileName, project => (project.dependencyChanged fileName).2
  | .seedSymlinks, project => project.seedSymlinks
  | .setSpecifiers specifiers, project => { project with specifiers }
  | .close, project => project.close

/-- What may be asked of a session. -/
inductive Operation where
  | openProject (name directory : String) (roots : List String) (options : CompilerOptions)
  | closeProject (id : Nat)
  | configure (configuration : HostConfiguration)
  | setMode (mode : SessionMode)
  | updateGraph (id : Nat)
  | queryProvider (id : Nat)
  | queryExports (id : Nat)
  | projectManifests (id : Nat)
  | visibleManifests (fileName : String) (rootDirectory : Option String)
  | manifestChanged (fileName : String) (change : FileChange)
  | dependencyChanged (fileName : String)
  | onProject (id : Nat) (operation : ProjectOperation)

namespace Operation

/-- The session after an operation. -/
def run {σ : Type} (compiler : Compiler σ) (view : FileView) (session : Session σ) :
    Operation → Session σ
  | .openProject name directory roots options =>
    (session.openProject name directory roots options).2
  | .closeProject id => (session.closeProject id).2
  | .configure configuration => session.configure configuration
  | .setMode mode => session.setMode mode
  | .updateGraph id => (session.updateGraph compiler id).2
  | .queryProvider id => (session.queryProvider compiler view id).val.2
  | .queryExports id => (session.queryExports compiler view id).val.2
  | .projectManifests id => (session.projectManifests view id).val.2
  | .visibleManifests fileName rootDirectory =>
    (session.visibleManifests view fileName rootDirectory).val.2
  | .manifestChanged fileName change => (session.manifestChanged view fileName change).2
  | .dependencyChanged fileName => (session.dependencyChanged fileName).2
  | .onProject id operation => session.modifyProject id operation.run

/-- A change that is reported for a manifest names a manifest, and is a deletion only of one that
the tree does not have. -/
def Truthful (tree : MemoryTree) : Operation → Prop
  | .manifestChanged fileName change =>
    Path.baseName (tree.key fileName) = manifestName ∧
      (change = .deleted → tree.fileExists fileName = false)
  | _ => True

instance (tree : MemoryTree) (operation : Operation) : Decidable (operation.Truthful tree) := by
  unfold Truthful
  split <;> infer_instance

end Operation

namespace Session

variable {σ : Type}

/-- The session after operations on a tree that stays as it is. -/
def after (compiler : Compiler σ) (tree : MemoryTree) (operations : List Operation)
    (session : Session σ) : Session σ :=
  operations.foldl (fun session operation => operation.run compiler tree.view session) session

/-- The session after operations each of which is given the file system as it is at that moment. -/
def through (compiler : Compiler σ) (steps : List (FileView × Operation)) (session : Session σ) :
    Session σ :=
  steps.foldl (fun session step => step.2.run compiler step.1 session) session

/-- A new session over a file system, with the configuration and the mode that it is given. -/
def startWith (caseSensitive : Bool) (configuration : HostConfiguration) (mode : SessionMode)
    (state : σ) : Session σ :=
  { start caseSensitive state with configuration, mode }

/-- The sessions that operations lead to while the file system is edited in any way. -/
inductive Reachable (compiler : Compiler σ) (caseSensitive : Bool) : Session σ → Prop where
  | start (configuration : HostConfiguration) (mode : SessionMode) (state : σ) :
    Reachable compiler caseSensitive (startWith caseSensitive configuration mode state)
  | step {session : Session σ} (tree : MemoryTree) (operation : Operation)
    (h : Reachable compiler caseSensitive session) (htree : tree.caseSensitive = caseSensitive) :
    Reachable compiler caseSensitive (operation.run compiler tree.view session)

end Session

/-! ## Compilers that can be relied on -/

namespace Compiler

variable {σ : Type}

/-- What sessions rely on from a compiler that knows, in each of its states, the programs that it
has handed out: a program is made of the roots that it was asked for, and a program that has the
identity of the one to be replaced is that one. -/
structure Faithful (compiler : Compiler σ) (knows : σ → Program → Prop) : Prop where
  roots : ∀ request state, (compiler.build request state).1.roots = request.roots
  same : ∀ request state old, request.old = some old → knows state old →
    (compiler.build request state).1.id = old.id → (compiler.build request state).1 = old
  built : ∀ request state, (∀ old, request.old = some old → knows state old) →
    knows (compiler.build request state).2 (compiler.build request state).1
  kept : ∀ request state program, knows state program →
    knows (compiler.build request state).2 program

/-- The compiler of root files numbers its programs, so it can be relied on. -/
theorem fileList_faithful : fileList.Faithful fun built program => program.id ≤ built := by
  have hcases : ∀ request built,
      (∃ old, request.old = some old ∧ old.roots = request.roots ∧
        fileList.build request built = (old, built)) ∨
      fileList.build request built =
        ({ id := built + 1, roots := request.roots, sources := request.roots }, built + 1) := by
    intro request built
    unfold fileList
    dsimp only
    cases hold : request.old with
    | none => exact Or.inr rfl
    | some old =>
      dsimp only
      split
      · rename_i hroots
        exact Or.inl ⟨old, rfl, hroots, rfl⟩
      · exact Or.inr rfl
  refine ⟨?_, ?_, ?_, ?_⟩
  · intro request built
    rcases hcases request built with ⟨old, -, hroots, hbuild⟩ | hbuild
    · rw [hbuild]
      exact hroots
    · rw [hbuild]
  · intro request built old hold hknown hid
    rcases hcases request built with ⟨other, hother, -, hbuild⟩ | hbuild
    · rw [hbuild]
      exact Option.some.inj (hother.symm.trans hold)
    · rw [hbuild] at hid
      have hnew : built + 1 = old.id := hid
      omega
  · intro request built hknown
    rcases hcases request built with ⟨old, hold, -, hbuild⟩ | hbuild
    · rw [hbuild]
      exact hknown old hold
    · exact Nat.le_of_eq (by rw [hbuild])
  · intro request built program hknown
    rcases hcases request built with ⟨old, -, -, hbuild⟩ | hbuild
    · rw [hbuild]
      exact hknown
    · rw [hbuild]
      exact Nat.le_succ_of_le hknown

end Compiler

end AutoImport
