/-!
# Probed computations

Looking up packages costs existence probes, and a cache is there to save them.  A `Probed` value is
a value together with the paths whose existence was probed to find it, in order.  Computations that
probe are sequenced in the usual way; their values never depend on the record of probes.
-/

set_option autoImplicit false

namespace AutoImport

/-- A value and the paths that were probed to find it. -/
structure Probed (α : Type) where
  val : α
  probes : List String := []
  deriving Repr, Inhabited

namespace Probed

variable {α β : Type}

instance : Monad Probed where
  pure a := ⟨a, []⟩
  bind q f := ⟨(f q.val).val, q.probes ++ (f q.val).probes⟩

/-- One probe of a path, with its answer. -/
def probe (fileExists : String → Bool) (path : String) : Probed Bool :=
  ⟨fileExists path, [path]⟩

/-- The first path that exists, probing in order and no further. -/
def firstExisting? (fileExists : String → Bool) : List String → Probed (Option String)
  | [] => pure none
  | path :: rest => do
    if ← probe fileExists path then return some path
    else firstExisting? fileExists rest

/-- The first result among the elements, looking no further than it. -/
def findSome? (f : α → Probed (Option β)) : List α → Probed (Option β)
  | [] => pure none
  | a :: rest => do
    match ← f a with
    | some b => return some b
    | none => findSome? f rest

/-- The first result, or else the second, which is not looked for before the first has failed. -/
def orElse (first : Probed (Option α)) (second : Unit → Probed (Option α)) : Probed (Option α) := do
  match ← first with
  | some a => return some a
  | none => second ()

/-- A pure value is its own answer. -/
@[simp] theorem val_pure (a : α) : (pure a : Probed α).val = a := rfl

/-- A pure value probes no file. -/
@[simp] theorem probes_pure (a : α) : (pure a : Probed α).probes = [] := rfl

/-- A sequence answers what its second half answers on the first half's value. -/
@[simp] theorem val_bind (q : Probed α) (f : α → Probed β) : (q >>= f).val = (f q.val).val := rfl

/-- A sequence probes what its first half probes, then what its second half does. -/
@[simp] theorem probes_bind (q : Probed α) (f : α → Probed β) :
    (q >>= f).probes = q.probes ++ (f q.val).probes := rfl

/-- What follows a computation matters at its value only. -/
theorem bind_congr_val {q : Probed α} {f g : α → Probed β} (h : f q.val = g q.val) :
    q >>= f = q >>= g := by
  show Probed.mk _ _ = Probed.mk _ _
  rw [h]

/-- A probe answers what the file system does. -/
@[simp] theorem val_probe (fileExists : String → Bool) (path : String) :
    (probe fileExists path).val = fileExists path := rfl

/-- A probe reports the one path it asked for. -/
@[simp] theorem probes_probe (fileExists : String → Bool) (path : String) :
    (probe fileExists path).probes = [path] := rfl

instance : LawfulMonad Probed :=
  LawfulMonad.mk' Probed (fun _ => by simp [Functor.map]) (fun _ _ => rfl)
    (fun _ _ _ => by simp [bind])

end Probed

end AutoImport
