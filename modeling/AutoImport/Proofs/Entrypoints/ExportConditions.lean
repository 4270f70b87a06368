import AutoImport.Proofs.Entrypoints.AcceptedFiles
import Mathlib.Logic.Relation

/-!
# Conditions that do not apply

An export map offers a package under conditions.  Most of them are for other readers: bundlers,
browsers, other compilers.  Members under such keys never matter below the top of the map, where the
keys are conditions and nothing else: whether they are there, what they hold and in which order they
stand.

The walk through an object looks for the first member that applies, so one more member that does not
apply leaves every walk as it is (`Entrypoints.Context.walkTarget_eq_of_gains`), and with it the
whole map (`Entrypoints.walkExports_eq_of_gains`).  Two maps that lead into each other by adding and
removing such members give the same entry points, found by the same probes
(`entrypoints_eq_of_sameConditions`).  At the top of a map this does not hold: there one more key
may turn subpaths into conditions.
-/

set_option autoImplicit false

namespace AutoImport

namespace Json

/-- The second value is the first with one more member, under a key with the property, in an object
that lies inside `depth` others. -/
inductive Value.Gains (P : String → Prop) : Nat → Value → Value → Prop where
  | here (before after : List (String × Value)) {key : String} (value : Value) :
      P key → Gains P 0 (.object (before ++ after)) (.object (before ++ (key, value) :: after))
  | member {depth : Nat} {first second : Value} (before after : List (String × Value))
      (key : String) : Gains P depth first second →
      Gains P (depth + 1) (.object (before ++ (key, first) :: after))
        (.object (before ++ (key, second) :: after))
  | element {depth : Nat} {first second : Value} (before after : List Value) :
      Gains P depth first second →
      Gains P (depth + 1) (.array (before ++ first :: after)) (.array (before ++ second :: after))

end Json

namespace Entrypoints

/-- A key under which neither an `import` nor a `require` looks. -/
structure Inapplicable (options : CompilerOptions) (key : String) : Prop where
  notDefault : key ≠ "default"
  notImport : key ≠ "import"
  notRequire : key ≠ "require"
  notTypes : key ≠ "types"
  notNode : options.resolution ≠ .bundler → key ≠ "node"
  notVersioned : ∀ range, key = "types@" ++ range → VersionRange.admits range .compiler = false

/-- The second export map is the first with one more member that does not apply, below the top. -/
def GainsCondition (options : CompilerOptions) (first second : Json.Value) : Prop :=
  ∃ depth, 0 < depth ∧ first.Gains (Inapplicable options) depth second

/-- Export maps that differ by members that do not apply, below the top. -/
def SameConditions (options : CompilerOptions) : Json.Value → Json.Value → Prop :=
  Relation.EqvGen (GainsCondition options)

/-- A key that does not apply is none of the conditions, of an `import` or of a `require`. -/
theorem Inapplicable.not_mem_conditions {options : CompilerOptions} {key : String}
    (h : Inapplicable options key) (isImport : Bool) : key ∉ conditions options isImport := by
  intro hmem
  unfold conditions at hmem
  rcases List.mem_append.1 hmem with hmode | hnode
  · simp only [List.mem_cons, List.not_mem_nil, or_false] at hmode
    rcases hmode with hmode | htypes
    · cases isImport with
      | true => exact h.notImport hmode
      | false => exact h.notRequire hmode
    · exact h.notTypes htypes
  · split at hnode
    · simp at hnode
    · rename_i hbundler
      exact h.notNode hbundler (List.mem_singleton.1 hnode)

/-- Such a key is taken under neither set of conditions. -/
theorem Inapplicable.applies_eq_false {options : CompilerOptions} {key : String}
    (h : Inapplicable options key) {context : Context} {isImport : Bool}
    (hcontext : context.conditions = conditions options isImport) :
    context.applies key = false := by
  unfold Context.applies
  rw [hcontext, Bool.or_eq_false_iff, Bool.or_eq_false_iff, Bool.and_eq_false_iff]
  refine ⟨⟨decide_eq_false h.notDefault, decide_eq_false (h.not_mem_conditions isImport)⟩,
    Or.inr ?_⟩
  split
  · rename_i range hrange
    apply h.notVersioned
    have happend := List.isPrefixOf?_eq_some_iff_append_eq.1 hrange
    rw [← String.toList_inj, String.toList_append, ← happend]
    exact congrArg ("types@".toList ++ ·) String.toList_ofList.symm
  · rfl

/-- Whether the members at the top are subpaths depends on all their keys, not on their values. -/
theorem topTargets_object_append (before after : List (String × Json.Value)) (key : String)
    (value : Json.Value) : topTargets (.object (before ++ (key, value) :: after)) =
      if (before.map Prod.fst ++ key :: after.map Prod.fst).all (Text.startsWith ".") then
        before.map Prod.snd ++ value :: after.map Prod.snd
      else [.object (before ++ (key, value) :: after)] := by
  have hnonempty : (before ++ (key, value) :: after).isEmpty = false := by simp
  have hkeys : before.map Prod.fst ++ key :: after.map Prod.fst =
      (before ++ (key, value) :: after).map Prod.fst := by simp
  have hvalues : before.map Prod.snd ++ value :: after.map Prod.snd =
      (before ++ (key, value) :: after).map Prod.snd := by simp
  rw [topTargets, hnonempty, hkeys, hvalues, List.all_map]
  rfl

/-! ## Walks that agree -/

section Agreement

variable (context : Context)

/-- What stands before a place in an object is walked in the same way whatever stands there. -/
theorem Context.walkApplicable_append (before : List (String × Json.Value))
    {first second : List (String × Json.Value)} {surface : Surface}
    (h : context.walkApplicable first surface = context.walkApplicable second surface) :
    context.walkApplicable (before ++ first) surface =
      context.walkApplicable (before ++ second) surface := by
  induction before with
  | nil => exact h
  | cons entry rest ih =>
    obtain ⟨key, target⟩ := entry
    rw [List.cons_append, List.cons_append, walkApplicable, walkApplicable, ih]

/-- An array is walked alike whatever stands before two targets that are. -/
theorem Context.walkFirst_append (before after : List Json.Value) {first second : Json.Value}
    (h : ∀ surface, context.walkTarget first surface = context.walkTarget second surface)
    (surface : Surface) :
    context.walkFirst (before ++ first :: after) surface =
      context.walkFirst (before ++ second :: after) surface := by
  induction before generalizing surface with
  | nil =>
    rw [List.nil_append, List.nil_append, walkFirst, walkFirst, h]
  | cons target rest ih =>
    rw [List.cons_append, List.cons_append, walkFirst, walkFirst]
    simp only [ih]

/-- All targets of a list are walked alike whatever stands before two targets that are. -/
theorem Context.walkAll_append (before after : List Json.Value) {first second : Json.Value}
    (h : ∀ surface, context.walkTarget first surface = context.walkTarget second surface)
    (surface : Surface) :
    context.walkAll (before ++ first :: after) surface =
      context.walkAll (before ++ second :: after) surface := by
  induction before generalizing surface with
  | nil => rw [List.nil_append, List.nil_append, walkAll, walkAll, h]
  | cons target rest ih =>
    rw [List.cons_append, List.cons_append, walkAll, walkAll]
    simp only [ih]

variable {context} {P : String → Prop} (hskips : ∀ key, P key → context.applies key = false)

include hskips

/-- One more member that does not apply leaves the walk through a target as it is.  The induction
goes down to the object that gains the member. -/
theorem Context.walkTarget_eq_of_gains {depth : Nat} {first second : Json.Value}
    (h : first.Gains P depth second) (surface : Surface) :
    context.walkTarget first surface = context.walkTarget second surface := by
  induction h generalizing surface with
  | here before after value hkey =>
    rw [walkTarget, walkTarget]
    apply context.walkApplicable_append before
    rw [walkApplicable, hskips _ hkey, if_neg Bool.false_ne_true]
  | member before after key _ ih =>
    rw [walkTarget, walkTarget]
    apply context.walkApplicable_append before
    rw [walkApplicable, walkApplicable, ih]
  | element before after _ ih =>
    rw [walkTarget, walkTarget]
    exact context.walkFirst_append before after ih surface

/-- Below the top, one more such member leaves the walk through all top targets as it is.  The keys
at the top stay, so subpaths stay subpaths and conditions stay conditions. -/
theorem Context.walkAll_topTargets_eq_of_gains {depth : Nat} {first second : Json.Value}
    (h : first.Gains P (depth + 1) second) (surface : Surface) :
    context.walkAll (topTargets first) surface = context.walkAll (topTargets second) surface := by
  have hwhole : context.walkTarget first = context.walkTarget second :=
    funext (walkTarget_eq_of_gains hskips h)
  cases h with
  | member before after key hinner =>
    rw [topTargets_object_append, topTargets_object_append]
    split
    · exact context.walkAll_append _ _ (walkTarget_eq_of_gains hskips hinner) surface
    · rw [walkAll, walkAll, hwhole]
  | element before after hinner =>
    exact context.walkAll_append before after (walkTarget_eq_of_gains hskips hinner) surface

end Agreement

/-- One more member that does not apply, below the top, adds nothing to the entry points and takes
nothing from them. -/
theorem walkExports_eq_of_gains {options : CompilerOptions} {first second : Json.Value}
    (h : GainsCondition options first second) (view : FileView) (kind : EntryKind)
    (directory : String) (surface : Surface) :
    walkExports view kind options directory first surface =
      walkExports view kind options directory second surface := by
  obtain ⟨depth, hdepth, hgains⟩ := h
  obtain ⟨above, rfl⟩ := Nat.exists_eq_add_one_of_ne_zero (Nat.pos_iff_ne_zero.1 hdepth)
  have hwalk : ∀ isImport : Bool, ∀ surface : Surface,
      let context : Context := { view, kind, directory, conditions := conditions options isImport }
      context.walkAll (topTargets first) surface = context.walkAll (topTargets second) surface :=
    fun isImport => Context.walkAll_topTargets_eq_of_gains
      (fun _ hkey => hkey.applies_eq_false (show _ = conditions options isImport from rfl)) hgains
  unfold walkExports
  simp only [hwalk]

/-- Maps that differ by conditions that do not apply are walked alike from any surface. -/
theorem walkExports_eq_of_sameConditions {options : CompilerOptions} {first second : Json.Value}
    (h : SameConditions options first second) (view : FileView) (kind : EntryKind)
    (directory : String) (surface : Surface) :
    walkExports view kind options directory first surface =
      walkExports view kind options directory second surface := by
  induction h with
  | rel first second hgains => exact walkExports_eq_of_gains hgains view kind directory surface
  | refl exports => rfl
  | symm first second _ ih => exact ih.symm
  | trans first second third _ _ hfirst hsecond => exact hfirst.trans hsecond

end Entrypoints

open Entrypoints

/-- Take two export maps that lead into each other by adding and removing members of nested objects
whose keys do not apply.  A package has the same entry points with the one as with the other, in the
same order, and the same files are probed to find them. -/
theorem entrypoints_eq_of_sameConditions {options : CompilerOptions} {first second : Json.Value}
    (h : SameConditions options first second) (view : FileView) (kind : EntryKind)
    (manifest : Manifest) :
    entrypoints view kind options { manifest with exports := some first } =
      entrypoints view kind options { manifest with exports := some second } := by
  have hmain : ∀ exports : Json.Value,
      mainFile? view kind { manifest with exports := some exports } =
        mainFile? view kind manifest := fun _ => rfl
  unfold entrypoints
  rw [hmain, hmain]
  dsimp only
  cases options.resolvesExports with
  | false => rfl
  | true =>
    dsimp only
    simp only [walkExports_eq_of_sameConditions h]

/-- At the top one more member matters: with it `.` is no subpath any more but a condition, which
does not apply. -/
example :
    (walkExports nestedPackages.view .typed {} "/w/a"
        (.object [(".", .text "./lib/b.d.ts")]) {}).val.files = ["/w/a/lib/b.d.ts"] ∧
      (walkExports nestedPackages.view .typed {} "/w/a"
        (.object [(".", .text "./lib/b.d.ts"), ("bundle", .null)]) {}).val.files = [] := by
  decide +kernel

/-- An export map with a member for another bundler and one for older compilers, and with a member
for that bundler further inside. -/
def libraryOrBundle : Json.Value :=
  .object [(".", .object [("bundle", .text "./index.js"), ("types@<5", .null),
    ("import", .array [.object [("bundle", .null), ("default", .text "./lib/b.d.ts")]])])]

/-- The same without the members that do not apply. -/
def libraryAlone : Json.Value :=
  .object [(".", .object [("import", .array [.object [("default", .text "./lib/b.d.ts")]])])]

/-- No mode looks under `bundle`. -/
theorem inapplicable_bundle (options : CompilerOptions) : Inapplicable options "bundle" where
  notDefault := by decide
  notImport := by decide
  notRequire := by decide
  notTypes := by decide
  notNode _ := by decide
  notVersioned range h := by
    have hfirst := congrArg (fun text => text.toList.head?) h
    simp at hfirst

/-- Typings for compilers before 5 do not apply. -/
theorem inapplicable_olderTypes (options : CompilerOptions) : Inapplicable options "types@<5" where
  notDefault := by decide
  notImport := by decide
  notRequire := by decide
  notTypes := by decide
  notNode _ := by decide
  notVersioned range h := by
    have hrange : range.toList = "<5".toList := by
      have hchars := congrArg String.toList h
      rw [String.toList_append] at hchars
      exact (@List.append_cancel_left _ "types@".toList _ _ hchars).symm
    rw [String.toList_inj.1 hrange]
    decide +kernel

/-- The example maps differ by a condition that does not apply. -/
theorem sameConditions_libraryOrBundle (options : CompilerOptions) :
    SameConditions options libraryOrBundle libraryAlone := by
  have hbundle := inapplicable_bundle options
  have htypes := inapplicable_olderTypes options
  let inner : List (String × Json.Value) :=
    [("import", .array [.object [("bundle", .null), ("default", .text "./lib/b.d.ts")]])]
  have hinner : GainsCondition options libraryAlone (.object [(".", .object inner)]) :=
    ⟨3, by decide, .member [] [] "." (.member [] [] "import" (.element [] []
      (.here [] [("default", .text "./lib/b.d.ts")] .null hbundle)))⟩
  have hmiddle : GainsCondition options (.object [(".", .object inner)])
      (.object [(".", .object (("types@<5", .null) :: inner))]) :=
    ⟨1, by decide, .member [] [] "." (.here [] inner .null htypes)⟩
  have houter : GainsCondition options (.object [(".", .object (("types@<5", .null) :: inner))])
      libraryOrBundle :=
    ⟨1, by decide, .member [] [] "."
      (.here [] (("types@<5", .null) :: inner) (.text "./index.js") hbundle)⟩
  exact ((Relation.EqvGen.rel _ _ hinner).trans _ _ _
    ((Relation.EqvGen.rel _ _ hmiddle).trans _ _ _ (.rel _ _ houter))).symm _ _

/-- The example package has the same entry points, found by the same probes, with and without
`bundle`. -/
theorem entrypoints_eq_of_sameConditions_libraryOrBundle :
    let options : CompilerOptions := { resolvePackageJsonExports := some true }
    let manifest : Manifest := { fileName := "/w/a/package.json", directory := "/w/a" }
    SameConditions options libraryOrBundle libraryAlone ∧
      (entrypoints nestedPackages.view .typed options
        { manifest with exports := some libraryOrBundle }).val =
        some ["/w/a/index.d.ts", "/w/a/lib/b.d.ts"] := by
  intro options manifest
  have hsame := sameConditions_libraryOrBundle options
  have hentries : (entrypoints nestedPackages.view .typed options
      { manifest with exports := some libraryAlone }).val =
        some ["/w/a/index.d.ts", "/w/a/lib/b.d.ts"] := by
    decide +kernel
  refine ⟨hsame, ?_⟩
  rw [entrypoints_eq_of_sameConditions hsame nestedPackages.view .typed manifest]
  exact hentries

end AutoImport
