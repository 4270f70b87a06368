import AutoImport.Proofs.Entrypoints.TargetPaths

/-!
# Targets of an export map

Every file that an export map adds to the entry points is one that some text of the map leads to
(`Entrypoints.mem_walkExports`).  The text is meant to name something inside its package, and a
target without `*` is checked for that: behind its first segment there may be no `.`, `..` or
`node_modules`.  The check looks at the text as it is written, though.  The path is put together
afterwards, when blanks at the end are dropped, backslashes become slashes and a rooted rest stands
for itself.  And a target with a `*` is not checked at all.

So a target stays inside its package when its text up to the `*` is written plainly, and a pattern
only if that text would have passed the check (`Entrypoints.walkExports_within`).  For each part of
this condition there is a target that leaves the package
(`Entrypoints.walkExports_escapes`). -/

set_option autoImplicit false

namespace AutoImport

namespace Text

/-- A text that splits into two pieces is the two around one separator. -/
theorem eq_of_splitOn_eq_pair {sep : Char} {text first second : Chars}
    (h : splitOn sep text = [first, second]) : text = first ++ sep :: second := by
  rw [← joinWith_splitOn sep text, h]
  rfl

end Text

namespace Json

/-- A text occurs somewhere in a value, other than as a name. -/
inductive Value.HasText (text : String) : Value → Prop where
  | text : Value.HasText text (.text text)
  | array {elements : List Value} {element : Value} (hmem : element ∈ elements)
    (h : element.HasText text) : Value.HasText text (.array elements)
  | object {members : List (String × Value)} {name : String} {value : Value}
    (hmem : (name, value) ∈ members) (h : value.HasText text) : Value.HasText text (.object members)

end Json

namespace Entrypoints

/-! ## Where entry points come from -/

/-- No segment behind the first is `.`, `..` or `node_modules`. -/
def Descends (text : Chars) : Prop :=
  ∀ part ∈ (Text.splitOn '/' text).tail,
    part ≠ ['.', '.'] ∧ part ≠ ['.'] ∧ part ≠ packagesName.toList
  deriving Decidable

/-- A target of an export map leads to a file: the file is what the target stands for, or it matches
the target's pattern. -/
inductive Leads (view : FileView) (kind : EntryKind) (directory target file : String) : Prop where
  | exact (hrelative : Text.startsWith "./" target = true) (hstar : '*' ∉ target.toList)
    (hdescends : Descends target.toList)
    (hfile : (file? view kind (packagePath directory target)).val = some file)
  | pattern (start rest : Chars) (hrelative : Text.startsWith "./" target = true)
    (hsplit : Text.splitOn '*' target.toList = [start, rest])
    (hfound : file ∈ filesBelow view (patternRoot directory (.ofList start)))
    (hstart : Text.startsWith (packagePath directory (.ofList start)) file = true)
    (haccepts : kind.accepts file = true)

/-- A target descends when the check of its segments finds nothing to refuse. -/
theorem descends_iff (target : String) :
    Descends target.toList ↔ (Path.segments target).tail.any
      (fun part => part = ".." || part = "." || part = packagesName) = false := by
  unfold Descends Path.segments
  rw [← List.map_tail, List.any_map, List.any_eq_false]
  refine forall₂_congr fun part _ => ?_
  have hpart : ∀ text : String, String.ofList part = text ↔ part = text.toList := by
    intro text
    rw [← String.toList_inj, String.toList_ofList]
  simp only [Function.comp, hpart, Bool.or_eq_true, decide_eq_true_eq, not_or, and_assoc]
  rfl

/-- Following a target adds files that the target leads to. -/
theorem Context.mem_loadTarget (context : Context) (target : String) (surface : Surface)
    {file : String} (h : file ∈ (context.loadTarget target surface).val.2.files) :
    file ∈ surface.files ∨ Leads context.view context.kind context.directory target file := by
  unfold loadTarget at h
  split at h
  · exact Or.inl h
  · rename_i hrelative
    rw [Bool.not_eq_true, Bool.not_eq_false'] at hrelative
    split at h
    · rename_i text hsplit
      split at h
      · exact Or.inl h
      · rename_i hcheck
        have htext : text = target.toList := by
          rw [← Text.joinWith_splitOn '*' target.toList, hsplit]
          rfl
        have hstar : '*' ∉ target.toList := by
          rw [← htext]
          exact Text.not_mem_of_mem_splitOn (hsplit ▸ List.mem_singleton_self text)
        have hdescends := (descends_iff target).2 (Bool.eq_false_iff.2 hcheck)
        rw [Probed.val_bind] at h
        split at h
        · rename_i found hfound
          rcases (mem_insertNew _ _ _).1 h with h | rfl
          · exact Or.inl h
          · exact Or.inr (.exact hrelative hstar hdescends hfound)
        · exact Or.inl h
    · rename_i start rest hsplit
      rcases mem_files_foldl_addMatch _ h with h | h
      · exact Or.inl h
      · obtain ⟨hfound, hmatch⟩ := List.mem_filter.1 h
        rw [Bool.and_eq_true] at hmatch
        exact Or.inr (.pattern start rest hrelative hsplit hfound hmatch.1 hmatch.2)
    · exact Or.inl h

mutual

/-- Walking a value adds files that its texts lead to. -/
theorem Context.mem_walkTarget (context : Context) : ∀ (value : Json.Value) (surface : Surface)
    {file : String}, file ∈ (context.walkTarget value surface).val.2.files →
      file ∈ surface.files ∨ ∃ target, value.HasText target ∧
        Leads context.view context.kind context.directory target file
  | .text target, surface, file, h => by
    rw [walkTarget] at h
    exact (context.mem_loadTarget target surface h).imp_right fun hleads => ⟨target, .text, hleads⟩
  | .array targets, surface, file, h => by
    rw [walkTarget] at h
    refine (context.mem_walkFirst targets surface h).imp_right ?_
    rintro ⟨value, hvalue, target, htext, hleads⟩
    exact ⟨target, .array hvalue htext, hleads⟩
  | .object members, surface, file, h => by
    rw [walkTarget] at h
    refine (context.mem_walkApplicable members surface h).imp_right ?_
    rintro ⟨name, value, hvalue, target, htext, hleads⟩
    exact ⟨target, .object hvalue htext, hleads⟩
  | .null, surface, file, h => by
    rw [walkTarget] at h
    exact Or.inl h
  | .bool _, surface, file, h => by
    rw [walkTarget] at h
    exact Or.inl h
  | .number _, surface, file, h => by
    rw [walkTarget] at h
    exact Or.inl h

/-- A file that the first loading alternative adds comes from a text of one of the alternatives. -/
theorem Context.mem_walkFirst (context : Context) : ∀ (values : List Json.Value)
    (surface : Surface) {file : String}, file ∈ (context.walkFirst values surface).val.2.files →
      file ∈ surface.files ∨ ∃ value ∈ values, ∃ target, value.HasText target ∧
        Leads context.view context.kind context.directory target file
  | [], surface, file, h => by
    rw [walkFirst] at h
    exact Or.inl h
  | value :: rest, surface, file, h => by
    have hhead : file ∈ (context.walkTarget value surface).val.2.files → file ∈ surface.files ∨
        ∃ other ∈ value :: rest, ∃ target, other.HasText target ∧
          Leads context.view context.kind context.directory target file := fun hmem =>
      (context.mem_walkTarget value surface hmem).imp_right fun hleads =>
        ⟨value, List.mem_cons_self, hleads⟩
    rw [walkFirst, Probed.val_bind] at h
    dsimp only at h
    split at h
    · exact hhead h
    · rcases context.mem_walkFirst rest _ h with h | ⟨other, hother, hleads⟩
      · exact hhead h
      · exact Or.inr ⟨other, List.mem_cons_of_mem _ hother, hleads⟩

/-- A file that the applicable conditions add comes from a text under one of the members. -/
theorem Context.mem_walkApplicable (context : Context) : ∀ (members : List (String × Json.Value))
    (surface : Surface) {file : String},
    file ∈ (context.walkApplicable members surface).val.2.files →
      file ∈ surface.files ∨ ∃ name value, (name, value) ∈ members ∧ ∃ target,
        value.HasText target ∧ Leads context.view context.kind context.directory target file
  | [], surface, file, h => by
    rw [walkApplicable] at h
    exact Or.inl h
  | (name, value) :: rest, surface, file, h => by
    rw [walkApplicable] at h
    split at h
    · exact (context.mem_walkTarget value surface h).imp_right fun hleads =>
        ⟨name, value, List.mem_cons_self, hleads⟩
    · refine (context.mem_walkApplicable rest surface h).imp_right ?_
      rintro ⟨other, otherValue, hmem, hleads⟩
      exact ⟨other, otherValue, List.mem_cons_of_mem _ hmem, hleads⟩

end

/-- A file that a list of values adds comes from a text in one of them. -/
theorem Context.mem_walkAll (context : Context) (values : List Json.Value) {surface : Surface}
    {file : String} (h : file ∈ (context.walkAll values surface).val.files) :
    file ∈ surface.files ∨ ∃ value ∈ values, ∃ target, value.HasText target ∧
      Leads context.view context.kind context.directory target file := by
  induction values generalizing surface with
  | nil => exact Or.inl h
  | cons value rest ih =>
    rw [walkAll, Probed.val_bind] at h
    rcases ih h with h | ⟨other, hother, hleads⟩
    · exact (context.mem_walkTarget value surface h).imp_right fun hleads =>
        ⟨value, List.mem_cons_self, hleads⟩
    · exact Or.inr ⟨other, List.mem_cons_of_mem _ hother, hleads⟩

/-- A text in one of the top targets is a text of the whole map. -/
theorem hasText_of_mem_topTargets {exports value : Json.Value} (h : value ∈ topTargets exports)
    {text : String} (htext : value.HasText text) : exports.HasText text := by
  unfold topTargets at h
  split at h
  · exact .array h htext
  · split at h
    · obtain ⟨⟨name, value⟩, hmem, rfl⟩ := List.mem_map.1 h
      exact .object hmem htext
    · rwa [List.mem_singleton.1 h] at htext
  · rwa [List.mem_singleton.1 h] at htext

/-- Every file that an export map adds is one that a text of the map leads to. -/
theorem mem_walkExports {view : FileView} {kind : EntryKind} {options : CompilerOptions}
    {directory : String} {exports : Json.Value} {surface : Surface} {file : String}
    (h : file ∈ (walkExports view kind options directory exports surface).val.files) :
    file ∈ surface.files ∨ ∃ target, exports.HasText target ∧
      Leads view kind directory target file := by
  rcases Context.mem_walkAll _ _ h with h | ⟨value, hvalue, target, htext, hleads⟩
  · rcases Context.mem_walkAll _ _ h with h | ⟨value, hvalue, target, htext, hleads⟩
    · exact Or.inl h
    · exact Or.inr ⟨target, hasText_of_mem_topTargets hvalue htext, hleads⟩
  · exact Or.inr ⟨target, hasText_of_mem_topTargets hvalue htext, hleads⟩

/-! ## Paths inside the package -/

/-- The text of a target up to its `*`, or all of it. -/
def fixedText (target : String) : Chars :=
  (Text.splitOn '*' target.toList).headD []

/-- A target whose text up to the `*` is written plainly.  A pattern must moreover pass the check
that is made of other targets, and those must name something. -/
def StaysInside (target : String) : Prop :=
  PlainlyWritten (fixedText target) ∧ ('*' ∈ target.toList → Descends (fixedText target)) ∧
    ('*' ∉ target.toList → fixedText target ≠ ['.', '/'])
  deriving Decidable

/-- Behind `./` a target descends when none of its segments goes up, stays or is `node_modules`. -/
theorem descends_cons_iff {rest : Chars} :
    Descends ('.' :: '/' :: rest) ↔ ∀ part ∈ Text.splitOn '/' rest,
      part ≠ ['.', '.'] ∧ part ≠ ['.'] ∧ part ≠ packagesName.toList := by
  have hdot : '/' ∉ ['.'] := by decide
  have hsplit : Text.splitOn '/' ('.' :: '/' :: rest) = ['.'] :: Text.splitOn '/' rest :=
    Text.splitOn_append hdot rest
  unfold Descends
  rw [hsplit, List.tail_cons]

/-- A target that starts with `./` has the rest behind it. -/
theorem exists_rest_of_startsWith {target : String} (h : Text.startsWith "./" target = true) :
    ∃ rest, target.toList = '.' :: '/' :: rest := by
  obtain ⟨rest, hrest⟩ := List.isPrefixOf_iff_prefix.1 h
  exact ⟨rest, hrest.symm⟩

/-- A target that descends has no segment that stays or goes up. -/
theorem goesDown_of_descends {rest : Chars} (h : Descends ('.' :: '/' :: rest)) :
    GoesDown rest := by
  intro part hpart
  obtain ⟨hup, hhere, -⟩ := descends_cons_iff.1 h part hpart
  exact ⟨hhere, hup⟩

/-- A target that descends does not go into `node_modules`. -/
theorem packagesName_not_mem_keptSegments {rest : Chars} (h : Descends ('.' :: '/' :: rest)) :
    packagesName.toList ∉ Chars.keptSegments rest := by
  intro hmem
  exact (descends_cons_iff.1 h _ (Chars.mem_keptSegments hmem).1).2.2 rfl

/-- Wherever a pattern looks for files, no segment below the package directory is `node_modules`. -/
theorem reached_patternRoot {directory : String} {segments : List Chars}
    (hsegments : ∀ segment ∈ segments, Chars.IsSegment segment)
    (hdirectory : directory.toList = Chars.build ['/'] segments) {rest : Chars}
    (hplain : PlainlyWritten ('.' :: '/' :: rest)) (hdescends : Descends ('.' :: '/' :: rest)) :
    ∃ more, (∀ segment ∈ segments ++ more, Chars.IsSegment segment) ∧ packagesName.toList ∉ more ∧
      Reached (segments ++ more) (patternRoot directory (.ofList ('.' :: '/' :: rest))).toList := by
  have hdown := goesDown_of_descends hdescends
  have hall := isSegment_of_mem_append hsegments hplain hdown
  have hpackages := packagesName_not_mem_keptSegments hdescends
  cases hends : Text.endsWith "/" (.ofList ('.' :: '/' :: rest)) with
  | true =>
    exact ⟨_, hall, hpackages, reached_patternRoot_of_slash hsegments hdirectory hplain hdown hends⟩
  | false =>
    refine ⟨_, ?_, fun hmem => hpackages (List.dropLast_subset _ hmem),
      reached_patternRoot_of_name hsegments hdirectory hplain hdown hends⟩
    refine List.forall_mem_append.2 ⟨hsegments, fun segment hsegment => ?_⟩
    exact hall segment (List.mem_append_right _ (List.dropLast_subset _ hsegment))

/-- A path accepted as a file is found under one of its spellings. -/
theorem mem_spellings_of_file? {view : FileView} {kind : EntryKind} {path file : String}
    (h : (file? view kind path).val = some file) : file ∈ kind.spellings path := by
  unfold file? at h
  generalize kind.spellings path = candidates at h ⊢
  induction candidates with
  | nil => simp [Probed.firstExisting?] at h
  | cons candidate rest ih =>
    rw [Probed.firstExisting?, Probed.val_bind] at h
    split at h
    · rw [← Option.some.inj h]
      exact List.mem_cons_self
    · exact List.mem_cons_of_mem _ (ih h)

/-- The text before the `*` of a pattern begins with `./` if the pattern does. -/
theorem exists_rest_of_pattern {target : String} {start ending : Chars}
    (hrelative : Text.startsWith "./" target = true)
    (hsplit : Text.splitOn '*' target.toList = [start, ending]) :
    ∃ rest, start = '.' :: '/' :: rest := by
  obtain ⟨rest, hrest⟩ := exists_rest_of_startsWith hrelative
  rw [Text.eq_of_splitOn_eq_pair hsplit] at hrest
  match start, hrest with
  | [], hrest => exact absurd (List.cons.inj hrest).1 (by decide)
  | [c], hrest => exact absurd (List.cons.inj (List.cons.inj hrest).2).1 (by decide)
  | c :: d :: tail, hrest =>
    simp only [List.cons_append, List.cons.injEq] at hrest
    exact ⟨tail, by rw [hrest.1, hrest.2.1]⟩

/-- A target that stays inside leads to files that segments other than `node_modules` lead to from
the package directory. -/
theorem exists_segments_of_leads {view : FileView} (hview : view.ListsNames) {kind : EntryKind}
    {directory target file : String} {segments : List Chars}
    (hsegments : ∀ segment ∈ segments, Chars.IsSegment segment)
    (hdirectory : directory.toList = Chars.build ['/'] segments)
    (h : Leads view kind directory target file) (hinside : StaysInside target) :
    ∃ more, (∀ segment ∈ more, Chars.IsSegment segment) ∧ packagesName.toList ∉ more ∧
      file.toList = Chars.build ['/'] (segments ++ more) := by
  obtain ⟨hplain, hpattern, hexact⟩ := hinside
  cases h with
  | exact hrelative hstar hdescends hfile =>
    have hfixed : fixedText target = target.toList := by
      unfold fixedText
      rw [Text.splitOn_of_not_mem hstar]
      rfl
    obtain ⟨rest, hrest⟩ := exists_rest_of_startsWith hrelative
    have htarget : target = .ofList ('.' :: '/' :: rest) := by
      rw [← hrest, String.ofList_toList]
    have hnamed := hexact hstar
    rw [hfixed, hrest] at hplain hnamed
    rw [hrest] at hdescends
    have hdown := goesDown_of_descends hdescends
    have hpath := toList_packagePath hsegments hdirectory hplain hdown
    have hkept := isSegment_of_mem_keptSegments hplain hdown
    have hpackages := packagesName_not_mem_keptSegments hdescends
    obtain ⟨inner, last, hinner⟩ := (List.eq_nil_or_concat _).resolve_left
      (keptSegments_ne_nil hplain hdown (by rintro rfl; exact hnamed rfl))
    rw [List.concat_eq_append] at hinner
    rw [hinner, ← List.append_assoc, ← htarget] at hpath
    rw [hinner] at hkept hpackages
    -- The file is spelled like the path up to its last segment.
    obtain ⟨other, hother, hotherName, hspelled⟩ := EntryKind.exists_last_of_mem_spellings
      (mem_spellings_of_file? hfile) hpath (hkept last (by simp))
    rw [List.append_assoc] at hspelled
    refine ⟨inner ++ [other], ?_, ?_, hspelled⟩
    · exact List.forall_mem_append.2
        ⟨(List.forall_mem_append.1 hkept).1, List.forall_mem_singleton.2 hother⟩
    · intro hmem
      rcases List.mem_append.1 hmem with hmem | hmem
      · exact hpackages (List.mem_append_left _ hmem)
      · exact hotherName (List.mem_singleton.1 hmem).symm
  | pattern start ending hrelative hsplit hfound hstart haccepts =>
    have htarget := Text.eq_of_splitOn_eq_pair hsplit
    have hfixed : fixedText target = start := by
      unfold fixedText
      rw [hsplit]
      rfl
    obtain ⟨rest, rfl⟩ := exists_rest_of_pattern hrelative hsplit
    have hdescends := hpattern (by rw [htarget]; simp)
    rw [hfixed] at hplain hdescends
    have hrooted := isSlashRooted_of_startsWith_packagePath hsegments hdirectory hplain
      (goesDown_of_descends hdescends) hstart
    obtain ⟨more, hmore, hpackages, hroot⟩ :=
      reached_patternRoot hsegments hdirectory hplain hdescends
    obtain ⟨names, -, hnames, hother, hfile⟩ :=
      exists_names_of_mem_filesBelow hmore hview hroot hfound haccepts hrooted
    rw [List.append_assoc] at hfile
    refine ⟨more ++ names, ?_, ?_, hfile⟩
    · exact List.forall_mem_append.2 ⟨(List.forall_mem_append.1 hmore).2, hnames⟩
    · intro hmem
      exact (List.mem_append.1 hmem).elim hpackages hother

/-- Every entry point that an export map adds comes from a target of the map, and it is within the
package if that target stays inside. -/
theorem walkExports_within {view : FileView} (hview : view.ListsNames) {directory : String}
    (hnormal : Path.IsNormal directory) (hslash : Path.IsSlashRooted directory) (kind : EntryKind)
    (options : CompilerOptions) (exports : Json.Value) (surface : Surface) {file : String}
    (h : file ∈ (walkExports view kind options directory exports surface).val.files) :
    file ∈ surface.files ∨ ∃ target, exports.HasText target ∧
      Leads view kind directory target file ∧
        (StaysInside target → Path.Within directory file) := by
  refine (mem_walkExports h).imp_right ?_
  rintro ⟨target, htext, hleads⟩
  refine ⟨target, htext, hleads, fun hinside => ?_⟩
  obtain ⟨segments, hsegments, hdirectory⟩ := Chars.exists_segments hnormal hslash
  obtain ⟨more, hmore, hpackages, hfile⟩ :=
    exists_segments_of_leads hview hsegments hdirectory hleads hinside
  exact Path.within_of_segments (fun s hs => (hsegments s hs).isPiece)
    (fun s hs => (hmore s hs).isPiece) hpackages hdirectory hfile

/-- A package in `/w/a`, next to a file and with a package inside. -/
def nestedPackages : MemoryTree :=
  (((MemoryTree.writeFile {} "/w/b.d.ts" "").writeFile "/w/a/index.d.ts" "").writeFile
    "/w/a/lib/b.d.ts" "").writeFile "/w/a/lib/node_modules/c.d.ts" ""

/-- An export map with a target of each form. -/
def indexAndLibrary : Json.Value :=
  .object [(".", .text "./index.js"), ("./*", .text "./lib/*.d.ts")]

/-- The nested packages list plain names only. -/
theorem listsNames_nestedPackages : nestedPackages.view.ListsNames :=
  MemoryTree.listsNames_view (by decide +kernel) (by decide +kernel)

/-- Both texts of the example map stay inside their package. -/
theorem staysInside_of_hasText_indexAndLibrary {target : String}
    (h : indexAndLibrary.HasText target) : StaysInside target := by
  cases h with
  | object hmem h =>
    simp only [List.mem_cons, Prod.mk.injEq, List.not_mem_nil, or_false] at hmem
    rcases hmem with ⟨-, rfl⟩ | ⟨-, rfl⟩
    · cases h
      decide +kernel
    · cases h
      decide +kernel

/-- The example map adds its two files, and both lie within the package. -/
theorem walkExports_within_nested :
    (walkExports nestedPackages.view .typed {} "/w/a" indexAndLibrary {}).val.files =
        ["/w/a/index.d.ts", "/w/a/lib/b.d.ts"] ∧
      ∀ file ∈ (walkExports nestedPackages.view .typed {} "/w/a" indexAndLibrary {}).val.files,
        Path.Within "/w/a" file := by
  constructor
  · decide +kernel
  · intro file h
    have hnormal : Path.IsNormal "/w/a" := Path.isNormal_of_normalize_eq (by decide +kernel)
    rcases walkExports_within listsNames_nestedPackages hnormal (by decide) .typed {}
      indexAndLibrary {} h with hmem | ⟨target, htext, -, hwithin⟩
    · simp at hmem
    · exact hwithin (staysInside_of_hasText_indexAndLibrary htext)

/-- The target adds the one file there is to the entry points of the package in `/w/a`, and the file
is not within that package. -/
def Escapes (target file : String) : Prop :=
  (walkExports (MemoryTree.writeFile {} file "").view .typed {} "/w/a" (.text target)
      {}).val.files = [file] ∧ ¬Path.Within "/w/a" file
  deriving Decidable

/-- Each of these targets leads out of its package, or to a package that is installed in it: the
first three by what becomes of a checked text, the fourth because it names nothing, and the patterns
because they are not checked. -/
theorem walkExports_escapes :
    Escapes "./..\\b.d.ts" "/w/b.d.ts" ∧ Escapes ".//x.d.ts" "/x.d.ts" ∧
      Escapes "./.. " "/w.d.ts" ∧ Escapes "./" "/w/a.d.ts" ∧
      Escapes "./../*.d.ts" "/w/b.d.ts" ∧ Escapes "./.*" "/w/ab.d.ts" ∧
      Escapes "./node_modules/*.d.ts" "/w/a/node_modules/c.d.ts" := by
  decide +kernel

end Entrypoints

end AutoImport
