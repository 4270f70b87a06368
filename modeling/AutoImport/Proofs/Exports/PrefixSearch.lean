import AutoImport.ExportIndex
import AutoImport.Proofs.Exports.NameOrder
import Mathlib.Data.List.Induction

/-!
# Searching exports by the beginning of a name

An index is built by putting one export after the other into its group, and searched by skipping the
groups before the beginning of a name and taking groups as long as they have it.  `allExports` says
what there is to find without groups: the exports of the files of the one program and then those of
the other, in order, each file once.

Groups ascend (`Grouped`), so a search finds all groups whose name has the beginning.  And an export
that is added comes last among those of its name and leaves the others in order
(`filter_contents_insertExport`), so the groups one after the other are the stable sort of what was
added (`search_build_eq_mergeSort`).
-/

set_option autoImplicit false

namespace AutoImport

namespace ExportIndex

/-! ## Groups -/

/-- Groups stand in the order of their names, and hold exports of their name only. -/
structure Grouped (groups : List (String × List Export)) : Prop where
  ascending : groups.Pairwise fun first second => first.1 < second.1
  named : ∀ group ∈ groups, ∀ found ∈ group.2, found.symbol = group.1

/-- The exports of all groups, one group after the other. -/
def contents (groups : List (String × List Export)) : List Export :=
  groups.flatMap Prod.snd

variable {groups : List (String × List Export)} {group : String × List Export}

/-- The contents of groups are those of the first, then those of the others. -/
theorem contents_cons (group : String × List Export) (rest : List (String × List Export)) :
    contents (group :: rest) = group.2 ++ contents rest :=
  List.flatMap_cons

/-- The groups behind the first are grouped. -/
theorem Grouped.tail (h : Grouped (group :: groups)) : Grouped groups :=
  ⟨(List.pairwise_cons.1 h.ascending).2, fun other hother =>
    h.named other (List.mem_cons_of_mem group hother)⟩

/-- Every export in a group has the group's name. -/
theorem Grouped.symbol_eq (h : Grouped (group :: groups)) {found : Export}
    (hfound : found ∈ group.2) : found.symbol = group.1 :=
  h.named group List.mem_cons_self found hfound

/-- What stands in later groups has later names. -/
theorem Grouped.lt_symbol (h : Grouped (group :: groups)) {found : Export}
    (hfound : found ∈ contents groups) : group.1 < found.symbol := by
  obtain ⟨other, hother, hin⟩ := List.mem_flatMap.1 hfound
  rw [h.tail.named other hother found hin]
  exact (List.pairwise_cons.1 h.ascending).1 other hother

/-- The contents of groups lie in the order of their names. -/
theorem Grouped.pairwise_contents (h : Grouped groups) :
    (contents groups).Pairwise fun first second => first.symbol ≤ second.symbol := by
  induction groups with
  | nil => exact List.Pairwise.nil
  | cons group rest ih =>
    rw [contents_cons, List.pairwise_append]
    refine ⟨?_, ih h.tail, ?_⟩
    · apply List.pairwise_of_forall_mem_list
      intro first hfirst second hsecond
      have hsame : first.symbol = second.symbol :=
        (h.symbol_eq hfirst).trans (h.symbol_eq hsecond).symm
      exact hsame ▸ String.le_refl first.symbol
    · intro first hfirst second hsecond
      rw [h.symbol_eq hfirst]
      exact String.not_lt.1 fun hlt =>
        String.lt_irrefl _ (String.lt_trans hlt (h.lt_symbol hsecond))

/-- To choose groups by name is to choose exports by name. -/
theorem Grouped.contents_filter (h : Grouped groups) (choose : String → Bool) :
    contents (groups.filter fun group => choose group.1) =
      (contents groups).filter fun found => choose found.symbol := by
  induction groups with
  | nil => rfl
  | cons group rest ih =>
    rw [contents_cons, List.filter_append, ← ih h.tail]
    by_cases hchosen : choose group.1 = true
    · have hall : (group.2.filter fun found => choose found.symbol) = group.2 := by
        rw [List.filter_eq_self]
        intro found hfound
        rw [h.symbol_eq hfound, hchosen]
      rw [List.filter_cons, if_pos hchosen, contents_cons, hall]
    · have hnone : (group.2.filter fun found => choose found.symbol) = [] := by
        rw [List.filter_eq_nil_iff]
        intro found hfound
        rw [h.symbol_eq hfound]
        exact hchosen
      rw [List.filter_cons, if_neg hchosen, hnone, List.nil_append]

/-- Ascending names differ, so there is at most one group of a name. -/
theorem Grouped.filter_name (h : Grouped groups) (name : String) :
    (groups.filter fun group => group.1 = name) =
      (groups.find? fun group => group.1 = name).toList := by
  induction groups with
  | nil => rfl
  | cons group rest ih =>
    by_cases hname : group.1 = name
    · have hnone : (rest.filter fun other => other.1 = name) = [] := by
        rw [List.filter_eq_nil_iff]
        intro other hother hsame
        have hlt := (List.pairwise_cons.1 h.ascending).1 other hother
        rw [of_decide_eq_true hsame, hname] at hlt
        exact String.lt_irrefl name hlt
      rw [List.filter_cons, List.find?_cons, if_pos (decide_eq_true hname), hnone,
        decide_eq_true hname]
      rfl
    · have hother : ¬decide (group.1 = name) = true := by simpa using hname
      rw [List.filter_cons, List.find?_cons, if_neg hother, ih h.tail, decide_eq_false hname]

/-! ## Adding an export -/

/-- Inserting an export adds no group but that of its name. -/
theorem mem_names_insertExport (found : Export) {name : String}
    (h : name ∈ (insertExport found groups).map Prod.fst) :
    name = found.symbol ∨ name ∈ groups.map Prod.fst := by
  induction groups with
  | nil => exact Or.inl (List.mem_singleton.1 h)
  | cons group rest ih =>
    rw [insertExport] at h
    split at h
    · exact Or.inr h
    · split at h
      · exact List.mem_cons.1 h
      · rcases List.mem_cons.1 h with rfl | h
        · exact Or.inr List.mem_cons_self
        · exact (ih h).imp id fun hrest => List.mem_cons_of_mem _ hrest

/-- Inserting an export leaves the groups in order. -/
theorem Grouped.insertExport (h : Grouped groups) (found : Export) :
    Grouped (insertExport found groups) := by
  induction groups with
  | nil =>
    refine ⟨List.pairwise_singleton _ _, ?_⟩
    simp [ExportIndex.insertExport]
  | cons group rest ih =>
    have hcons := List.pairwise_cons.1 h.ascending
    rw [ExportIndex.insertExport]
    split
    · rename_i hsame
      refine ⟨List.pairwise_cons.2 hcons, ?_⟩
      intro other hother
      rcases List.mem_cons.1 hother with rfl | hother
      · intro listed hlisted
        rcases List.mem_append.1 hlisted with hlisted | hlisted
        · exact h.symbol_eq hlisted
        · rw [List.mem_singleton.1 hlisted]
          exact hsame
      · exact h.tail.named other hother
    · split
      · rename_i hbefore
        refine ⟨List.pairwise_cons.2 ⟨?_, h.ascending⟩, ?_⟩
        · intro other hother
          rcases List.mem_cons.1 hother with rfl | hother
          · exact hbefore
          · exact String.lt_trans hbefore (hcons.1 other hother)
        · intro other hother
          rcases List.mem_cons.1 hother with rfl | hother
          · simp
          · exact h.named other hother
      · rename_i hother hbefore
        have hafter : group.1 < found.symbol := by
          apply Classical.byContradiction
          intro hnot
          exact hother (String.le_antisymm (String.not_lt.1 hnot) (String.not_lt.1 hbefore))
        have hrest := ih h.tail
        refine ⟨List.pairwise_cons.2 ⟨?_, hrest.ascending⟩, ?_⟩
        · intro later hlater
          rcases mem_names_insertExport found (List.mem_map_of_mem hlater) with hname | hname
          · rw [hname]
            exact hafter
          · obtain ⟨listed, hlisted, heq⟩ := List.mem_map.1 hname
            rw [← heq]
            exact hcons.1 listed hlisted
        · intro later hlater
          rcases List.mem_cons.1 hlater with rfl | hlater
          · exact h.named _ List.mem_cons_self
          · exact hrest.named later hlater

/-- No export has a name that sorts before all of theirs. -/
theorem filter_symbol_of_lt {exports : List Export} {name : String}
    (h : ∀ found ∈ exports, name < found.symbol) :
    (exports.filter fun found => found.symbol = name) = [] := by
  rw [List.filter_eq_nil_iff]
  intro found hfound hsame
  have hlt := h found hfound
  rw [of_decide_eq_true hsame] at hlt
  exact String.lt_irrefl name hlt

/-- An export that is added comes last among those of its name, and leaves the others in order. -/
theorem filter_contents_insertExport (h : Grouped groups) (found : Export) (name : String) :
    ((contents (insertExport found groups)).filter fun e => e.symbol = name) =
      (contents groups ++ [found]).filter fun e => e.symbol = name := by
  -- Where the export goes in front of others, none of these has its name.
  have hswap : ∀ exports : List Export, (∀ e ∈ exports, found.symbol < e.symbol) →
      ([found] ++ exports).filter (fun e => e.symbol = name) =
        (exports ++ [found]).filter fun e => e.symbol = name := by
    intro exports hlater
    rw [List.filter_append, List.filter_append]
    by_cases hname : found.symbol = name
    · rw [← hname, filter_symbol_of_lt hlater, List.append_nil, List.nil_append]
    · have hnot : [found].filter (fun e => e.symbol = name) = [] := by simp [hname]
      rw [hnot, List.append_nil, List.nil_append]
  induction groups with
  | nil => rfl
  | cons group rest ih =>
    rw [insertExport]
    split
    · rename_i hsame
      have hrest := hswap (contents rest) fun e he => hsame ▸ h.lt_symbol he
      rw [List.filter_append, List.filter_append] at hrest
      rw [contents_cons, contents_cons]
      simp only [List.filter_append, List.append_assoc, hrest]
    · split
      · rename_i hbefore
        apply hswap (contents (group :: rest))
        intro e he
        rw [contents_cons, List.mem_append] at he
        rcases he with he | he
        · rw [h.symbol_eq he]
          exact hbefore
        · exact String.lt_trans hbefore (h.lt_symbol he)
      · rw [contents_cons, contents_cons, List.append_assoc, List.filter_append, List.filter_append,
          ih h.tail]

/-- Inserting many exports leaves the groups in order. -/
theorem grouped_foldl_insertExport (h : Grouped groups) (added : List Export) :
    Grouped (added.foldl (fun groups e => insertExport e groups) groups) := by
  induction added generalizing groups with
  | nil => exact h
  | cons found rest ih => exact ih (h.insertExport found)

/-- Inserting exports puts those of each name behind the ones there were, in the order they come. -/
theorem filter_contents_foldl_insertExport (h : Grouped groups) (added : List Export)
    (name : String) :
    ((contents (added.foldl (fun groups e => insertExport e groups) groups)).filter fun e =>
        e.symbol = name) =
      (contents groups ++ added).filter fun e => e.symbol = name := by
  induction added generalizing groups with
  | nil => rw [List.foldl_nil, List.append_nil]
  | cons found rest ih =>
    rw [List.foldl_cons, ih (h.insertExport found), List.filter_append,
      filter_contents_insertExport h, ← List.filter_append, List.append_assoc]
    rfl

/-! ## Files -/

/-- The files of a program, each where it comes first. -/
def distinctSources (program : Option Program) : List String :=
  (program.elim [] Program.sources).eraseDups

/-- The exports of files of a program, file after file: the symbols that the program has for the
file, in its order, each with the file and the mark. -/
def exportsOfFiles (program : Option Program) (isFromProvider : Bool) (files : List String) :
    List Export :=
  program.elim [] fun program => files.flatMap fun file =>
    (program.exportsOf file).map fun symbol =>
      { symbol := symbol.name
        file
        kind := symbol.kind
        isTypeOnly := symbol.isTypeOnly
        isFromProvider }

/-- What two programs export: the files of the first, then the files of the second that are not
among them, each file once and with its exports in order. -/
def allExports (host provider : Option Program) : List Export :=
  exportsOfFiles host false (distinctSources host) ++
    exportsOfFiles provider true
      ((distinctSources provider).filter fun file => file ∉ distinctSources host)

/-- A program adds its files that are not attributed yet, each once, and no other. -/
theorem foldl_addFile (program : Program) (isFromProvider : Bool) (start : Build)
    (files : List String) :
    let after := files.foldl (Build.addFile program isFromProvider) start
    (∀ file, file ∈ after.seen ↔ file ∈ start.seen ∨ file ∈ files) ∧
      after.groups =
        ((files.eraseDups.filter fun file => file ∉ start.seen).flatMap
          (exportsOfFile program isFromProvider)).foldl (fun groups e => insertExport e groups)
            start.groups := by
  induction files using List.reverseRecOn with
  | nil => exact ⟨by simp, rfl⟩
  | append_singleton files file ih =>
    obtain ⟨hseen, hgroups⟩ := ih
    have hfiles : (files ++ [file]).eraseDups =
        if file ∈ files then files.eraseDups else files.eraseDups ++ [file] := by
      rw [List.eraseDups_append]
      by_cases hfile : file ∈ files <;> simp [List.removeAll, hfile, List.eraseDups_cons]
    rw [List.foldl_append, List.foldl_cons, List.foldl_nil, hfiles, Build.addFile]
    split
    · rename_i hold
      have hknown := (hseen file).1 hold
      refine ⟨?_, ?_⟩
      · intro other
        rw [hseen other, List.mem_append, List.mem_singleton]
        constructor
        · rintro (h | h)
          · exact Or.inl h
          · exact Or.inr (Or.inl h)
        · rintro (h | h | rfl)
          · exact Or.inl h
          · exact Or.inr h
          · exact hknown
      · rw [hgroups]
        split
        · rfl
        · rename_i hnew
          have hstart : file ∈ start.seen := hknown.resolve_right hnew
          rw [List.filter_append]
          simp [hstart]
    · rename_i hold
      rw [hseen file, not_or] at hold
      refine ⟨?_, ?_⟩
      · intro other
        rw [List.mem_cons, hseen other, List.mem_append, List.mem_singleton, or_comm, or_assoc]
      · rw [if_neg hold.2, List.filter_append, List.flatMap_append, List.foldl_append, ← hgroups]
        simp [hold.1]

/-- Adding a program inserts the exports of its files that were not seen before, and has seen them
then. -/
theorem addProgram_spec (isFromProvider : Bool) (program : Option Program) (start : Build) :
    let after := start.addProgram isFromProvider program
    (∀ file, file ∈ after.seen ↔ file ∈ start.seen ∨ file ∈ distinctSources program) ∧
      after.groups =
        (exportsOfFiles program isFromProvider
          ((distinctSources program).filter fun file => file ∉ start.seen)).foldl
            (fun groups e => insertExport e groups) start.groups := by
  cases program with
  | none => exact ⟨by simp [Build.addProgram, distinctSources], rfl⟩
  | some program =>
    obtain ⟨hseen, hgroups⟩ := foldl_addFile program isFromProvider start program.sources
    refine ⟨?_, hgroups⟩
    intro file
    rw [distinctSources, Option.elim_some, List.mem_eraseDups]
    exact hseen file

/-- The groups of an index come from putting in all exports one after the other. -/
theorem groups_build (host provider : Option Program) :
    (build host provider).groups =
      (allExports host provider).foldl (fun groups e => insertExport e groups) [] := by
  obtain ⟨hseen, hhost⟩ := addProgram_spec false host {}
  obtain ⟨-, hprovider⟩ := addProgram_spec true provider (({} : Build).addProgram false host)
  have hfresh : ((distinctSources host).filter fun file => file ∉ ({} : Build).seen) =
      distinctSources host := by
    rw [List.filter_eq_self]
    intro file _
    simp
  have hothers : ((distinctSources provider).filter fun file =>
        file ∉ (({} : Build).addProgram false host).seen) =
      (distinctSources provider).filter fun file => file ∉ distinctSources host := by
    apply List.filter_congr
    intro file _
    simp [hseen file]
  rw [hfresh] at hhost
  rw [hothers, hhost] at hprovider
  rw [allExports, List.foldl_append]
  exact hprovider

/-- The groups of an index are in order. -/
theorem grouped_build (host provider : Option Program) : Grouped (build host provider).groups := by
  rw [groups_build]
  exact grouped_foldl_insertExport ⟨List.Pairwise.nil, by simp⟩ _

/-- Under each name the index holds the exports of that name, in the order in which they are
given. -/
theorem filter_contents_build (host provider : Option Program) (name : String) :
    ((contents (build host provider).groups).filter fun e => e.symbol = name) =
      (allExports host provider).filter fun e => e.symbol = name := by
  rw [groups_build]
  exact filter_contents_foldl_insertExport ⟨List.Pairwise.nil, by simp⟩ _ name

/-- The exports of a name are those of its group. -/
theorem get_eq_filter (index : ExportIndex) (h : Grouped index.groups) (name : String) :
    index.get name = (contents index.groups).filter fun e => e.symbol = name := by
  have hgroup := h.contents_filter fun other => decide (other = name)
  rw [h.filter_name name] at hgroup
  rw [← hgroup, get]
  cases index.groups.find? fun group => group.1 = name with
  | none => rfl
  | some group => exact (List.append_nil group.2).symm

/-- A search finds the exports of the groups whose name has the beginning. -/
theorem search_eq_filter (index : ExportIndex) (h : Grouped index.groups) (start : String) :
    index.search start =
      (contents index.groups).filter fun e => Text.startsWith start e.symbol := by
  rw [search, Text.filter_startsWith_of_ascending start h.ascending]
  exact h.contents_filter (Text.startsWith start)

/-- To search the index of two programs for the beginning of a name is to choose, of all that they
export, what has it, and to sort that by name and stably; to ask for a name is to choose what has
that name.  The empty beginning gives all exports, none of them lost or twice. -/
theorem search_build_eq_mergeSort (host provider : Option Program) :
    (∀ start, (build host provider).search start =
      ((allExports host provider).filter fun found =>
        Text.startsWith start found.symbol).mergeSort (Text.keyLE Export.symbol)) ∧
    (∀ name, (build host provider).get name =
      (allExports host provider).filter fun found => found.symbol = name) ∧
    ((build host provider).search "").Perm (allExports host provider) := by
  have hgrouped := grouped_build host provider
  have hsearch : ∀ start, (build host provider).search start =
      ((allExports host provider).filter fun found =>
        Text.startsWith start found.symbol).mergeSort (Text.keyLE Export.symbol) := by
    intro start
    rw [search_eq_filter _ hgrouped]
    apply Text.eq_mergeSort_of_filter_eq (hgrouped.pairwise_contents.filter _)
    intro name
    have hclass := congrArg (List.filter fun e => Text.startsWith start e.symbol)
      (filter_contents_build host provider name)
    simpa only [List.filter_filter, Bool.and_comm] using hclass
  refine ⟨hsearch, ?_, ?_⟩
  · intro name
    rw [get_eq_filter _ hgrouped, filter_contents_build]
  · have hall : ((allExports host provider).filter fun found =>
        Text.startsWith "" found.symbol) = allExports host provider := by
      rw [List.filter_eq_self]
      intro found _
      exact (Text.startsWith_iff "" found.symbol).2 List.nil_prefix
    rw [hsearch, hall]
    exact List.mergeSort_perm _ _

/-- A file of both programs belongs to the first, and names come in order, not files. -/
example :
    let host : Program :=
      { id := 1, roots := [], sources := ["/m.ts", "/ab.ts", "/m.ts"], unlisted := .fileStem }
    let provider : Program :=
      { id := 2, roots := [], sources := ["/ab.ts", "/a.ts"], unlisted := .fileStem }
    ((build (some host) (some provider)).search "a").map (fun e => (e.file, e.isFromProvider)) =
      [("/a.ts", true), ("/ab.ts", false)] := by
  decide +kernel

end ExportIndex

end AutoImport
