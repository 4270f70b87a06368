import AutoImport.Manifest
import AutoImport.Proofs.Json.DeclaredFields

/-!
# What a manifest says

A text is read as a manifest if it is a JSON document with the form of a record whose declared
fields have a meaning.  The manifest then has a text where the document has one, an object of texts
where it has an object, and nothing where it has anything else (`Manifest.ofJson?_eq_some_iff`).

The form of a record is that of an object, but also that of an array, which lists the fields in
their declared order.  So there are manifests that are no objects
(`Manifest.ofJson?_array`). -/

set_option autoImplicit false

namespace AutoImport

namespace Json

/-! ## Meanings -/

/-- A value reads as a text exactly when it is that text. -/
theorem Value.text?_eq_some_iff {value : Value} {text : String} :
    value.text? = some text ↔ value = .text text := by
  cases value <;> simp [Value.text?]

/-- Only `null` means `null`. -/
theorem Tree.value?_eq_null {depth : Nat} {tree : Tree} (h : tree.value? depth = some .null) :
    tree = .null := by
  cases tree with
  | null => rfl
  | bool value | number lexeme | text codes | array elements | object members =>
    simp [Tree.value?] at h

/-- Setting a member is inserting it in a table. -/
theorem setMember_eq_insertIn (name : String) (value : Value) (members : List (String × Value)) :
    setMember name value members = Table.insertIn name value members := by
  induction members with
  | nil => rfl
  | cons member rest ih => rw [setMember, Table.insertIn, ih]

/-- Setting members one by one never repeats a name. -/
theorem nodup_foldl_setMember (found : List (String × Value)) {kept : List (String × Value)}
    (h : (kept.map Prod.fst).Nodup) :
    ((found.foldl (fun kept member => setMember member.1 member.2 kept) kept).map
      Prod.fst).Nodup := by
  induction found generalizing kept with
  | nil => exact h
  | cons member rest ih =>
    apply ih
    show ((setMember member.1 member.2 kept).map Prod.fst).Nodup
    rw [setMember_eq_insertIn]
    exact @Table.nodup_keys_insert _ _ _ ⟨kept⟩ h member.1 member.2

/-- An object has one value for each of its names, whatever is written. -/
theorem Tree.nodup_of_value? {depth : Nat} {tree : Tree} {members : List (String × Value)}
    (h : tree.value? depth = some (.object members)) : (members.map Prod.fst).Nodup := by
  cases tree with
  | object written =>
    rw [Tree.value?, Option.ite_none_right_eq_some] at h
    obtain ⟨found, -, hmembers⟩ := Option.map_eq_some_iff.1 h.2
    rw [← Value.object.inj hmembers]
    exact nodup_foldl_setMember found List.nodup_nil
  | null | bool value | number lexeme | text codes | array elements => simp [Tree.value?] at h

end Json

namespace Manifest

open Json (Tree Value)

/-! ## Documents and manifests -/

/-- A document has a value in a declared field.  A field that is `null` is not set. -/
def Says (tree : Tree) (field : String) (value : Value) : Prop :=
  ∃ written, (field, written) ∈ schema.declared tree ∧ written.value? 1 = some value ∧ value ≠ .null

/-- The members of a package that are texts. -/
def textMembers : List (String × (Manifest → Option String)) :=
  [("name", Manifest.name), ("main", Manifest.main), ("types", Manifest.types),
    ("typings", Manifest.typings), ("type", Manifest.moduleType)]

/-- The members that are kept as they are. -/
def valueMembers : List (String × (Manifest → Option Value)) :=
  [("exports", Manifest.exports), ("imports", Manifest.imports),
    ("typesVersions", Manifest.typesVersions)]

/-- The members that list dependencies. -/
def groupMembers : List (String × DependencyGroup) :=
  [("dependencies", .dependencies), ("devDependencies", .devDependencies),
    ("peerDependencies", .peerDependencies), ("optionalDependencies", .optionalDependencies)]

/-- A dependency as the member that lists it. -/
def asMember (entry : String × String) : String × Value :=
  (entry.1, .text entry.2)

/-- The dependencies are the members whose values are texts, in their order, each once. -/
structure ListsTexts (members : List (String × Value)) (dependencies : Dependencies) : Prop where
  entries : dependencies.entries.map asMember = members.filter fun member => member.2.text?.isSome
  once : dependencies.keys.Nodup

/-- The manifest is what the document says. -/
structure Describes (fileName : String) (tree : Tree) (manifest : Manifest) : Prop where
  path : manifest.fileName = fileName
  directory : manifest.directory = Path.directory fileName
  texts : ∀ member ∈ textMembers, ∀ text,
    member.2 manifest = some text ↔ Says tree member.1 (.text text)
  values : ∀ member ∈ valueMembers, ∀ value,
    member.2 manifest = some value ↔ Says tree member.1 value
  groups : ∀ member ∈ groupMembers, ∀ dependencies, manifest.group member.2 = some dependencies ↔
    ∃ members, Says tree member.1 (.object members) ∧ ListsTexts members dependencies

/-- A document describes one manifest. -/
theorem Describes.unique {fileName : String} {tree : Tree} {first second : Manifest}
    (hfirst : Describes fileName tree first) (hsecond : Describes fileName tree second) :
    first = second := by
  have htexts : ∀ member ∈ textMembers, member.2 first = member.2 second := fun member hmember =>
    Option.ext fun text =>
      (hfirst.texts member hmember text).trans (hsecond.texts member hmember text).symm
  have hvalues : ∀ member ∈ valueMembers, member.2 first = member.2 second := fun member hmember =>
    Option.ext fun value =>
      (hfirst.values member hmember value).trans (hsecond.values member hmember value).symm
  have hgroups : ∀ member ∈ groupMembers, first.group member.2 = second.group member.2 :=
    fun member hmember => Option.ext fun dependencies =>
      (hfirst.groups member hmember dependencies).trans
        (hsecond.groups member hmember dependencies).symm
  have hplace := hfirst.path.trans hsecond.path.symm
  have hdirectory := hfirst.directory.trans hsecond.directory.symm
  simp only [textMembers, List.forall_mem_cons] at htexts
  simp only [valueMembers, List.forall_mem_cons] at hvalues
  simp only [groupMembers, List.forall_mem_cons] at hgroups
  obtain ⟨hname, hmain, htypes, htypings, htype, -⟩ := htexts
  obtain ⟨hexports, himports, hversions, -⟩ := hvalues
  obtain ⟨hdependencies, hdev, hpeer, hoptional, -⟩ := hgroups
  cases first
  cases second
  rw [Manifest.mk.injEq]
  exact ⟨hplace, hdirectory, hname, hmain, htypes, htypings, htype, hexports, himports, hversions,
    hdependencies, hdev, hpeer, hoptional⟩

/-! ## Reading fields -/

/-- A field that is written and not null is read as its value. -/
theorem read_of_ne_null {field : String} {written : Tree} {table : Table String Value}
    (h : written ≠ .null) :
    schema.read field written table =
      (Json.required (written.value? 1)).map (table.insert field) := by
  cases written with
  | null => exact absurd rfl h
  | bool value | number lexeme | text codes | array elements | object members => rfl

/-- Fields can be read exactly if each of them has a meaning. -/
theorem exists_readFields_iff {fields : List (String × Tree)} {table : Table String Value} :
    (∃ result, schema.readFields fields table = .ok result) ↔
      ∀ field ∈ fields, (field.2.value? 1).isSome = true := by
  induction fields generalizing table with
  | nil => simp [Json.Schema.readFields]
  | cons entry rest ih =>
    obtain ⟨field, written⟩ := entry
    rw [Json.Schema.readFields, List.forall_mem_cons]
    by_cases hnull : written = .null
    · subst hnull
      have hread : schema.read field .null table = .ok table := rfl
      rw [hread]
      have hmeaning : (Tree.value? 1 .null).isSome = true := by simp [Tree.value?]
      exact (@ih table).trans (and_iff_right hmeaning).symm
    · rw [read_of_ne_null hnull]
      cases hvalue : written.value? 1 with
      | none => simp [Json.required, Except.map, bind, Except.bind]
      | some value =>
        rw [Option.isSome_some]
        exact (@ih (table.insert field value)).trans (and_iff_right rfl).symm

/-- One of the fields has the value. -/
def Gives (fields : List (String × Tree)) (name : String) (value : Value) : Prop :=
  ∃ written, (name, written) ∈ fields ∧ written.value? 1 = some value ∧ value ≠ .null

/-- The fields give a value in the first of them or in one behind it. -/
theorem gives_cons {field : String} {written : Tree} {rest : List (String × Tree)} {name : String}
    {value : Value} : Gives ((field, written) :: rest) name value ↔
      (field = name ∧ written.value? 1 = some value ∧ value ≠ .null) ∨ Gives rest name value := by
  simp only [Gives, List.mem_cons, Prod.mk.injEq]
  constructor
  · rintro ⟨found, ⟨rfl, rfl⟩ | hrest, hvalue⟩
    · exact Or.inl ⟨rfl, hvalue⟩
    · exact Or.inr ⟨found, hrest, hvalue⟩
  · rintro (⟨rfl, hvalue⟩ | ⟨found, hrest, hvalue⟩)
    · exact ⟨written, Or.inl ⟨rfl, rfl⟩, hvalue⟩
    · exact ⟨found, Or.inr hrest, hvalue⟩

/-- What is found after reading fields is what is written in them, or was there before. -/
theorem get?_of_readFields {fields : List (String × Tree)} {table result : Table String Value}
    (hread : schema.readFields fields table = .ok result) (honce : (fields.map Prod.fst).Nodup)
    (hnew : ∀ field ∈ fields, table.get? field.1 = none) (name : String) (value : Value) :
    result.get? name = some value ↔ Gives fields name value ∨ table.get? name = some value := by
  induction fields generalizing table with
  | nil =>
    obtain rfl : table = result := Except.ok.inj hread
    simp [Gives]
  | cons entry rest ih =>
    obtain ⟨field, written⟩ := entry
    rw [List.map_cons, List.nodup_cons] at honce
    obtain ⟨hfield, hrest⟩ := honce
    obtain ⟨hnone, hnewRest⟩ := List.forall_mem_cons.1 hnew
    rw [Json.Schema.readFields, Json.bind_eq_ok_iff] at hread
    obtain ⟨next, hnext, hread⟩ := hread
    rw [gives_cons]
    by_cases hnull : written = .null
    · subst hnull
      obtain rfl : table = next := Except.ok.inj hnext
      have hunset : ¬(field = name ∧ Tree.null.value? 1 = some value ∧ value ≠ .null) := by
        rintro ⟨-, hvalue, hset⟩
        rw [Tree.value?] at hvalue
        exact hset (Option.some.inj hvalue).symm
      rw [ih hread hrest hnewRest, or_iff_right hunset]
    · rw [read_of_ne_null hnull] at hnext
      cases hmeaning : written.value? 1 with
      | none => simp [hmeaning, Json.required, Except.map] at hnext
      | some found =>
        rw [hmeaning] at hnext
        obtain rfl : table.insert field found = next := Except.ok.inj hnext
        have hset : found ≠ .null := fun h => hnull (Tree.value?_eq_null (h ▸ hmeaning))
        have hnewNext : ∀ other ∈ rest, (table.insert field found).get? other.1 = none := by
          intro other hother
          have hne : field ≠ other.1 := fun h => hfield (List.mem_map.2 ⟨other, hother, h.symm⟩)
          rw [Table.get?_insert, if_neg hne]
          exact hnewRest other hother
        rw [ih hread hrest hnewNext, Table.get?_insert]
        by_cases hname : field = name
        · subst hname
          -- No later field has the name again.
          have hlater : ¬Gives rest field value := by
            rintro ⟨other, hother, -⟩
            exact hfield (List.mem_map.2 ⟨(field, other), hother, rfl⟩)
          rw [if_pos rfl, hnone]
          constructor
          · rintro (hgives | hvalue)
            · exact absurd hgives hlater
            · exact Or.inl (Or.inl ⟨rfl, hvalue, Option.some.inj hvalue ▸ hset⟩)
          · rintro ((⟨-, hvalue, -⟩ | hgives) | hvalue)
            · exact Or.inr hvalue
            · exact absurd hgives hlater
            · simp at hvalue
        · rw [if_neg hname]
          simp [hname]

/-- The names that are paired with elements are some of the names, in order. -/
theorem sublist_map_fst_zip {α β : Type} (names : List α) (elements : List β) :
    List.Sublist ((names.zip elements).map Prod.fst) names := by
  induction names generalizing elements with
  | nil => exact List.Sublist.refl _
  | cons name rest ih =>
    cases elements with
    | nil => exact List.nil_sublist _
    | cons element others => exact (ih others).cons_cons name

/-- A record declares no field twice. -/
theorem nodup_declared {tree : Tree} (h : schema.IsRecord .strict tree) :
    ((schema.declared tree).map Prod.fst).Nodup := by
  cases h with
  | object members _ honce => exact honce
  | array elements _ =>
    exact (sublist_map_fst_zip schema.fields elements).nodup (by decide)

/-! ## Manifests -/

/-- Reading the members as texts and putting these back gives the members that are texts. -/
theorem map_asMember_texts (members : List (String × Value)) :
    (members.filterMap fun (name, range) => range.text?.map fun text => (name, text)).map asMember =
      members.filter fun member => member.2.text?.isSome := by
  induction members with
  | nil => rfl
  | cons member rest ih =>
    obtain ⟨name, range⟩ := member
    cases range with
    | text value => exact congrArg (List.cons (name, .text value)) ih
    | null | bool value | number value | array elements | object members => exact ih

/-- An object is a group of the members that are texts. -/
theorem dependenciesOf_eq_some_iff {members : List (String × Value)}
    (honce : (members.map Prod.fst).Nodup) {dependencies : Dependencies} :
    dependenciesOf (.object members) = some dependencies ↔ ListsTexts members dependencies := by
  have hinjective : ∀ entry other, asMember entry = asMember other → entry = other := by
    intro entry other h
    obtain ⟨hname, htext⟩ := Prod.mk.inj h
    exact Prod.ext hname (Value.text.inj htext)
  have htexts := map_asMember_texts members
  rw [dependenciesOf, Option.some.injEq]
  constructor
  · rintro rfl
    refine ⟨htexts, ?_⟩
    have hkeys := (List.filter_sublist (p := fun member => member.2.text?.isSome)
      (l := members)).map Prod.fst
    rw [← htexts, List.map_map] at hkeys
    exact hkeys.nodup honce
  · rintro ⟨hentries, -⟩
    obtain ⟨entries⟩ := dependencies
    exact congrArg Table.mk ((List.map_inj_right hinjective).1 (htexts.trans hentries.symm))

/-- The manifest of a table of values is what the document says, if the table is. -/
theorem describes_ofMembers {fileName : String} {tree : Tree} {table : Table String Value}
    (h : ∀ name value, table.get? name = some value ↔ Says tree name value) :
    Describes fileName tree (ofMembers fileName table) where
  path := rfl
  directory := rfl
  texts := by
    have htext : ∀ name text, (table.get? name).bind Value.text? = some text ↔
        Says tree name (.text text) := by
      intro name text
      rw [← h, Option.bind_eq_some_iff]
      simp only [Json.Value.text?_eq_some_iff, exists_eq_right]
    simp only [textMembers, List.forall_mem_cons]
    exact ⟨htext "name", htext "main", htext "types", htext "typings", htext "type", by simp⟩
  values := by
    simp only [valueMembers, List.forall_mem_cons]
    exact ⟨h "exports", h "imports", h "typesVersions", by simp⟩
  groups := by
    have hgroup : ∀ name dependencies, (table.get? name).bind dependenciesOf = some dependencies ↔
        ∃ members, Says tree name (.object members) ∧ ListsTexts members dependencies := by
      intro name dependencies
      rw [Option.bind_eq_some_iff]
      constructor
      · rintro ⟨value, hvalue, hof⟩
        cases value with
        | object members =>
          obtain ⟨written, -, hmeaning, -⟩ := (h name _).1 hvalue
          exact ⟨members, (h name _).1 hvalue,
            (dependenciesOf_eq_some_iff (Tree.nodup_of_value? hmeaning)).1 hof⟩
        | null | bool value | number value | text value | array elements =>
          simp [dependenciesOf] at hof
      · rintro ⟨members, hgives, hlists⟩
        obtain ⟨written, -, hmeaning, -⟩ := id hgives
        exact ⟨.object members, (h name _).2 hgives,
          (dependenciesOf_eq_some_iff (Tree.nodup_of_value? hmeaning)).2 hlists⟩
    simp only [groupMembers, List.forall_mem_cons]
    exact ⟨hgroup "dependencies", hgroup "devDependencies", hgroup "peerDependencies",
      hgroup "optionalDependencies", by simp⟩

/-- A text is read as a manifest exactly if it is a JSON document that has the form of a record, if
each of its declared fields has a meaning, and if the manifest is what it says. -/
theorem ofJson?_eq_some_iff {fileName text : String} {manifest : Manifest} :
    ofJson? fileName text = some manifest ↔
      ∃ tree, Json.Strict.read? text = some tree ∧ schema.IsRecord .strict tree ∧
        (∀ field ∈ schema.declared tree, (field.2.value? 1).isSome = true) ∧
        Describes fileName tree manifest := by
  have hgives : ∀ {tree : Tree} {table : Table String Value}, schema.IsRecord .strict tree →
      schema.readFields (schema.declared tree) .empty = .ok table →
      Describes fileName tree (ofMembers fileName table) := by
    intro tree table hrecord hread
    refine describes_ofMembers fun name value => ?_
    rw [get?_of_readFields hread (nodup_declared hrecord) (fun field _ => Table.get?_empty field.1),
      Table.get?_empty]
    simp [Says, Gives]
  unfold ofJson?
  cases hdocument : Json.Strict.read? text with
  | none => simp
  | some tree =>
    simp only [Option.some.injEq, exists_eq_left']
    constructor
    · intro h
      split at h
      · rename_i table hread
        obtain ⟨hrecord, hfields⟩ := Json.Schema.readRecord_eq_ok_iff.1 hread
        rw [← Option.some.inj h]
        exact ⟨hrecord, exists_readFields_iff.1 ⟨table, hfields⟩, hgives hrecord hfields⟩
      · simp at h
    · rintro ⟨hrecord, hmeaning, hdescribes⟩
      obtain ⟨table, hfields⟩ := exists_readFields_iff.2 hmeaning
      have hread : schema.readRecord .strict .empty tree = .ok table :=
        Json.Schema.readRecord_eq_ok_iff.2 ⟨hrecord, hfields⟩
      rw [hread]
      exact congrArg some ((hgives hrecord hfields).unique hdescribes)

/-- An array is read as a manifest too, its first element as the name of the package. -/
theorem ofJson?_array :
    Json.Strict.read? "[\"a\"]" = some (.array [.text [97]]) ∧
      (ofJson? "/p/package.json" "[\"a\"]").map Manifest.name = some (some "a") := by
  refine ⟨by rfl, by decide +kernel⟩

end Manifest

end AutoImport
