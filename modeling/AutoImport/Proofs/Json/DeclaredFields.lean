import AutoImport.Json.Record

/-!
# Declared fields

A record may be written in two forms, as an object and as an array.  Either way some of its parts
stand for declared fields: the members with a declared name, and the elements in the order of the
declaration (`Json.Schema.declared`).  To read a record is to read these parts one after the other,
if the form is that of a record (`Json.Schema.readRecord_eq_ok_iff`).
-/

set_option autoImplicit false

namespace AutoImport.Json

variable {ρ : Type}

/-- What goes on after a result begins with one. -/
theorem bind_eq_ok_iff {α β : Type} {first : Except Fault α} {next : α → Except Fault β} {b : β} :
    first >>= next = .ok b ↔ ∃ a, first = .ok a ∧ next a = .ok b := by
  cases first with
  | error fault => simp [bind, Except.bind]
  | ok a => simp [bind, Except.bind]

/-- A required member is given exactly when it has a value. -/
theorem required_eq_ok_iff {α : Type} {given : Option α} {a : α} :
    required given = .ok a ↔ given = some a := by
  cases given with
  | none => simp [required]
  | some found => simp [required]

namespace Schema

/-- The members with a declared name. -/
def declaredMembers (schema : Schema ρ) (members : List (List Nat × Tree)) : List (String × Tree) :=
  members.filterMap fun member =>
    ((text? member.1).filter (· ∈ schema.fields)).map fun name => (name, member.2)

/-- The parts of a document that stand for declared fields. -/
def declared (schema : Schema ρ) : Tree → List (String × Tree)
  | .object members => schema.declaredMembers members
  | .array elements => schema.fields.zip elements
  | _ => []

/-- The record that fields leave when they are read one after the other. -/
def readFields (schema : Schema ρ) : List (String × Tree) → ρ → Except Fault ρ
  | [], record => .ok record
  | (name, value) :: rest, record => schema.read name value record >>= schema.readFields rest

/-- The documents that have the form of a record: an object in which each name is a text, no
declared name stands twice and what is not declared can be passed over, or an array that does not go
on behind the last declared field unless that can be passed over. -/
inductive IsRecord (schema : Schema ρ) (dialect : Dialect) : Tree → Prop where
  | object (members : List (List Nat × Tree))
      (names : ∀ member ∈ members, ∃ name, text? member.1 = some name ∧
        (name ∈ schema.fields ∨ dialect.passes member.2 = true))
      (once : ((schema.declaredMembers members).map Prod.fst).Nodup) :
      IsRecord schema dialect (.object members)
  | array (elements : List Tree)
      (short : elements.length ≤ schema.fields.length ∨ dialect.passesExtraElements = true) :
      IsRecord schema dialect (.array elements)

variable {schema : Schema ρ} {dialect : Dialect}

/-- A declared name in front is read with its value. -/
theorem declaredMembers_cons_declared {codes : List Nat} {value : Tree}
    {rest : List (List Nat × Tree)} {name : String} (hname : text? codes = some name)
    (hdeclared : name ∈ schema.fields) :
    schema.declaredMembers ((codes, value) :: rest) =
      (name, value) :: schema.declaredMembers rest := by
  unfold declaredMembers
  rw [List.filterMap_cons, hname, Option.filter_some, if_pos (decide_eq_true hdeclared)]
  rfl

/-- An undeclared name in front is passed over. -/
theorem declaredMembers_cons_other {codes : List Nat} {value : Tree}
    {rest : List (List Nat × Tree)} {name : String} (hname : text? codes = some name)
    (hdeclared : name ∉ schema.fields) :
    schema.declaredMembers ((codes, value) :: rest) = schema.declaredMembers rest := by
  unfold declaredMembers
  rw [List.filterMap_cons, hname, Option.filter_some, if_neg (by simpa using hdeclared)]
  rfl

/-- Members are read as the declared ones among them.  The names that were seen before are those of
the members in front. -/
theorem readMembers_eq_ok_iff {seen : List String} {members : List (List Nat × Tree)}
    {record result : ρ} : schema.readMembers dialect seen members record = .ok result ↔
      (∀ member ∈ members, ∃ name, text? member.1 = some name ∧
        (name ∈ schema.fields ∨ dialect.passes member.2 = true)) ∧
      ((schema.declaredMembers members).map Prod.fst).Nodup ∧
      (∀ field ∈ schema.declaredMembers members, field.1 ∉ seen) ∧
      schema.readFields (schema.declaredMembers members) record = .ok result := by
  induction members generalizing seen record with
  | nil => simp [readMembers, declaredMembers, readFields]
  | cons member rest ih =>
    obtain ⟨codes, value⟩ := member
    rw [readMembers, bind_eq_ok_iff]
    simp only [required_eq_ok_iff]
    cases hname : text? codes with
    | none => simp [hname]
    | some name =>
      by_cases hdeclared : name ∈ schema.fields
      · rw [declaredMembers_cons_declared hname hdeclared]
        by_cases hseen : name ∈ seen
        · simp [hdeclared, hseen]
        · simp only [Option.some.injEq, exists_eq_left', hdeclared, hseen, if_true, if_false,
            bind_eq_ok_iff, ih, readFields, List.map_cons, List.nodup_cons]
          constructor
          · rintro ⟨next, hread, hnames, honce, hunseen, hrest⟩
            refine ⟨List.forall_mem_cons.2 ⟨⟨name, hname, Or.inl hdeclared⟩, hnames⟩, ⟨?_, honce⟩,
              List.forall_mem_cons.2 ⟨hseen, fun field hfield hmem => ?_⟩, next, hread, hrest⟩
            · intro hmem
              obtain ⟨field, hfield, hsame⟩ := List.mem_map.1 hmem
              exact hunseen field hfield (hsame ▸ List.mem_cons_self)
            · exact hunseen field hfield (List.mem_cons_of_mem name hmem)
          · rintro ⟨hnames, ⟨hnew, honce⟩, hunseen, next, hread, hrest⟩
            refine ⟨next, hread, (List.forall_mem_cons.1 hnames).2, honce,
              fun field hfield hmem => ?_, hrest⟩
            rcases List.mem_cons.1 hmem with hsame | hmem
            · exact hnew (hsame ▸ List.mem_map_of_mem hfield)
            · exact (List.forall_mem_cons.1 hunseen).2 field hfield hmem
      · rw [declaredMembers_cons_other hname hdeclared]
        simp only [Option.some.injEq, exists_eq_left', hdeclared, if_false, List.forall_mem_cons,
          hname, false_or]
        by_cases hpasses : dialect.passes value = true
        · simp [hpasses, ih]
        · simp [hpasses]

/-- An array is read as the fields in order, and elements too many are read only where the dialect
passes them. -/
theorem readElements_eq_ok_iff {names : List String} {elements : List Tree} {record result : ρ} :
    schema.readElements dialect names elements record = .ok result ↔
      (elements.length ≤ names.length ∨ dialect.passesExtraElements = true) ∧
      schema.readFields (names.zip elements) record = .ok result := by
  induction names generalizing elements record with
  | nil =>
    cases elements with
    | nil => simp [readElements, readFields]
    | cons value rest =>
      rw [readElements]
      cases hpasses : dialect.passesExtraElements with
      | true => simp [readFields]
      | false => simp
  | cons name names ih =>
    cases elements with
    | nil => simp [readElements, readFields]
    | cons value rest =>
      rw [readElements, List.zip_cons_cons, readFields, bind_eq_ok_iff, bind_eq_ok_iff]
      simp only [ih, List.length_cons, Nat.add_le_add_iff_right]
      constructor
      · rintro ⟨next, hread, hshort, hrest⟩
        exact ⟨hshort, next, hread, hrest⟩
      · rintro ⟨hshort, next, hread, hrest⟩
        exact ⟨next, hread, hshort, hrest⟩

/-- A record is read from a document that has the form of one, by reading its declared fields. -/
theorem readRecord_eq_ok_iff {defaults result : ρ} {tree : Tree} :
    schema.readRecord dialect defaults tree = .ok result ↔
      schema.IsRecord dialect tree ∧
        schema.readFields (schema.declared tree) defaults = .ok result := by
  cases tree with
  | object members =>
    rw [readRecord, readMembers_eq_ok_iff]
    constructor
    · rintro ⟨hnames, honce, -, hread⟩
      exact ⟨.object members hnames honce, hread⟩
    · rintro ⟨hrecord, hread⟩
      cases hrecord with
      | object _ hnames honce => exact ⟨hnames, honce, fun _ _ => List.not_mem_nil, hread⟩
  | array elements =>
    rw [readRecord, readElements_eq_ok_iff]
    constructor
    · rintro ⟨hshort, hread⟩
      exact ⟨.array elements hshort, hread⟩
    · rintro ⟨hrecord, hread⟩
      cases hrecord with
      | array _ hshort => exact ⟨hshort, hread⟩
  | null | bool value | number lexeme | text codes =>
    refine ⟨fun h => by simp [readRecord] at h, fun h => ?_⟩
    cases h.1

end Schema

end AutoImport.Json
