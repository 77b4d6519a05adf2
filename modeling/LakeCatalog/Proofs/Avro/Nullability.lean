import LakeCatalog.Avro.Scope
import LakeCatalog.Proofs.Avro.ReadAlike
import LakeCatalog.Proofs.Avro.Reference

/-!
# What is marked as nullable

Whether a definition admits null is found out together with its type, and the definitions of the
parts decide what the type marks. A type that is referred to by name was marked where it was
defined, so what holds of the types that are known is carried through a definition along with what
holds of its own type.
-/

namespace LakeCatalog.Avro

open Schema

variable {names after : Names}

lemma admitsNull_nil : ¬ AdmitsNull (.array []) := by
  rintro (listed | ⟨listed, -⟩) <;> cases listed

lemma admitsNull_cons_iff {branch : Json} {rest : List Json} :
    AdmitsNull (.array (branch :: rest)) ↔
      branch = .string "null" ∨ AdmitsNull branch ∨ AdmitsNull (.array rest) := by
  constructor
  · rintro (listed | ⟨listed, admits⟩)
    · obtain same | listed := List.mem_cons.mp listed
      · exact .inl same.symm
      · exact .inr (.inr (.bare listed))
    · obtain rfl | listed := List.mem_cons.mp listed
      · exact .inr (.inl admits)
      · exact .inr (.inr (.branch listed admits))
  · rintro (rfl | admits | listed | ⟨listed, admits⟩)
    · exact .bare List.mem_cons_self
    · exact .branch List.mem_cons_self admits
    · exact .bare (List.mem_cons_of_mem _ listed)
    · exact .branch (List.mem_cons_of_mem _ listed) admits

lemma admitsNull_string (text : String) : ¬ AdmitsNull (.string text) := nofun

lemma admitsNull_object_iff {members : List (String × Json)} :
    AdmitsNull (.object members) ↔
      ∃ inner, form? members = some (.around inner) ∧ AdmitsNull inner := by
  constructor
  · intro admits
    cases admits with
    | around written unnamed admits =>
      exact ⟨_, form?_eq_around_iff.mpr ⟨written, unnamed⟩, admits⟩
  · rintro ⟨inner, form, admits⟩
    obtain ⟨written, unnamed⟩ := form?_eq_around_iff.mp form
    exact .around written unnamed admits

/-- A union keeps what its branches say about null, and joins several branches only. -/
lemma unionOf_cases {nullable : Bool} {types : List ColumnType} {found : Definition}
    (read : unionOf nullable types names = .ok (found, after)) :
    found.nullable = nullable ∧
      (types = [found.type] ∨ 2 ≤ types.length ∧ found.type = .union types) := by
  match types with
  | [] => cases read
  | [_] => cases read; exact ⟨rfl, .inl rfl⟩
  | _ :: _ :: _ => cases read; exact ⟨rfl, .inr ⟨by simp, rfl⟩⟩

/-- A definition is found to admit null exactly if it does. -/
def ReadsNull (value : Json) : Prop :=
  ∀ {names after : Names} {found : Definition},
    readType value names = .ok (found, after) → (found.nullable = true ↔ AdmitsNull value)

lemma nullable_of_readBranches {branches : List Json} {types : List ColumnType} {nullable : Bool}
    (each : ∀ branch ∈ branches, ReadsNull branch)
    (read : readBranches branches names = .ok ((types, nullable), after)) :
    nullable = true ↔ AdmitsNull (.array branches) := by
  induction branches generalizing names types nullable with
  | nil =>
    rw [readBranches] at read
    cases read
    exact iff_of_false Bool.false_ne_true admitsNull_nil
  | cons branch rest ih =>
    obtain ⟨here, each⟩ := List.forall_mem_cons.mp each
    rw [admitsNull_cons_iff]
    by_cases bare : branch = .string "null"
    · subst bare
      rw [readBranches] at read
      obtain ⟨pair, known, others, done⟩ := Reading.bind_ok read
      cases done
      exact iff_of_true rfl (.inl rfl)
    · rw [readBranches] at read
      swap
      · exact bare
      obtain ⟨first, known, firstRead, read⟩ := Reading.bind_ok read
      obtain ⟨⟨types, nullable⟩, known', others, done⟩ := Reading.bind_ok read
      cases done
      rw [Bool.or_eq_true, here firstRead, ih each others, or_iff_right bare]

/-- Whether a definition admits null is found out when it is read. -/
lemma nullable_of_readType (value : Json) : ReadsNull value := by
  induction value using induction_on_parts with
  | step value ih =>
    intro names after found read
    cases value with
    | string name =>
      rw [readType] at read
      obtain ⟨type, known, -, done⟩ := Reading.bind_ok read
      cases done
      exact iff_of_false Bool.false_ne_true (admitsNull_string name)
    | array branches =>
      rw [readType] at read
      obtain ⟨⟨types, nullable⟩, known, branchesRead, united⟩ := Reading.bind_ok read
      rw [(unionOf_cases united).1]
      exact nullable_of_readBranches ih branchesRead
    | object members =>
      rw [readType_object] at read
      rw [admitsNull_object_iff]
      rw [parts] at ih
      generalize form? members = form at read ih ⊢
      obtain _ | form := form
      · cases read
      cases form with
      | around inner =>
        have inside := ih inner (List.mem_singleton_self inner) read
        simpa using inside
      | refined type =>
        cases read
        simp
      | record =>
        obtain ⟨name, known, -, read⟩ := Reading.bind_ok read
        obtain ⟨columns, known', -, read⟩ := Reading.bind_ok read
        simp [(registered_ok read).1]
      | enumeration | fixed =>
        obtain ⟨name, known, -, read⟩ := Reading.bind_ok read
        simp [(registered_ok read).1]
      | array | map =>
        obtain ⟨value, part, -, -, rfl⟩ := member_ok read
        simp
      | reference name =>
        obtain ⟨type, known, -, done⟩ := Reading.bind_ok read
        cases done
        simp
    | _ => cases read

def OfPart (value : Json) (names : Names) (type : ColumnType) : Prop :=
  ∃ i part, (parts value)[i]? = some part ∧ ReadAs (parts value) i part names type

/-- What the type of a definition is made of. -/
inductive Origin (value : Json) (names : Names) : ColumnType → Prop where
  /-- A type without parts. -/
  | leaf {type : ColumnType} (bare : inner type = []) (unmarked : marksParts type = false)
      (single : ∀ branches, type ≠ .union branches) : Origin value names type
  /-- The type that a name means. -/
  | known {key : String} {type : ColumnType} (listed : (key, type) ∈ names) :
      Origin value names type
  /-- The type of the only part. -/
  | part {type : ColumnType} (ofPart : OfPart value names type) : Origin value names type
  /-- A union of the types of parts. -/
  | union {branches : List ColumnType} (several : 2 ≤ branches.length)
      (each : ∀ type ∈ branches, OfPart value names type) : Origin value names (.union branches)
  /-- A type that marks the parts that it is made of. -/
  | marked {type : ColumnType} (marks : Marks value type)
      (each : ∀ part ∈ inner type, OfPart value names part) : Origin value names type

lemma exists_readAs_cons {first : Json} {rest : List Json} {known : Names} {type : ColumnType}
    (passed : namesAfter? first names = some known)
    (later : ∃ i part, rest[i]? = some part ∧ ReadAs rest i part known type) :
    ∃ i part, (first :: rest)[i]? = some part ∧ ReadAs (first :: rest) i part names type := by
  obtain ⟨i, part, here, read⟩ := later
  exact ⟨i + 1, part, here, read.cons passed⟩

/-- The branches of a union give it the types that it joins. -/
lemma readAs_of_mem_types {branches : List Json} {types : List ColumnType} {nullable : Bool}
    (read : readBranches branches names = .ok ((types, nullable), after)) :
    ∀ type ∈ types, ∃ i part, branches[i]? = some part ∧ ReadAs branches i part names type := by
  induction branches generalizing names types nullable with
  | nil =>
    rw [readBranches] at read
    cases read
    exact List.forall_mem_nil _
  | cons branch rest ih =>
    by_cases bare : branch = .string "null"
    · subst bare
      rw [readBranches] at read
      obtain ⟨pair, known, others, done⟩ := Reading.bind_ok read
      cases done
      exact fun type mem => exists_readAs_cons rfl (ih others type mem)
    · rw [readBranches] at read
      swap
      · exact bare
      obtain ⟨first, known, firstRead, read⟩ := Reading.bind_ok read
      obtain ⟨pair, known', others, done⟩ := Reading.bind_ok read
      cases done
      intro type mem
      obtain rfl | mem := List.mem_cons.mp mem
      · exact ⟨0, branch, rfl, names, first, known, rfl, firstRead, rfl⟩
      · exact exists_readAs_cons (namesAfter?_of_ok firstRead) (ih others type mem)

lemma readColumn_marked {record : String} {field : Json} {column : Column}
    (read : readColumn record field names = .ok (column, after)) :
    MarkedBy column field := by
  cases field with
  | object members =>
    rw [readColumn] at read
    obtain ⟨name, known, asked, read⟩ := Reading.bind_ok read
    obtain ⟨found, known', typed, done⟩ := Reading.bind_ok read
    obtain ⟨named, rfl⟩ := requireText_ok asked
    cases done
    rw [readMember_eq] at typed
    cases written : members.lookup "type" with
    | none => rw [written] at typed; cases typed
    | some type =>
      rw [written] at typed
      refine ⟨lookup_of_text? named, ?_⟩
      rw [fieldType, Json.member?, written]
      exact nullable_of_readType type typed
  | _ => cases read

/-- The fields of a record give it its columns, and each column is marked as its field says. -/
lemma readColumns_marked {record : String} {fields : List Json} {columns : List Column}
    (read : readColumns record fields names = .ok (columns, after)) :
    columns.length = fields.length ∧
      (∀ pair ∈ columns.zip fields, MarkedBy pair.1 pair.2) ∧
      ∀ column ∈ columns, ∃ i part, (fields.map fieldType)[i]? = some part ∧
        ReadAs (fields.map fieldType) i part names column.type := by
  induction fields generalizing names columns with
  | nil =>
    rw [readColumns] at read
    cases read
    exact ⟨rfl, List.forall_mem_nil _, List.forall_mem_nil _⟩
  | cons field rest ih =>
    rw [readColumns] at read
    obtain ⟨first, known, firstRead, read⟩ := Reading.bind_ok read
    obtain ⟨columns, known', others, done⟩ := Reading.bind_ok read
    cases done
    obtain ⟨length, marked, each⟩ := ih others
    obtain ⟨type, found, typed, typeRead, same⟩ := readColumn_ok firstRead
    have defined : fieldType field = type := by rw [fieldType, typed, Option.getD_some]
    refine ⟨congrArg (· + 1) length, ?_, ?_⟩
    · rw [List.zip_cons_cons]
      exact List.forall_mem_cons.mpr ⟨readColumn_marked firstRead, marked⟩
    · intro column mem
      obtain rfl | mem := List.mem_cons.mp mem
      · refine ⟨0, type, congrArg some defined, names, found, known, rfl, typeRead, same.symm⟩
      · exact exists_readAs_cons (defined ▸ namesAfter?_of_ok typeRead) (each column mem)

lemma mem_of_lookup {α : Type} {entries : List (String × α)} {key : String} {value : α}
    (found : entries.lookup key = some value) : (key, value) ∈ entries := by
  obtain ⟨front, back, rfl, -⟩ := List.lookup_eq_some_iff.mp found
  exact List.mem_append_right front List.mem_cons_self

lemma resolve_origin {name : String} {type : ColumnType} (value : Json)
    (read : resolve name names = .ok (type, after)) : Origin value names type := by
  rw [resolve] at read
  split at read
  · cases read
    exact .leaf rfl rfl fun _ same => ColumnType.noConfusion same
  · split at read
    · cases read
    · split at read <;> cases read
      rename_i found
      rw [Names.find?] at found
      obtain listed | listed := Option.or_eq_some_iff.mp found
      · exact .known (mem_of_lookup listed)
      · exact .known (mem_of_lookup listed.2)

/-- A logical type has no parts. -/
lemma refined_origin {members : List (String × Json)} {type : ColumnType} (value : Json)
    (form : form? members = some (.refined type)) : Origin value names type := by
  have logical : ∃ base, logicalType? members base = some type := by
    rw [form?] at form
    split at form
    · cases form
    · rename_i base _
      refine ⟨base, ?_⟩
      rw [formOf] at form
      split at form
      · rename_i found
        cases form
        exact found
      · split_ifs at form <;> cases form
    · cases form
  obtain ⟨base, logical⟩ := logical
  rw [logicalType?] at logical
  obtain ⟨name, -, logical⟩ := Option.bind_eq_some_iff.mp logical
  split at logical
  case h_11 => cases logical
  all_goals
    cases logical
    exact .leaf rfl rfl fun _ same => ColumnType.noConfusion same

lemma marks_of_readType {members : List (String × Json)} {form : Form} {found : Definition}
    (made : form? members = some form) (marks : form.marksParts = true)
    (read : readType (.object members) names = .ok (found, after)) :
    Marks (.object members) found.type := by
  rw [readType_object, made] at read
  cases form with
  | record =>
    obtain ⟨name, known, -, rest⟩ := Reading.bind_ok read
    obtain ⟨columns, known', columnsRead, registered⟩ := Reading.bind_ok rest
    obtain ⟨length, marked, -⟩ := readColumns_marked (readColumnsOf_ok columnsRead).2
    rw [(registered_ok registered).1]
    exact .record made length marked
  | array =>
    obtain ⟨value, part, written, partRead, rfl⟩ := member_ok read
    exact .array made written (nullable_of_readType value partRead)
  | map =>
    obtain ⟨value, part, written, partRead, rfl⟩ := member_ok read
    exact .map made written (nullable_of_readType value partRead)
  | _ => cases marks

lemma ofPart_singleton {value part : Json} {found : Definition} (only : parts value = [part])
    (read : readType part names = .ok (found, after)) : OfPart value names found.type := by
  refine ⟨0, part, by rw [only]; rfl, ?_⟩
  rw [only]
  exact ⟨names, found, after, rfl, read, rfl⟩

/-- Where the type of a definition comes from. -/
theorem origin_of_readType {value : Json} {found : Definition}
    (read : readType value names = .ok (found, after)) : Origin value names found.type := by
  cases value with
  | string name =>
    rw [readType] at read
    obtain ⟨type, known, resolved, done⟩ := Reading.bind_ok read
    cases done
    exact resolve_origin _ resolved
  | array branches =>
    rw [readType] at read
    obtain ⟨⟨types, nullable⟩, known, branchesRead, united⟩ := Reading.bind_ok read
    have each := readAs_of_mem_types branchesRead
    obtain single | ⟨several, union⟩ := (unionOf_cases united).2
    · exact .part (each found.type (single ▸ List.mem_singleton_self _))
    · rw [union]
      exact .union several each
  | object members =>
    have whole := read
    rw [readType_object] at read
    cases made : form? members with
    | none => rw [made] at read; cases read
    | some form =>
      rw [made] at read
      have marks := (marks_of_readType made · whole)
      cases form with
      | around inner => exact .part (ofPart_singleton (by rw [parts, made]) read)
      | refined type =>
        cases read
        exact refined_origin _ made
      | record =>
        obtain ⟨name, known, asked, rest⟩ := Reading.bind_ok read
        obtain ⟨columns, known', columnsRead, registered⟩ := Reading.bind_ok rest
        obtain ⟨-, rfl⟩ := requireText_ok asked
        obtain ⟨-, -, each⟩ := readColumns_marked (readColumnsOf_ok columnsRead).2
        refine .marked (marks rfl) ?_
        rw [(registered_ok registered).1]
        intro part mem
        obtain ⟨column, listed, rfl⟩ := List.mem_map.mp mem
        have fieldwise : parts (.object members) = (fields members).map fieldType := by
          rw [parts, made]
        rw [OfPart, fieldwise]
        exact each column listed
      | enumeration | fixed =>
        obtain ⟨name, known, -, rest⟩ := Reading.bind_ok read
        rw [(registered_ok rest).1]
        exact .leaf rfl rfl fun _ same => ColumnType.noConfusion same
      | array | map =>
        obtain ⟨value, part, written, partRead, rfl⟩ := member_ok read
        refine .marked (marks rfl) ?_
        intro type mem
        cases List.mem_singleton.mp mem
        exact ofPart_singleton (by rw [parts, made]; simp [written]) partRead
      | reference name =>
        obtain ⟨type, known, resolved, done⟩ := Reading.bind_ok read
        cases done
        exact resolve_origin _ resolved
  | _ => cases read

/-- Every union in a type has at least two branches, and whatever in it marks its parts is what a
definition in the whole stands for and is marked as that definition says. -/
def Sourced (root : Json) (whole : ColumnType) : Prop :=
  ∀ type, Within type whole →
    (∀ branches, type = .union branches → 2 ≤ branches.length) ∧
    (marksParts type = true → ∃ q definition, at? q root = some definition ∧
      typeAt? q root [] = some type ∧ Marks definition type)

lemma namesAt?_append (p q : Place) (value : Json) (names : Names) :
    namesAt? (p ++ q) value names =
      (at? p value).bind fun part => (namesAt? p value names).bind (namesAt? q part) := by
  induction p generalizing value names with
  | nil => rfl
  | cons i p ih =>
    rw [List.cons_append, at?]
    cases here : (parts value)[i]? with
    | none => simp only [namesAt?, here, Option.bind_eq_bind, Option.bind_none]
    | some part =>
      rw [namesAt?_cons here, namesAt?_cons here, Option.bind_some]
      cases namesThrough? ((parts value).take i) names with
      | none => simp
      | some known => exact ih part known

/-- A part of what is at a place is at a place of its own. -/
lemma reached_part {root value part : Json} {p : Place} {i : Nat} {known : Names}
    (there : at? p root = some value) (reached : namesAt? p root [] = some names)
    (here : (parts value)[i]? = some part)
    (through : namesThrough? ((parts value).take i) names = some known) :
    at? (p ++ [i]) root = some part ∧ namesAt? (p ++ [i]) root [] = some known := by
  rw [at?_append, namesAt?_append, there, reached, Option.bind_some, Option.bind_some,
    Option.bind_some, at?, here, namesAt?_cons here, through]
  exact ⟨rfl, rfl⟩

variable {root : Json}

lemma Sourced.of_origin {value : Json} {p : Place} {type : ColumnType}
    (there : at? p root = some value) (typed : typeAt? p root [] = some type)
    (known : ∀ e ∈ names, Sourced root e.2)
    (ofPart : ∀ type, OfPart value names type → Sourced root type)
    (origin : Origin value names type) : Sourced root type := by
  cases origin with
  | leaf bare unmarked single =>
    intro inside within
    cases within with
    | whole => exact ⟨fun branches same => absurd same (single branches), by simp [unmarked]⟩
    | part listed => rw [bare] at listed; cases listed
  | known listed => exact known _ listed
  | part single => exact ofPart _ single
  | union several each =>
    intro inside within
    cases within with
    | whole => exact ⟨fun branches same => ColumnType.union.inj same ▸ several, nofun⟩
    | part listed within => exact ofPart _ (each _ listed) inside within
  | marked marks each =>
    intro inside within
    cases within with
    | whole =>
      refine ⟨?_, fun _ => ⟨p, value, there, typed, marks⟩⟩
      rintro branches rfl
      cases marks
    | part listed within => exact ofPart _ (each _ listed) inside within

/-- Where all types that are known are sourced, a definition adds sourced types only. -/
lemma sourced_of_read (value : Json) : ∀ {p : Place} {names after : Names} {found : Definition},
    at? p root = some value → namesAt? p root [] = some names → (∀ e ∈ names, Sourced root e.2) →
    readType value names = .ok (found, after) →
    Sourced root found.type ∧ ∀ e ∈ after, Sourced root e.2 := by
  induction value using induction_on_parts with
  | step value ih =>
    intro p names after found there reached known read
    obtain ⟨inner, through, rfl⟩ := names_of_readType read
    -- Part by part the types that are known stay sourced.
    have knownAt (i : Nat) : ∀ start, namesThrough? ((parts value).take i) names = some start →
        ∀ e ∈ start, Sourced root e.2 := by
      induction i with
      | zero =>
        rintro start ⟨⟩
        exact known
      | succ i earlier =>
        intro start before
        cases here : (parts value)[i]? with
        | none =>
          have short := List.getElem?_eq_none_iff.mp here
          refine earlier start ?_
          rw [List.take_of_length_le short]
          rwa [List.take_of_length_le (by omega)] at before
        | some part =>
          rw [List.take_add_one, here, Option.toList_some, namesThrough?_append] at before
          obtain ⟨start', before', last⟩ := Option.bind_eq_some_iff.mp before
          rw [namesThrough?] at last
          obtain ⟨following, passed, done⟩ := Option.bind_eq_some_iff.mp last
          cases done
          obtain ⟨-, rfl⟩ | ⟨found', partRead⟩ := bare_or_ok passed
          · exact earlier start before'
          · obtain ⟨there', reached'⟩ := reached_part there reached here before'
            exact (ih part (List.mem_of_getElem? here) there' reached' (earlier start' before')
              partRead).2
    have ofPart : ∀ type, OfPart value names type → Sourced root type := by
      rintro type ⟨i, part, here, start, found', after', before, partRead, rfl⟩
      obtain ⟨there', reached'⟩ := reached_part there reached here before
      exact (ih part (List.mem_of_getElem? here) there' reached' (knownAt i start before)
        partRead).1
    have whole : Sourced root found.type := by
      refine .of_origin there (typeAt?_of_read there reached read) known ofPart ?_
      exact origin_of_readType read
    refine ⟨whole, fun e he => ?_⟩
    obtain own | earlier := List.mem_append.mp he
    · obtain ⟨name, -, rfl⟩ := List.mem_map.mp own
      exact whole
    · refine knownAt (parts value).length inner ?_ e earlier
      rwa [List.take_length]

lemma exists_read_of_typeAt? {q : Place} {value : Json} {type : ColumnType}
    (typed : typeAt? q value names = some type) :
    ∃ definition known found after, at? q value = some definition ∧
      readType definition known = .ok (found, after) ∧ found.type = type := by
  simp only [typeAt?, Option.bind_eq_bind, Option.bind_eq_some_iff] at typed
  obtain ⟨definition, there, known, -, typed⟩ := typed
  split at typed
  · rename_i found after read
    exact ⟨definition, known, found, after, there, read, Option.some.inj typed⟩
  · cases typed

/-- In the schema of a definition that is accepted every union has at least two branches, and a
column, the items of an array or the values of a map are nullable exactly if their definition admits
null: all that is marked in the schema is marked by a definition, also what a name refers to, and
every definition marks the type that it stands for. Where null stands in a union that admits it, and
how often, makes no difference. -/
theorem nullable_exactly_if_null_admitted {raw : String} {value : Json} {schema : TableSchema}
    (text : Json.parse? raw = some value) (accepted : parse raw = .ok schema) :
    (∀ branches, Within (.union branches) (rowType schema) → 2 ≤ branches.length) ∧
    (∀ type, Within type (rowType schema) → marksParts type = true →
      ∃ q definition, at? q value = some definition ∧
        typeIn? q value (rowType schema) = some type ∧ Marks definition type) ∧
    (∀ q members form, at? q value = some (.object members) → form? members = some form →
      form.marksParts = true → ∃ type, typeIn? q value (rowType schema) = some type ∧
        Marks (.object members) type) ∧
    ∀ q branches branches' raw', at? q value = some (.array branches) →
      branches'.filter isProper = branches.filter isProper →
      .string "null" ∈ branches → .string "null" ∈ branches' →
      Json.parse? raw' = some (put q (.array branches') value) →
        parse raw' = .ok { schema with raw := raw' } := by
  obtain ⟨found, after, read, whole⟩ := readType_of_parse text accepted
  have sourced : Sourced value found.type :=
    (sourced_of_read value (show at? [] value = some value from rfl) rfl nofun read).1
  rw [whole] at sourced
  refine ⟨fun branches within => (sourced _ within).1 branches rfl, ?_, ?_, ?_⟩
  · intro type within marked
    obtain ⟨q, definition, there, typed, marks⟩ := (sourced type within).2 marked
    have proper : isProper definition = true := by cases marks <;> rfl
    exact ⟨q, definition, there, (typeIn?_of_parse text accepted there proper).trans typed, marks⟩
  · intro q members form there made marks
    obtain ⟨type, typed, -⟩ := typeIn?_of_read read there rfl
    refine ⟨type, (typeIn?_of_parse text accepted there rfl).trans typed, ?_⟩
    obtain ⟨definition, known, found', after', there', read', rfl⟩ := exists_read_of_typeAt? typed
    cases there.symm.trans there'
    exact marks_of_readType made marks read'
  · intro q branches branches' raw' there proper bare bare' text'
    rw [parse_put_union text there proper bare bare' text', accepted]
    rfl

def lines (amount : List Json) : Json :=
  .object [("items", .array [.string "null", recordOf "line" [("amount", .array amount)]]),
    ("type", .string "array")]

def shipment (amount : List Json) : Json :=
  recordOf "shipment" [("lines", lines amount),
    ("last", .object [("type", .array [.string "null", .string "line"])])]

/-- The lines are not nullable but their items are, and the amount of a line is nullable wherever
null stands among its types. -/
theorem nullable_exactly_if_null_admitted_of_shipment :
    ∃ schema, parse (shipment [.string "long", .string "null"]).compact = .ok schema ∧
      schema.columns.map (·.nullable) = [false, true] ∧
      (∃ type, typeIn? [0] (shipment [.string "long", .string "null"]) (rowType schema) =
        some type ∧ Marks (lines [.string "long", .string "null"]) type) ∧
      parse (shipment [.string "null", .string "long", .string "null"]).compact = .ok { schema with
        raw := (shipment [.string "null", .string "long", .string "null"]).compact } := by
  have settled : Json.Settled Json.depthLimit (shipment [.string "long", .string "null"]) :=
    ⟨by simp [Json.Fits, Json.depthLimit, shipment, recordOf, fieldsOf, lines], rfl⟩
  have settled' : Json.Settled Json.depthLimit
      (shipment [.string "null", .string "long", .string "null"]) :=
    ⟨by simp [Json.Fits, Json.depthLimit, shipment, recordOf, fieldsOf, lines], rfl⟩
  obtain ⟨schema, accepted, records⟩ := parse_compact settled rfl
  obtain ⟨-, -, marked, unmoved⟩ :=
    nullable_exactly_if_null_admitted settled.parse?_compact accepted
  have columns := (ColumnType.record.inj records).2
  refine ⟨schema, accepted, by rw [columns]; rfl, marked [0] _ .array rfl rfl rfl, ?_⟩
  exact unmoved [0, 0, 1, 0] _ [.string "null", .string "long", .string "null"] _ rfl rfl (by simp)
    (by simp) settled'.parse?_compact

end LakeCatalog.Avro
