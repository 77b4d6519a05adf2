import LakeCatalog.Proofs.Avro.ReadAlike
import LakeCatalog.Proofs.Avro.Reference

/-!
# Definitions written as objects

A definition can be written as the `type` of an object that says nothing else, and the object is
read as the definition itself. There is one exception: null is a branch of a union only as a string,
and as an object it is a fault of the whole definition. A fault at a place that is reached is the
fault of the whole, since what comes before the place is read as before.
-/

namespace LakeCatalog.Avro

open Schema

/-- A definition written as an object. -/
def asObject (definition : Json) : Json :=
  .object [("type", definition)]

/-- The words by which an object says that it defines a type. -/
def keywords : List String :=
  ["record", "error", "enum", "fixed", "array", "map"]

/-- No named type in a definition has one of these words as its name. -/
def SparesKeywords (value : Json) : Prop :=
  ∀ p definition members name, at? p value = some definition →
    named? definition = some (members, name) → name ∉ keywords

variable {names known after : Names} {value part new definition : Json} {found : Definition}
  {fault : Fault} {i : Nat} {q : Place}

lemma readType_asObject (free : ∀ word ∈ keywords, definition ≠ .string word) :
    readType (asObject definition) = readType definition := by
  rw [asObject, readType_object]
  cases definition with
  | string name =>
    have refers : form? [("type", .string name)] = some (.reference name) := by
      simp only [keywords, List.forall_mem_cons, ne_eq, Json.string.injEq] at free
      have plain : logicalType? [("type", .string name)] name = none := rfl
      have typed : form? [("type", .string name)] = some (formOf [("type", .string name)] name) :=
        rfl
      rw [typed, formOf, plain]
      simp [free]
    rw [refers, readType]
  | _ => rfl

lemma simpleType?_of_keyword {word : String} (mem : word ∈ keywords) :
    simpleType? word = none ∧ word ≠ "null" ∧ '.' ∉ word.toList := by
  revert word
  decide

/-- A keyword that is not the name of a type cannot be read. -/
lemma not_read_keyword {word : String} (mem : word ∈ keywords)
    (unknown : names.lookup word = none) : readType (.string word) names ≠ .ok (found, after) := by
  intro read
  obtain ⟨compound, notNull, dotless⟩ := simpleType?_of_keyword mem
  rw [readType] at read
  obtain ⟨type, known, resolved, -⟩ := Reading.bind_ok read
  rw [resolve, compound] at resolved
  dsimp only at resolved
  rw [if_neg notNull, Names.find?, shortName_of_dotless dotless, unknown] at resolved
  cases resolved

lemma SparesKeywords.not_files {word : String} (spares : SparesKeywords value)
    (mem : word ∈ keywords) (p : Place) : ¬ Files p word value := by
  rintro ⟨definition, there, filed⟩
  obtain ⟨members, name, named, listed⟩ := exists_named_of_mem_filed filed
  obtain ⟨-, -, dotless⟩ := simpleType?_of_keyword mem
  exact spares p definition members name there named (eq_of_mem_fileNames listed dotless ▸ mem)

/-- What stands at a place in a definition that is read is read there itself. -/
lemma exists_read_at (read : readType value names = .ok (found, after))
    (there : at? q value = some definition) (proper : isProper definition = true) :
    ∃ known found' after', namesAt? q value names = some known ∧
      readType definition known = .ok (found', after') := by
  obtain ⟨known, reached⟩ := exists_namesAt? read there
  obtain ⟨type, typed, -⟩ := typeIn?_of_read read there proper
  simp only [typeAt?, there, reached, Option.bind_eq_bind, Option.bind_some] at typed
  split at typed
  · rename_i found' after' read'
    exact ⟨known, found', after', reached, read'⟩
  · cases typed

lemma SparesKeywords.ne_keyword (spares : SparesKeywords value)
    (read : readType value [] = .ok (found, after)) (there : at? q value = some definition)
    (proper : isProper definition = true) : ∀ word ∈ keywords, definition ≠ .string word := by
  rintro word mem rfl
  obtain ⟨known, found', after', reached, read'⟩ := exists_read_at read there proper
  refine not_read_keyword mem ?_ read'
  exact lookup_at_of_files_nowhere (fun p _ => spares.not_files mem p) reached

lemma readBranches_set_error {branches : List Json} (here : branches[i]? = some part)
    (through : namesThrough? (branches.take i) names = some known) (proper : isProper new = true)
    (fails : readType new known = .error fault) :
    readBranches (branches.set i new) names = .error fault := by
  induction branches generalizing i names with
  | nil => cases here
  | cons branch rest ih =>
    cases i with
    | zero =>
      cases through
      rw [List.set_cons_zero, readBranches_cons proper, Reading.bind_of_error fails]
    | succ i =>
      rw [List.take_succ_cons, namesThrough?] at through
      obtain ⟨middle, passed, through⟩ := Option.bind_eq_some_iff.mp through
      rw [List.set_cons_succ]
      by_cases bare : branch = .string "null"
      · subst bare
        cases passed
        rw [readBranches, Reading.bind_of_error (ih here through)]
      · obtain ⟨rfl, -⟩ | ⟨first, read⟩ := bare_or_ok passed
        · exact absurd rfl bare
        · rw [readBranches_cons (isProper_iff.mpr bare), Reading.bind_of_ok read,
            Reading.bind_apply, ih here through]

lemma readMember_replaceMember_error {key : String} {members : List (String × Json)} {old : Json}
    (missing : SchemaFault) (written : members.lookup key = some old)
    (fails : readType new names = .error fault) :
    readMember key missing (replaceMember key new members) names = .error fault := by
  rw [readMember_eq, lookup_replaceMember, if_pos rfl, written]
  exact fails

lemma readColumn_retype_error {record : String} {field : Json} {column : Column}
    (read : readColumn record field names = .ok (column, after))
    (fails : readType new names = .error fault) :
    readColumn record (retype new field) names = .error fault := by
  obtain ⟨type, -, typed, -, -⟩ := readColumn_ok read
  cases field with
  | object members =>
    rw [readColumn] at read
    obtain ⟨name, known, named, -⟩ := Reading.bind_ok read
    obtain ⟨-, rfl⟩ := requireText_ok named
    rw [retype, readColumn, requireText_replaceMember (by decide), Reading.bind_of_ok named,
      Reading.bind_of_error (readMember_replaceMember_error _ typed fails)]
  | _ => cases read

lemma readColumns_modify_error {record : String} {fields : List Json} {columns : List Column}
    (read : readColumns record fields names = .ok (columns, after))
    (here : (fields.map fieldType)[i]? = some part)
    (through : namesThrough? ((fields.map fieldType).take i) names = some known)
    (fails : readType new known = .error fault) :
    readColumns record (fields.modify i (retype new)) names = .error fault := by
  induction fields generalizing i names columns after with
  | nil => cases here
  | cons field rest ih =>
    rw [readColumns] at read
    obtain ⟨first, middle, firstRead, read⟩ := Reading.bind_ok read
    obtain ⟨columns, last, others, -⟩ := Reading.bind_ok read
    cases i with
    | zero =>
      cases through
      rw [List.modify_zero_cons, readColumns,
        Reading.bind_of_error (readColumn_retype_error firstRead fails)]
    | succ i =>
      obtain ⟨type, found, typed, typeRead, -⟩ := readColumn_ok firstRead
      have passed : namesAfter? (fieldType field) names = some middle := by
        rw [fieldType, typed, Option.getD_some]
        exact namesAfter?_of_ok typeRead
      rw [List.map_cons, List.take_succ_cons, namesThrough?, passed, Option.bind_some] at through
      rw [List.modify_succ_cons, readColumns, Reading.bind_of_ok firstRead,
        Reading.bind_of_error (ih others here through)]

/-- A definition that is read has the fault of a part that is put in the place of another one. -/
lemma readType_replacePart_error (read : readType value names = .ok (found, after))
    (here : (parts value)[i]? = some part)
    (through : namesThrough? ((parts value).take i) names = some known)
    (compound : IsCompound new) (fails : readType new known = .error fault) :
    readType (replacePart i new value) names = .error fault := by
  cases value with
  | array branches =>
    have faulty : readBranches (branches.set i new) names = .error fault :=
      readBranches_set_error here through compound.isProper fails
    rw [replacePart, readType, Reading.bind_of_error faulty]
  | object members =>
    rw [readType_object] at read
    rw [parts] at here through
    rw [replacePart]
    generalize stands : form? members = form at read here through ⊢
    obtain _ | form := form
    · cases here
    cases form with
    | around inner =>
      obtain ⟨bound, -⟩ := List.getElem?_eq_some_iff.mp here
      cases Nat.lt_one_iff.mp bound
      cases through
      dsimp only
      rw [readType_object, form?_of_around stands compound.ne_string]
      exact fails
    | record =>
      obtain ⟨name, start, asked, read⟩ := Reading.bind_ok read
      obtain ⟨columns, later, columnsRead, -⟩ := Reading.bind_ok read
      obtain ⟨-, rfl⟩ := requireText_ok asked
      obtain ⟨listed, columnsRead⟩ := readColumnsOf_ok columnsRead
      dsimp only
      rw [readType_object, form?_replaceMember (by decide), stands]
      dsimp only
      rw [requireText_replaceMember (by decide), Reading.bind_of_ok asked]
      refine Reading.bind_of_error ?_
      rw [readColumnsOf_eq, lookup_replaceMember, if_pos rfl, listed]
      exact readColumns_modify_error columnsRead here through fails
    | array | map =>
      obtain ⟨old, -, written, -, -⟩ := member_ok read
      dsimp only at here through
      rw [written] at here through
      obtain ⟨bound, -⟩ := List.getElem?_eq_some_iff.mp here
      cases Nat.lt_one_iff.mp bound
      cases through
      dsimp only
      rw [readType_object, form?_replaceMember (by decide), stands]
      dsimp only
      exact Reading.bind_of_error (readMember_replaceMember_error _ written fails)
    | refined | enumeration | fixed | reference => cases here
  | _ => cases here

/-- A definition that is read has the fault of what is put at a place in it. -/
theorem readType_put_error (read : readType value names = .ok (found, after))
    (there : at? q value = some definition) (reached : namesAt? q value names = some known)
    (compound : IsCompound new) (fails : readType new known = .error fault) :
    readType (put q new value) names = .error fault := by
  induction q generalizing value names found after with
  | nil =>
    cases reached
    exact fails
  | cons i q ih =>
    obtain ⟨part, here, inside⟩ := at?_cons_eq_some_iff.mp there
    obtain ⟨inner, all, -⟩ := names_of_readType read
    obtain ⟨start, following, through, passed, -⟩ := namesThrough?_split here all
    rw [namesAt?_cons here, through, Option.bind_some] at reached
    rw [put_cons here]
    refine readType_replacePart_error read here through (isCompound_put inside compound) ?_
    obtain ⟨rfl, -⟩ | ⟨found', partRead⟩ := bare_or_ok passed
    · obtain ⟨rfl, -⟩ := eq_of_at?_string inside
      cases reached
      exact fails
    · exact ih partRead inside reached

/-- In a definition that is accepted, and that gives no type a name that is a keyword, what stands
at a place inside can be written as an object, and the schema stays the same. Only null as a branch
of a union cannot: as an object it is refused. -/
theorem object_spelling_is_read_alike {raw raw' : String} {schema : TableSchema}
    (text : Json.parse? raw = some value) (accepted : parse raw = .ok schema)
    (spares : SparesKeywords value) (inside : q ≠ []) (there : at? q value = some definition)
    (text' : Json.parse? raw' = some (put q (asObject definition) value)) :
    (definition ≠ .string "null" → parse raw' = .ok { schema with raw := raw' }) ∧
      (definition = .string "null" → parse raw' = .error (.schema .bareNull)) := by
  obtain ⟨found, after, read, -⟩ := readType_of_parse text accepted
  constructor
  · intro notNull
    have proper := isProper_iff.mpr notNull
    have same := readType_asObject (spares.ne_keyword read there proper)
    rw [parse_alike text text' (readType_put there same proper trivial)
      (namespace_put inside _ value), accepted]
    rfl
  · rintro rfl
    obtain ⟨known, reached⟩ := exists_namesAt? read there
    have fails : readType (asObject (.string "null")) known = .error (.schema .bareNull) := rfl
    rw [parse, text']
    dsimp only
    have compound : IsCompound (asObject (.string "null")) := trivial
    rw [readType_put_error read there reached compound fails]

lemma sparesKeywords_of_parts
    (own : ∀ members name, named? value = some (members, name) → name ∉ keywords)
    (inner : ∀ part ∈ parts value, SparesKeywords part) : SparesKeywords value := by
  intro p definition members name there named
  cases p with
  | nil => cases there; exact own members name named
  | cons i p =>
    obtain ⟨part, here, inside⟩ := at?_cons_eq_some_iff.mp there
    exact inner part (List.mem_of_getElem? here) p definition members name inside named

def parcel (sent : List Json) : Json :=
  recordOf "parcel" [("sent", .array sent), ("returned", .string "status")]

def optionalStatus : List Json := [.string "null", enumOf "status" ["NEW"]]

lemma sparesKeywords_parcel : SparesKeywords (parcel optionalStatus) := by
  have text (name : String) : SparesKeywords (.string name) := sparesKeywords_of_parts nofun nofun
  have status : SparesKeywords (enumOf "status" ["NEW"]) := by
    refine sparesKeywords_of_parts ?_ nofun
    rintro members name ⟨⟩
    decide
  have sent : SparesKeywords (.array optionalStatus) := by
    refine sparesKeywords_of_parts nofun ?_
    rw [parts, optionalStatus]
    simp [text, status]
  refine sparesKeywords_of_parts ?_ ?_
  · rintro members name ⟨⟩
    decide
  · have columns : parts (parcel optionalStatus) = [.array optionalStatus, .string "status"] := rfl
    rw [columns]
    simp [text, sent]

lemma settled_parcel : Json.Settled Json.depthLimit (parcel optionalStatus) :=
  ⟨by simp [Json.Fits, Json.depthLimit, parcel, recordOf, fieldsOf, optionalStatus, enumOf,
    Json.ofStrings], rfl⟩

/-- An optional status can be defined inside an object, and its name still stands for it. -/
theorem object_spelling_of_optional_status :
    let written := put [0, 1] (asObject (enumOf "status" ["NEW"])) (parcel optionalStatus)
    ∃ schema, parse (parcel optionalStatus).compact = .ok schema ∧
      SparesKeywords (parcel optionalStatus) ∧
      written = parcel [.string "null", asObject (enumOf "status" ["NEW"])] ∧
      parse written.compact = .ok { schema with raw := written.compact } := by
  intro written
  have settled : Json.Settled Json.depthLimit
      (parcel [.string "null", asObject (enumOf "status" ["NEW"])]) :=
    ⟨by simp [Json.Fits, Json.depthLimit, parcel, recordOf, fieldsOf, enumOf, asObject,
      Json.ofStrings], rfl⟩
  have text' : Json.parse? written.compact = some written := settled.parse?_compact
  obtain ⟨schema, accepted, -⟩ := parse_compact settled_parcel rfl
  have compound : IsCompound (enumOf "status" ["NEW"]) := trivial
  refine ⟨schema, accepted, sparesKeywords_parcel, rfl, ?_⟩
  exact (object_spelling_is_read_alike settled_parcel.parse?_compact accepted
    sparesKeywords_parcel (List.cons_ne_nil _ _) rfl text').1 (compound.ne_string "null")

/-- The null of an optional status is refused as an object. -/
theorem null_refused_as_object :
    ∃ raw value schema q, Json.parse? raw = some value ∧ parse raw = .ok schema ∧
      SparesKeywords value ∧ IsPosition q value ∧ at? q value = some (.string "null") ∧
      let written := put q (asObject (.string "null")) value
      Json.parse? written.compact = some written ∧
        parse written.compact = .error (.schema .bareNull) := by
  obtain ⟨schema, accepted, -⟩ := parse_compact settled_parcel rfl
  have settled : Json.Settled Json.depthLimit
      (parcel [asObject (.string "null"), enumOf "status" ["NEW"]]) :=
    ⟨by simp [Json.Fits, Json.depthLimit, parcel, recordOf, fieldsOf, enumOf, asObject,
      Json.ofStrings], rfl⟩
  have text' :
      Json.parse? (put [0, 0] (asObject (.string "null")) (parcel optionalStatus)).compact =
      some (put [0, 0] (asObject (.string "null")) (parcel optionalStatus)) :=
    settled.parse?_compact
  refine ⟨_, parcel optionalStatus, schema, [0, 0], settled_parcel.parse?_compact,
    accepted, sparesKeywords_parcel, ⟨[0], 0, _, rfl, rfl, rfl, by decide⟩, rfl, text', ?_⟩
  rw [parse, text']
  rfl

end LakeCatalog.Avro
