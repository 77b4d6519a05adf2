import LakeCatalog.Proofs.Avro.Nullability
import Mathlib.Data.List.Nodup

/-!
# Reading a schema with metadata columns

The fields that define the missing metadata columns can be read whatever the record is, they define
no names, and they stand in front of the fields of the record. So what the record says is read as
before, with the same names known at every place in it, and its schema is the one that it had with
the metadata columns in front.
-/

namespace LakeCatalog.Avro

open Schema

/-- A metadata column: a nullable string without documentation. -/
def metadataColumn (name : String) : Column := ⟨name, .simple .string, true, none⟩

def missingFrom (columns : List Column) : List String :=
  metadataColumns.filter fun name => !(columns.map (·.name)).contains name

/-- A schema with the metadata columns that it does not have in front, as it is read from a text. -/
def withMetadata (raw : String) (s : TableSchema) : TableSchema :=
  { s with columns := (missingFrom s.columns).map metadataColumn ++ s.columns, raw := raw }

/-- A list of fields with those of the missing metadata columns in front. -/
def amendedFields (list : List Json) : List Json :=
  (missingColumns list).map metadataField ++ list

/-- The attributes of a record with the missing metadata columns in front of its fields. -/
def amended (members : List (String × Json)) : List (String × Json) :=
  replaceMember "fields" (.array (amendedFields (fields members))) members

variable {members : List (String × Json)} {names after : Names}

lemma nodup_metadataColumns : metadataColumns.Nodup := by decide

/-- Each metadata column is there afterwards, once if it was missing and else as often as before. -/
lemma count_withMetadata (raw : String) (s : TableSchema) {name : String}
    (mem : name ∈ metadataColumns) :
    ((withMetadata raw s).columns.map (·.name)).count name =
      max 1 ((s.columns.map (·.name)).count name) := by
  have added : ((missingFrom s.columns).map metadataColumn).map (·.name) =
      missingFrom s.columns := by
    rw [List.map_map]
    exact List.map_id _
  rw [withMetadata, List.map_append, List.count_append, added, missingFrom]
  by_cases present : name ∈ s.columns.map (·.name)
  · have counted := List.count_pos_iff.mpr present
    rw [List.count_eq_zero_of_not_mem fun listed => by simp_all]
    omega
  · rw [List.count_filter (by simpa using present), List.count_eq_zero_of_not_mem present,
      List.count_eq_one_of_mem nodup_metadataColumns mem]
    rfl

lemma missingColumns_amendedFields (list : List Json) :
    missingColumns (amendedFields list) = [] := by
  have added : ((missingColumns list).map metadataField).filterMap fieldName? =
      missingColumns list := by
    rw [List.filterMap_map]
    exact List.filterMap_some
  refine List.filter_eq_nil_iff.mpr fun name mem => ?_
  rw [amendedFields, List.filterMap_append, added]
  by_cases present : name ∈ list.filterMap fieldName?
  · simp [present]
  · have listed : name ∈ missingColumns list :=
      List.mem_filter.mpr ⟨mem, by simpa using present⟩
    simp [listed]

lemma readColumn_metadataField (record name : String) (names : Names) :
    readColumn record (metadataField name) names = .ok (metadataColumn name, names) := rfl

lemma readColumns_metadata (record : String) (missing : List String) (rest : List Json)
    (names : Names) :
    readColumns record (missing.map metadataField ++ rest) names =
      (readColumns record rest names).map fun found =>
        (missing.map metadataColumn ++ found.1, found.2) := by
  induction missing with
  | nil =>
    rw [List.map_nil, List.nil_append]
    cases readColumns record rest names <;> rfl
  | cons name missing ih =>
    rw [List.map_cons, List.cons_append, readColumns,
      Reading.bind_of_ok (readColumn_metadataField record name names), Reading.bind_apply, ih]
    cases readColumns record rest names <;> rfl

lemma readColumns_names {record : String} {list : List Json} {columns : List Column}
    (read : readColumns record list names = .ok (columns, after)) :
    list.filterMap fieldName? = columns.map (·.name) := by
  induction list generalizing names columns with
  | nil =>
    rw [readColumns] at read
    cases read
    rfl
  | cons field rest ih =>
    rw [readColumns] at read
    obtain ⟨first, known, firstRead, read⟩ := Reading.bind_ok read
    obtain ⟨columns, known', others, done⟩ := Reading.bind_ok read
    cases done
    have named : fieldName? field = some first.name := by
      rw [fieldName?, (readColumn_marked firstRead).1]
      rfl
    rw [List.filterMap_cons_some named, ih others, List.map_cons]

lemma form?_of_record {base : String} (typed : text? "type" members = some base)
    (record : base = "record" ∨ base = "error") : form? members = some .record := by
  have plain : logicalType? members base = none := by
    rw [logicalType?]
    cases text? "logicalType" members with
    | none => rfl
    | some logical =>
      rw [Option.bind_eq_bind, Option.bind_some]
      split <;> first | rfl | simp at record
  rw [form?, lookup_of_text? typed]
  dsimp only
  rw [formOf, plain]
  exact congrArg some (if_pos record)

/-- The schema of a record that is read from a text. -/
lemma parse_record {raw : String} (text : Json.parse? raw = some (.object members))
    (form : form? members = some .record) :
    parse raw =
      match text? "name" members with
      | none => .error (.schema (.missingAttribute "name"))
      | some name =>
        (readColumnsOf name members []).map fun found =>
          ⟨name, text? "namespace" members, found.1, raw⟩ := by
  have space : ((Json.object members).member? "namespace").bind Json.string? =
      text? "namespace" members := rfl
  rw [parse, text]
  dsimp only
  rw [space]
  rw [readType_object, form]
  dsimp only
  rw [Reading.bind_apply, requireText]
  cases text? "name" members with
  | none => rfl
  | some name =>
    dsimp only [Reading.pure]
    rw [Reading.bind_apply]
    cases readColumnsOf name members [] with
    | error fault => rfl
    | ok found =>
      dsimp only
      rw [Reading.bind_apply, register]
      cases text? "namespace" members <;> rfl

lemma text?_amended {key : String} (other : key ≠ "fields") :
    text? key (amended members) = text? key members :=
  text?_replaceMember other _

lemma form?_amended (form : form? members = some .record) :
    form? (amended members) = some .record :=
  (form?_replaceMember (by decide) _).trans form

lemma lookup_amended (listed : members.lookup "fields" = some (.array (fields members))) :
    (amended members).lookup "fields" = some (.array (amendedFields (fields members))) := by
  rw [amended, lookup_replaceMember, if_pos rfl, listed]
  rfl

lemma fields_amended (listed : members.lookup "fields" = some (.array (fields members))) :
    fields (amended members) = amendedFields (fields members) := by
  rw [fields, lookup_amended listed]
  rfl

/-- The schema of a record, with the missing metadata columns in front. -/
lemma parse_amended {raw raw' : String} (text : Json.parse? raw = some (.object members))
    (text' : Json.parse? raw' = some (.object (amended members)))
    (form : form? members = some .record)
    (listed : members.lookup "fields" = some (.array (fields members))) :
    parse raw' = (parse raw).map (withMetadata raw') := by
  rw [parse_record text form, parse_record text' (form?_amended form), text?_amended (by decide),
    text?_amended (by decide)]
  cases text? "name" members with
  | none => rfl
  | some name =>
    dsimp only
    rw [readColumnsOf_eq, readColumnsOf_eq, lookup_amended listed, listed]
    dsimp only
    rw [readFieldList, readFieldList, amendedFields, readColumns_metadata]
    cases read : readColumns name (fields members) [] with
    | error fault => rfl
    | ok found =>
      have same : missingColumns (fields members) = missingFrom found.1 := by
        rw [missingColumns, missingFrom, readColumns_names read]
      rw [same]
      rfl

lemma columns_of_parse {raw : String} {schema : TableSchema}
    (text : Json.parse? raw = some (.object members)) (form : form? members = some .record)
    (accepted : parse raw = .ok schema) :
    ∃ known, readColumnsOf schema.name members [] = .ok (schema.columns, known) ∧
      schema.raw = raw := by
  rw [parse_record text form] at accepted
  cases named : text? "name" members with
  | none => rw [named] at accepted; cases accepted
  | some name =>
    rw [named] at accepted
    dsimp only at accepted
    cases read : readColumnsOf name members [] with
    | error fault => rw [read] at accepted; cases accepted
    | ok found =>
      rw [read] at accepted
      cases accepted
      exact ⟨found.2, read, rfl⟩

lemma namesThrough?_metadata (missing : List String) (rest : List Json) (names : Names) :
    namesThrough? ((missing.map metadataField).map fieldType ++ rest) names =
      namesThrough? rest names := by
  induction missing with
  | nil => rfl
  | cons name missing ih => exact ih

lemma typeAt?_part (i : Nat) (q : Place) (value : Json) (names : Names) :
    typeAt? (i :: q) value names = (parts value)[i]?.bind fun part =>
      (namesThrough? ((parts value).take i) names).bind (typeAt? q part) := by
  cases here : (parts value)[i]? with
  | none => simp only [typeAt?, at?, here, Option.bind_eq_bind, Option.bind_none]
  | some part => rw [typeAt?_cons here, Option.bind_some]

/-- What stands at a place in a record is there what it was. -/
lemma typeAt?_amended (form : form? members = some .record)
    (listed : members.lookup "fields" = some (.array (fields members))) (i : Nat) (q : Place)
    (names : Names) :
    typeAt? (((missingColumns (fields members)).length + i) :: q) (.object (amended members))
      names = typeAt? (i :: q) (.object members) names := by
  have before : parts (.object members) = (fields members).map fieldType := by rw [parts, form]
  have behind : parts (.object (amended members)) =
      ((missingColumns (fields members)).map metadataField).map fieldType ++
        (fields members).map fieldType := by
    rw [parts, form?_amended form]
    dsimp only
    rw [fields_amended listed, amendedFields, List.map_append]
  have length : (missingColumns (fields members)).length =
      (((missingColumns (fields members)).map metadataField).map fieldType).length := by
    rw [List.length_map, List.length_map]
  rw [typeAt?_part, typeAt?_part, before, behind, length, List.getElem?_append_right (by omega),
    List.take_length_add_append, namesThrough?_metadata, Nat.add_sub_cancel_left]

lemma addMetadataColumns_of_listed {raw : String}
    (text : Json.parse? raw = some (.object members))
    (listed : members.lookup "fields" = some (.array (fields members))) :
    addMetadataColumns raw =
      if missingColumns (fields members) = [] then .ok raw
      else .ok (Json.object (amended members)).compact := by
  have found : ((Json.object members).member? "fields").bind Json.array? =
      some (fields members) := by
    rw [Json.member?, listed]
    rfl
  rw [addMetadataColumns, text]
  dsimp only
  rw [found]
  dsimp only
  cases missing : missingColumns (fields members) with
  | nil => rfl
  | cons name more =>
    rw [if_neg (List.cons_ne_nil name more), amended, amendedFields, missing]

/-- Without fields neither is a text returned nor is there a schema. -/
lemma listed_or_refused {raw : String} (text : Json.parse? raw = some (.object members))
    (form : form? members = some .record) :
    members.lookup "fields" = some (.array (fields members)) ∨
      addMetadataColumns raw = .error (.schema .noFieldsArray) ∧
        ∃ fault, parse raw = .error fault := by
  cases found : (members.lookup "fields").bind Json.array? with
  | some items =>
    left
    obtain ⟨value, written, array⟩ := Option.bind_eq_some_iff.mp found
    rw [fields, found, written]
    cases value with
    | array => cases array; rfl
    | _ => cases array
  | none =>
    right
    refine ⟨?_, ?_⟩
    · rw [addMetadataColumns, text]
      dsimp only
      rw [Json.member?, found]
    · cases accepted : parse raw with
      | error fault => exact ⟨fault, rfl⟩
      | ok schema =>
        obtain ⟨known, read, -⟩ := columns_of_parse text form accepted
        rw [(readColumnsOf_ok read).1] at found
        cases found

/-- A schema that has all metadata columns gets none. -/
lemma parse_of_complete {raw : String} (text : Json.parse? raw = some (.object members))
    (form : form? members = some .record)
    (complete : missingColumns (fields members) = []) :
    parse raw = (parse raw).map (withMetadata raw) := by
  cases accepted : parse raw with
  | error fault => rfl
  | ok schema =>
    obtain ⟨known, read, rfl⟩ := columns_of_parse text form accepted
    rw [missingColumns, readColumns_names (readColumnsOf_ok read).2] at complete
    rw [Except.map, withMetadata, missingFrom, complete]
    rfl

/-- Adding the metadata columns and reading come to the same in either order: where a text is
returned, it is read as the schema that the text before it was read as, with the missing metadata
columns in front, or is refused as that one was, and where none is returned, there is no schema
either. Then each metadata column is there, none is there twice that was not before, every place in
the record stands for the type that it stood for, and there is nothing left to add. -/
theorem metadata_columns_commute {raw base : String}
    (text : Json.parse? raw = some (.object members)) (typed : text? "type" members = some base)
    (record : base = "record" ∨ base = "error")
    (readsBack : Json.parse? (Json.object (amended members)).compact =
      some (.object (amended members))) :
    (∀ fault, addMetadataColumns raw = .error fault → ∃ fault', parse raw = .error fault') ∧
    ∀ text', addMetadataColumns raw = .ok text' →
      parse text' = (parse raw).map (withMetadata text') ∧
      (∀ schema, parse raw = .ok schema → ∀ name ∈ metadataColumns,
        ((withMetadata text' schema).columns.map (·.name)).count name =
          max 1 ((schema.columns.map (·.name)).count name)) ∧
      (∃ value, Json.parse? text' = some value ∧ ∀ i q,
        typeAt? (((missingColumns (fields members)).length + i) :: q) value [] =
          typeAt? (i :: q) (.object members) []) ∧
      addMetadataColumns text' = .ok text' := by
  have form : form? members = some .record := form?_of_record typed record
  obtain listed | ⟨refused, fault, failed⟩ := listed_or_refused text form
  swap
  · refine ⟨fun _ _ => ⟨fault, failed⟩, fun text' returned => ?_⟩
    rw [refused] at returned
    cases returned
  rw [addMetadataColumns_of_listed text listed]
  by_cases complete : missingColumns (fields members) = []
  · rw [if_pos complete]
    refine ⟨nofun, ?_⟩
    rintro text' ⟨⟩
    refine ⟨parse_of_complete text form complete,
      fun schema _ name mem => count_withMetadata _ schema mem, ⟨_, text, fun i q => ?_⟩, ?_⟩
    · rw [complete, List.length_nil, Nat.zero_add]
    · rw [addMetadataColumns_of_listed text listed, if_pos complete]
  · rw [if_neg complete]
    refine ⟨nofun, ?_⟩
    rintro text' ⟨⟩
    refine ⟨parse_amended text readsBack form listed,
      fun schema _ name mem => count_withMetadata _ schema mem,
      ⟨_, readsBack, fun i q => typeAt?_amended form listed i q []⟩, ?_⟩
    have settled := missingColumns_amendedFields (fields members)
    have listed' : (amended members).lookup "fields" =
        some (.array (fields (amended members))) := by
      rw [fields_amended listed, lookup_amended listed]
    rw [addMetadataColumns_of_listed readsBack listed', fields_amended listed, if_pos settled]

def tripFields : List Json :=
  [.object [("name", .string "first"), ("type", enumOf "status" ["NEW"])],
    .object [("name", .string "_hoodie_record_key"), ("type", .string "string")],
    .object [("name", .string "last"), ("type", .string "status")]]

def trips (list : List Json) : List (String × Json) :=
  [("fields", .array list), ("name", .string "trips"), ("type", .string "record")]

/-- Four columns come in front of three, and the last of them is still a status. -/
theorem metadata_columns_commute_of_trips :
    ∃ text' schema, addMetadataColumns (Json.object (trips tripFields)).compact = .ok text' ∧
      parse text' = .ok schema ∧
      schema.columns.map (·.name) = ["_hoodie_commit_time", "_hoodie_commit_seqno",
        "_hoodie_partition_path", "_hoodie_file_name", "first", "_hoodie_record_key", "last"] ∧
      (∃ value, Json.parse? text' = some value ∧
        typeAt? [6] value [] = some (.enumeration ["NEW"])) ∧
      addMetadataColumns text' = .ok text' := by
  have settled : Json.Settled Json.depthLimit (.object (trips tripFields)) :=
    ⟨by simp [Json.Fits, Json.depthLimit, trips, tripFields, enumOf, Json.ofStrings], rfl⟩
  have settled' : Json.Settled Json.depthLimit (.object (amended (trips tripFields))) := by
    have written : amended (trips tripFields) = trips ((["_hoodie_commit_time",
      "_hoodie_commit_seqno", "_hoodie_partition_path", "_hoodie_file_name"]).map metadataField ++
        tripFields) := rfl
    rw [written]
    exact ⟨by simp [Json.Fits, Json.depthLimit, trips, tripFields, enumOf, Json.ofStrings,
      metadataField], rfl⟩
  have text := settled.parse?_compact
  obtain ⟨schema, accepted, records⟩ := parse_compact settled rfl
  have columns := (ColumnType.record.inj records).2
  have returned : addMetadataColumns (Json.object (trips tripFields)).compact =
      .ok (Json.object (amended (trips tripFields))).compact :=
    addMetadataColumns_of_listed text rfl
  obtain ⟨same, -, ⟨value, read, unmoved⟩, complete⟩ :=
    (metadata_columns_commute text rfl (.inl rfl) settled'.parse?_compact).2 _ returned
  refine ⟨_, withMetadata _ schema, returned, by rw [same, accepted]; rfl, ?_,
    ⟨value, read, unmoved 2 []⟩, complete⟩
  rw [withMetadata, columns]
  rfl

end LakeCatalog.Avro
