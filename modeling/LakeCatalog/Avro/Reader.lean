import LakeCatalog.Fault
import LakeCatalog.Json.Text
import LakeCatalog.Schema

/-!
# Reading Avro record schemas

The table schema that an Avro definition in JSON stands for. A definition is a name, a union
(an array of definitions) or an object whose `type` says what it defines. A union admits null if
one of its branches is the string `null` or admits null itself; what is left of it is its only
other branch, or a union of them. A logical type counts only on the type that it refines.

Records, enumerations and fixed types can be referred to by their names once their definitions
have been read, so the names found so far are handed from definition to definition. A reference
is looked up as it is written, and then by what follows its last point; of definitions with one
name the last counts.

Every record of a table carries five columns that the table format keeps for itself. A stored
schema that does not list them gets those that are missing in front of its fields, in a fixed
order; a schema that lists all of them stays as it is, character for character.
-/

namespace LakeCatalog.Avro

open Schema

/-- The named types found so far, the last one first. -/
abbrev Names := List (String × ColumnType)

/-- A computation that knows the named types found so far. -/
abbrev Reading (α : Type) := Names → Except Fault (α × Names)

namespace Reading

variable {α β : Type}

def pure (x : α) : Reading α := fun names => .ok (x, names)

def fail (cause : SchemaFault) : Reading α := fun _ => .error (.schema cause)

def andThen (r : Reading α) (f : α → Reading β) : Reading β := fun names =>
  match r names with
  | .ok (x, names) => f x names
  | .error fault => .error fault

instance : Monad Reading where
  pure := Reading.pure
  bind := Reading.andThen

end Reading

/-- A type, and whether its definition admits null. -/
structure Definition where
  type : ColumnType
  nullable : Bool
  deriving DecidableEq, Inhabited

/-- The types that can be named without a definition. -/
def simpleType? : String → Option SimpleType
  | "boolean" => some .boolean
  | "int" => some .int
  | "long" => some .long
  | "float" => some .float
  | "double" => some .double
  | "bytes" => some .bytes
  | "string" => some .string
  | _ => none

/-- What follows the last point of a name. -/
def shortName (name : String) : String :=
  String.ofList ((name.toList.reverse.takeWhile (· != '.')).reverse)

def Names.find? (names : Names) (name : String) : Option ColumnType :=
  (names.lookup name).or (names.lookup (shortName name))

def resolve (name : String) : Reading ColumnType := fun names =>
  match simpleType? name with
  | some type => .ok (.simple type, names)
  | none =>
    if name = "null" then .error (.schema .bareNull)
    else match names.find? name with
      | some type => .ok (type, names)
      | none => .error (.schema (.unknownType name))

def text? (key : String) (members : List (String × Json)) : Option String :=
  (members.lookup key).bind Json.string?

/-- The natural number at an attribute of an object, 0 if there is none. -/
def naturalOr0 (key : String) (members : List (String × Json)) : Nat :=
  ((members.lookup key).bind Json.natural?).getD 0

/-- The string at an attribute that must be there. -/
def requireText (key : String) (members : List (String × Json)) : Reading String :=
  match text? key members with
  | some s => .pure s
  | none => .fail (.missingAttribute key)

/-- Makes a named type known under its name, and under its full name if the definition has a
namespace of its own. -/
def register (members : List (String × Json)) (name : String) (type : ColumnType) : Reading Unit :=
  fun names =>
    match text? "namespace" members with
    | some space => .ok ((), (name, type) :: (space ++ "." ++ name, type) :: names)
    | none => .ok ((), (name, type) :: names)

/-- The logical type of an object whose `type` is the given name. Precision and scale are kept
modulo 2 ^ 32. -/
def logicalType? (members : List (String × Json)) (base : String) : Option ColumnType := do
  match ← text? "logicalType" members, base with
  | "date", "int" => some (.simple .date)
  | "time-millis", "int" => some (.simple .timeMillis)
  | "time-micros", "long" => some (.simple .timeMicros)
  | "timestamp-millis", "long" => some (.simple .timestampMillis)
  | "local-timestamp-millis", "long" => some (.simple .timestampMillis)
  | "timestamp-micros", "long" => some (.simple .timestampMicros)
  | "local-timestamp-micros", "long" => some (.simple .timestampMicros)
  | "uuid", "string" => some (.simple .uuid)
  | "decimal", "bytes" => some decimal
  | "decimal", "fixed" => some decimal
  | _, _ => none
where
  decimal : ColumnType :=
    .decimal (naturalOr0 "precision" members % Nat.pow 2 32)
      (naturalOr0 "scale" members % Nat.pow 2 32)

/-- What is left of a union: its branches other than null, and whether it admits null. -/
def unionOf (nullable : Bool) : List ColumnType → Reading Definition
  | [] => .fail .emptyUnion
  | [type] => .pure ⟨type, nullable⟩
  | types => .pure ⟨.union types, nullable⟩

/-- The symbols of an enumeration; items that are no strings do not count. -/
def symbols (members : List (String × Json)) : List String :=
  (((members.lookup "symbols").bind Json.array?).getD []).filterMap Json.string?

/-- The documentation of a field; an empty text is none. -/
def doc? (members : List (String × Json)) : Option String :=
  (text? "doc" members).filter (!·.isEmpty)

mutual

def readType : Json → Reading Definition
  | .string name => do return ⟨← resolve name, false⟩
  | .array branches => do
    let (types, nullable) ← readBranches branches
    unionOf nullable types
  | .object members =>
    match members.lookup "type" with
    | none => .fail .noTypeAttribute
    | some (.string base) =>
      match logicalType? members base with
      | some type => .pure ⟨type, false⟩
      | none =>
        if base = "record" ∨ base = "error" then do
          let name ← requireText "name" members
          let columns ← readColumnsOf name members
          register members name (.record name columns)
          return ⟨.record name columns, false⟩
        else if base = "enum" then do
          let name ← requireText "name" members
          register members name (.enumeration (symbols members))
          return ⟨.enumeration (symbols members), false⟩
        else if base = "fixed" then do
          let name ← requireText "name" members
          register members name (.fixed (naturalOr0 "size" members))
          return ⟨.fixed (naturalOr0 "size" members), false⟩
        else if base = "array" then do
          let items ← readMember "items" .arrayWithoutItems members
          return ⟨.array items.type items.nullable, false⟩
        else if base = "map" then do
          let values ← readMember "values" .mapWithoutValues members
          return ⟨.map values.type values.nullable, false⟩
        else do return ⟨← resolve base, false⟩
    | some _ => readMember "type" .noTypeAttribute members
  | other => .fail (.unsupportedDefinition other.compact)

/-- The branches of a union other than null, and whether it admits null. -/
def readBranches : List Json → Reading (List ColumnType × Bool)
  | [] => .pure ([], false)
  | .string "null" :: rest => do
    let (types, _) ← readBranches rest
    return (types, true)
  | branch :: rest => do
    let first ← readType branch
    let (types, nullable) ← readBranches rest
    return (first.type :: types, first.nullable || nullable)

/-- The definition at an attribute, which must be there. -/
def readMember (key : String) (missing : SchemaFault) : List (String × Json) → Reading Definition
  | [] => .fail missing
  | (k, value) :: rest => if k = key then readType value else readMember key missing rest

def readColumnsOf (record : String) : List (String × Json) → Reading (List Column)
  | [] => .fail (.recordWithoutFields record)
  | (k, value) :: rest =>
    if k = "fields" then readFieldList record value else readColumnsOf record rest

def readFieldList (record : String) : Json → Reading (List Column)
  | .array fields => readColumns record fields
  | _ => .fail (.recordWithoutFields record)

def readColumns (record : String) : List Json → Reading (List Column)
  | [] => .pure []
  | field :: rest => do
    let first ← readColumn record field
    let columns ← readColumns record rest
    return first :: columns

def readColumn (record : String) : Json → Reading Column
  | .object members => do
    let name ← requireText "name" members
    let definition ← readMember "type" (.fieldWithoutType record name) members
    return ⟨name, definition.type, definition.nullable, doc? members⟩
  | _ => .fail (.malformedField record)

end

/-- The table schema of an Avro definition in JSON text. -/
def parse (raw : String) : Except Fault TableSchema :=
  match Json.parse? raw with
  | none => .error (.schema .notJson)
  | some value =>
    match readType value [] with
    | .error fault => .error fault
    | .ok (⟨.record name columns, _⟩, _) =>
      .ok ⟨name, (value.member? "namespace").bind Json.string?, columns, raw⟩
    | .ok (definition, _) => .error (.schema (.topLevelNotRecord definition.type.nativeName))

def metadataColumns : List String :=
  ["_hoodie_commit_time", "_hoodie_commit_seqno", "_hoodie_record_key", "_hoodie_partition_path",
    "_hoodie_file_name"]

def metadataField (name : String) : Json :=
  .object [("default", .null), ("doc", .string ""), ("name", .string name),
    ("type", .array [.string "null", .string "string"])]

def fieldName? (field : Json) : Option String :=
  (field.member? "name").bind Json.string?

/-- The metadata columns that a list of fields does not name. -/
def missingColumns (fields : List Json) : List String :=
  metadataColumns.filter fun name => !(fields.filterMap fieldName?).contains name

/-- The members of an object with another value at a name that is present. -/
def replaceMember (name : String) (value : Json) (members : List (String × Json)) :
    List (String × Json) :=
  members.map fun m => if m.1 = name then (m.1, value) else m

theorem lookup_replaceMember (name : String) (value : Json) (members : List (String × Json))
    (key : String) :
    (replaceMember name value members).lookup key =
      if key = name then (members.lookup key).map fun _ => value else members.lookup key := by
  induction members with
  | nil => rw [replaceMember, List.map_nil, List.lookup_nil, Option.map_none, ite_self]
  | cons m rest ih =>
    obtain ⟨k, old⟩ := m
    have first : (if k = name then (k, value) else (k, old)) =
        (k, if k = name then value else old) := by split <;> rfl
    rw [replaceMember, List.map_cons, first, lookup_cons_entry, lookup_cons_entry]
    rw [replaceMember] at ih
    by_cases here : key = k
    · subst here
      by_cases replaced : key = name <;> simp [replaced]
    · rw [if_neg here, if_neg here, ih]

/-- The text of a schema with all metadata columns. -/
def addMetadataColumns (raw : String) : Except Fault String :=
  match Json.parse? raw with
  | none => .error (.schema .notJson)
  | some value =>
    match value, (value.member? "fields").bind Json.array? with
    | .object members, some fields =>
      match missingColumns fields with
      | [] => .ok raw
      | missing =>
        .ok (Json.object (replaceMember "fields" (.array (missing.map metadataField ++ fields))
          members)).compact
    | _, _ => .error (.schema .noFieldsArray)

end LakeCatalog.Avro
