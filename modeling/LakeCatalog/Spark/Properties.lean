import LakeCatalog.Dictionary
import LakeCatalog.Json.Text
import LakeCatalog.Schema
import LakeCatalog.Text.Pieces

/-!
# Table properties for Spark

The type of a table in the words of Spark, as the JSON text that Spark keeps in the properties of a
table. A union of several branches becomes a struct with one optional member per branch. Columns
that partition the table come after all others, in the order of the partitioning.

The properties by which Spark finds a table as a data source. The text of the schema is cut into
numbered parts of bounded length, so that no value is too long for the catalog; the names of the
columns that partition the table are numbered in the same way.
-/

namespace LakeCatalog.Spark

open Schema

/-- A member of a struct, with a type out of `τ`. -/
structure MemberOf (τ : Type) where
  name : String
  type : τ
  nullable : Bool
  deriving DecidableEq

inductive DataType where
  | simple (name : String)
  | struct (members : List (MemberOf DataType))
  | array (element : DataType) (containsNull : Bool)
  | map (value : DataType) (containsNull : Bool)

abbrev Member := MemberOf DataType

def simpleName : SimpleType → String
  | .boolean => "boolean"
  | .int => "integer"
  | .timeMillis => "integer"
  | .long => "long"
  | .timeMicros => "long"
  | .float => "float"
  | .double => "double"
  | .bytes => "binary"
  | .string => "string"
  | .uuid => "string"
  | .date => "date"
  | .timestampMillis => "timestamp"
  | .timestampMicros => "timestamp"

mutual

def dataType : ColumnType → DataType
  | .simple type => .simple (simpleName type)
  | .fixed _ => .simple "binary"
  | .enumeration _ => .simple "string"
  | .decimal precision scale =>
    .simple ("decimal(" ++ Text.decimal precision ++ "," ++ Text.decimal scale ++ ")")
  | .record _ columns => .struct (members columns)
  | .array items nullable => .array (dataType items) nullable
  | .map values nullable => .map (dataType values) nullable
  | .union branches => .struct (branchMembers 0 branches)

def members : List (ColumnOf ColumnType) → List (MemberOf DataType)
  | [] => []
  | c :: cs => member c :: members cs

def member : ColumnOf ColumnType → MemberOf DataType
  | ⟨name, type, nullable, _⟩ => ⟨name, dataType type, nullable⟩

/-- The members for the branches of a union, numbered from `n`. -/
def branchMembers (n : Nat) : List ColumnType → List (MemberOf DataType)
  | [] => []
  | t :: ts => ⟨"member" ++ Text.decimal n, dataType t, true⟩ :: branchMembers (n + 1) ts

end

mutual

def DataType.json : DataType → Json
  | .simple name => .string name
  | .struct members =>
    .object [("type", .string "struct"), ("fields", .array (memberJsons members))]
  | .array element containsNull =>
    .object [("type", .string "array"), ("elementType", element.json),
      ("containsNull", .bool containsNull)]
  | .map value containsNull =>
    .object [("type", .string "map"), ("keyType", .string "string"), ("valueType", value.json),
      ("valueContainsNull", .bool containsNull)]

def memberJsons : List (MemberOf DataType) → List Json
  | [] => []
  | m :: ms => memberJson m :: memberJsons ms

def memberJson : MemberOf DataType → Json
  | ⟨name, type, nullable⟩ =>
    .object [("name", .string name), ("type", type.json), ("nullable", .bool nullable),
      ("metadata", .object [])]

end

/-- The columns of a table with those that partition it at the end. -/
def arranged (schema : TableSchema) (partitions : List String) : List Column :=
  schema.columns.filter (fun c => !partitions.contains c.name) ++
    partitions.filterMap schema.column?

def tableType (schema : TableSchema) (partitions : List String) : DataType :=
  .struct (members (arranged schema partitions))

def schemaText (schema : TableSchema) (partitions : List String) : String :=
  (tableType schema partitions).json.compact

/-- The names of all properties about the schema begin alike. -/
def schemaKey (suffix : String) : String := "spark.sql.sources.schema." ++ suffix

def numbered (stem : String) (values : List String) : List (String × String) :=
  values.zipIdx.map fun (value, i) => (schemaKey (stem ++ "." ++ Text.decimal i), value)

/-- The parts of a text of at most `length` characters each; a length of 0 counts as 1. -/
def parts (text : String) (length : Nat) : List String :=
  (Text.chunks (max length 1) text.toList).map String.ofList

/-- The entries about the columns that partition the table; none if there are no such columns. -/
def partitionEntries (partitions : List String) : List (String × String) :=
  if partitions.isEmpty then []
  else (schemaKey "numPartCols", Text.decimal partitions.length) :: numbered "partCol" partitions

/-- The entry for the version of Spark; none for no version or an empty one. -/
def versionEntry (version : Option String) : List (String × String) :=
  match version with
  | none => []
  | some v => if v.isEmpty then [] else [("spark.sql.create.version", v)]

def schemaEntries (text : String) (length : Nat) : List (String × String) :=
  (schemaKey "numParts", Text.decimal (parts text length).length) ::
    numbered "part" (parts text length)

def tableProperties (schema : TableSchema) (partitions : List String) (version : Option String)
    (length : Nat) : Dictionary String :=
  .ofList (("spark.sql.sources.provider", "hudi") :: versionEntry version ++
    schemaEntries (schemaText schema partitions) length ++ partitionEntries partitions)

end LakeCatalog.Spark
