import LakeCatalog.Avro.Scope
import LakeCatalog.Json.Basic
import LakeCatalog.Schema
import LakeCatalog.Text.Pieces

/-!
# Fields of the catalog

The catalog lists the columns of a table flat. A column comes before the columns of the record that
it holds, directly or as the items of an array or the values of a map, and the path of a nested
column is the path of its parent, a point and its name. Fields whose paths begin with a given text
can be moved behind all others; the order within both groups is kept.

A type holds a record if it is one, or if it is an array or a map of what holds one. The columns of
that record lie below the column of that type, and each of them may have columns below it again, so
a nested column is found by the names of the columns that lead to it. The catalog looks for the
columns below a column only in a record, and in the record that the items of an array or the values
of a map are.
-/

namespace LakeCatalog.Catalog

open Schema

/-- The classes of types that the catalog tells apart. -/
inductive TypeClass where
  | boolean
  | number
  | string
  | bytes
  | fixed
  | enumeration
  | date
  | time
  | record
  | array
  | map
  | union
  deriving DecidableEq, Inhabited

namespace TypeClass

def shortName : TypeClass → String
  | .boolean => "Boolean"
  | .number => "Number"
  | .string => "String"
  | .bytes => "Bytes"
  | .fixed => "Fixed"
  | .enumeration => "Enum"
  | .date => "Date"
  | .time => "Time"
  | .record => "Record"
  | .array => "Array"
  | .map => "Map"
  | .union => "Union"

/-- The name of a class as the catalog writes it. -/
def fullName (c : TypeClass) : String :=
  "com.linkedin.schema." ++ c.shortName ++ "Type"

def ofSimple : SimpleType → TypeClass
  | .boolean => .boolean
  | .int => .number
  | .long => .number
  | .float => .number
  | .double => .number
  | .bytes => .bytes
  | .string => .string
  | .uuid => .string
  | .date => .date
  | .timeMillis => .time
  | .timeMicros => .time
  | .timestampMillis => .time
  | .timestampMicros => .time

def of : ColumnType → TypeClass
  | .simple type => ofSimple type
  | .fixed _ => .fixed
  | .enumeration _ => .enumeration
  | .decimal _ _ => .number
  | .record _ _ => .record
  | .array _ _ => .array
  | .map _ _ => .map
  | .union _ => .union

end TypeClass

/-- A column as the catalog lists it. -/
structure Field where
  path : String
  nullable : Bool
  description : Option String
  typeClass : TypeClass
  nativeType : String
  deriving DecidableEq, Inhabited

namespace Field

def pathUnder (parent : Option String) (name : String) : String :=
  match parent with
  | some path => path ++ "." ++ name
  | none => name

mutual

/-- The field for a column, and the fields for the columns nested in it. -/
def ofColumn (parent : Option String) : ColumnOf ColumnType → List Field
  | ⟨name, type, nullable, doc⟩ =>
    ⟨pathUnder parent name, nullable, doc, .of type, type.nativeName⟩ ::
      nested (pathUnder parent name) type

/-- The fields for the columns of a record in a type at a path. -/
def nested (path : String) : ColumnType → List Field
  | .record _ columns => ofColumns (some path) columns
  | .array (.record _ columns) _ => ofColumns (some path) columns
  | .map (.record _ columns) _ => ofColumns (some path) columns
  | _ => []

def ofColumns (parent : Option String) : List (ColumnOf ColumnType) → List Field
  | [] => []
  | c :: cs => ofColumn parent c ++ ofColumns parent cs

end

def startsWith (start : String) (f : Field) : Bool :=
  start.toList.isPrefixOf f.path.toList

/-- The fields with those whose paths begin with a text behind all others. -/
def reorder (start : String) (fields : List Field) : List Field :=
  fields.filter (fun f => !f.startsWith start) ++ fields.filter (startsWith start)

def json (f : Field) : Json :=
  .sortedObject <|
    [("fieldPath", .string f.path), ("nullable", .bool f.nullable),
      ("type", .object [("type", .object [(f.typeClass.fullName, .object [])])]),
      ("nativeDataType", .string f.nativeType), ("recursive", .bool false)] ++
    match f.description with
    | some text => [("description", .string text)]
    | none => []

end Field

open Avro (Within)

/-- The columns of the record that a type holds. -/
def held : ColumnType → List Column
  | .record _ columns => columns
  | .array items _ => held items
  | .map values _ => held values
  | _ => []

/-- The columns of the record that a type is, or that its items or its values are. -/
def unfolded : ColumnType → List Column
  | .record _ columns => columns
  | .array (.record _ columns) _ => columns
  | .map (.record _ columns) _ => columns
  | _ => []

/-- Names lead to a column: the first one to one of the columns that are given, and each further one
to one of those below. -/
inductive Leads (below : ColumnType → List Column) : List Column → List String → Column → Prop where
  | here {columns : List Column} {c : Column} (listed : c ∈ columns) :
    Leads below columns [c.name] c
  | further {columns : List Column} {c d : Column} {names : List String} (listed : c ∈ columns)
      (leads : Leads below (below c.type) names d) : Leads below columns (c.name :: names) d

/-- The field for a column to which names lead from below a path. -/
def Field.along (parent : Option String) (names : List String) (c : Column) : Field :=
  ⟨pathUnder parent (Text.join "." names), c.nullable, c.doc, .of c.type, c.type.nativeName⟩

def isContainer : ColumnType → Bool
  | .array _ _ => true
  | .map _ _ => true
  | _ => false

/-- The items of an array and the values of a map in a type, at any depth, are no arrays and no
maps. -/
def Shallow (type : ColumnType) : Prop :=
  ∀ container, Within container type → isContainer container = true →
    ∀ part ∈ Avro.inner container, isContainer part = false

/-- The name of the column begins with a text. -/
def nameStartsWith (start : String) (c : Column) : Bool :=
  start.toList.isPrefixOf c.name.toList

/-- The names of columns differ from each other and have no points in them. -/
structure DistinctlyNamed (columns : List Column) : Prop where
  distinct : (columns.map (·.name)).Nodup
  pointless : ∀ c ∈ columns, '.' ∉ c.name.toList

/-- The columns of every record in a type, at any depth, are distinctly named. -/
def WellNamed (type : ColumnType) : Prop :=
  ∀ name columns, Within (.record name columns) type → DistinctlyNamed columns

end LakeCatalog.Catalog
