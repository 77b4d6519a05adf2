import LakeCatalog.Json.Text
import LakeCatalog.Spark.Properties

/-!
# What Spark reads

The type that a JSON text describes. A type of any depth is read: no more arrays and objects can be
open at once than the text has characters.

What Spark finds in the properties of a table: the text of the schema, put together from its parts,
and the names of the columns that partition the table. Both are read as values under numbered keys,
and the value at a key of its own tells how many of them count. Properties are given by the value
at every key, if there is one.
-/

namespace LakeCatalog.Spark

def flag? (name : String) (j : Json) : Option Bool :=
  match j.member? name with
  | some (.bool b) => some b
  | _ => none

section

variable (type? : Json → Option DataType)

/-- The member that a JSON object describes, with its type read by `type?`. -/
def memberOf? (j : Json) : Option Member := do
  let name ← (← j.member? "name").string?
  let type ← type? (← j.member? "type")
  let nullable ← flag? "nullable" j
  return ⟨name, type, nullable⟩

/-- The type with parts that a JSON object describes, with the parts read by `type?`. All maps are
keyed by strings. -/
def compound? (j : Json) : Option DataType := do
  match ← (← j.member? "type").string? with
  | "struct" =>
    let fields ← (← j.member? "fields").array?
    return .struct (← fields.mapM (memberOf? type?))
  | "array" =>
    let element ← type? (← j.member? "elementType")
    return .array element (← flag? "containsNull" j)
  | "map" =>
    let .simple "string" ← type? (← j.member? "keyType") | none
    let value ← type? (← j.member? "valueType")
    return .map value (← flag? "valueContainsNull" j)
  | _ => none

end

namespace DataType

/-- The type that a JSON value describes, if its parts are nested at most `depth` deep. -/
def ofJson? : Nat → Json → Option DataType
  | _, .string name => some (.simple name)
  | depth + 1, .object members => compound? (ofJson? depth) (.object members)
  | _, _ => none

def read? (text : String) : Option DataType := do
  let (value, rest) ← Json.readValue? text.length text.toList
  if rest.isEmpty then ofJson? text.length value else none

def memberNames : DataType → List String
  | .struct members => members.map (·.name)
  | _ => []

end DataType

def isSchemaKey (key : String) : Bool := (schemaKey "").toList.isPrefixOf key.toList

def numberedKey (stem : String) (i : Nat) : String := schemaKey (stem ++ "." ++ Text.decimal i)

/-- The numbered values, of which there are as many as the value at `count` tells. -/
def recordedValues? (count stem : String) (properties : String → Option String) :
    Option (List String) := do
  let n ← Text.readDecimal? (← properties (schemaKey count)).toList
  (List.range n).mapM fun i => properties (numberedKey stem i)

def recordedParts? : (String → Option String) → Option (List String) :=
  recordedValues? "numParts" "part"

def recordedType? (properties : String → Option String) : Option DataType := do
  DataType.read? (String.join (← recordedParts? properties))

/-- The columns that partition the table; none of them if they are not counted. -/
def recordedPartitions? (properties : String → Option String) : Option (List String) :=
  if (properties (schemaKey "numPartCols")).isSome then
    recordedValues? "numPartCols" "partCol" properties
  else some []

end LakeCatalog.Spark
