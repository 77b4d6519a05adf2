import LakeCatalog.Avro.Place

/-!
# What is known at a place

A definition that makes a named type known does so when it ends, and the parts of a definition are
read in their order. So the named types that are known where a place begins are those of the
definitions that have ended before.

The name of a type is qualified by a namespace: the one in the name itself, the one that the
definition states, or else the one of the nearest definition around it. The reader does not follow
namespaces from definition to definition, so a full name is a notion of its own: it says which
definition a reference is meant to name.

A union admits null if null is one of its branches or if one of its branches admits null itself, and
an object that is written around a definition admits null if that definition does. Nothing else
admits null: a name does not, whatever it refers to. The columns of a record, the items of an array
and the values of a map are marked by this rule, each as its own definition says.
-/

namespace LakeCatalog.Avro

open Schema

/-- The attributes and the name of the definition of a record, an enumeration or a fixed type. -/
def named? : Json → Option (List (String × Json) × String)
  | .object members => do
    let base ← text? "type" members
    let name ← text? "name" members
    if base ∈ ["record", "error", "enum", "fixed"] then some (members, name) else none
  | _ => none

/-- Whether a definition stands for the logical type on it. -/
def isRefined : Json → Bool
  | .object members =>
    match form? members with
    | some (.refined _) => true
    | _ => false
  | _ => false

/-- The names under which a definition makes its type known. -/
def fileNames (members : List (String × Json)) (name : String) : List String :=
  match text? "namespace" members with
  | some space => [name, space ++ "." ++ name]
  | none => [name]

/-- The names under which a definition is found once it has ended. -/
def filed : Json → List String
  | .object members =>
    match form? members with
    | some .record | some .enumeration | some .fixed =>
      match text? "name" members with
      | some name => fileNames members name
      | none => []
    | _ => []
  | _ => []

/-- The definition at a place is found under a name once it has ended. -/
def Files (p : Place) (name : String) (value : Json) : Prop :=
  ∃ definition, at? p value = some definition ∧ name ∈ filed definition

instance (p : Place) (name : String) (value : Json) : Decidable (Files p name value) :=
  match found : at? p value with
  | some definition =>
    decidable_of_iff (name ∈ filed definition)
      ⟨fun mem => ⟨definition, found, mem⟩, fun ⟨_, there, mem⟩ =>
        Option.some.inj (found.symm.trans there) ▸ mem⟩
  | none => isFalse fun ⟨_, there, _⟩ => nomatch found.symm.trans there

/-- Of the definitions that end before a place the last one with a name. -/
structure LastFiled (p : Place) (name : String) (q : Place) (value : Json) : Prop where
  files : Files p name value
  before : Before p q
  last : ∀ p', EndsBefore p p' → Before p' q → ¬ Files p' name value

/-- The named types that are known after a definition. The branch null is passed over. -/
def namesAfter? : Json → Names → Option Names
  | .string "null", names => some names
  | value, names =>
    match readType value names with
    | .ok (_, after) => some after
    | .error _ => none

def namesThrough? : List Json → Names → Option Names
  | [], names => some names
  | value :: rest, names => (namesAfter? value names).bind (namesThrough? rest)

/-- The named types that are known where a place begins. -/
def namesAt? : Place → Json → Names → Option Names
  | [], _, names => some names
  | i :: p, value, names => do
    let part ← (parts value)[i]?
    let known ← namesThrough? ((parts value).take i) names
    namesAt? p part known

/-- The type that the definition at a place stands for. -/
def typeAt? (p : Place) (value : Json) (names : Names) : Option ColumnType := do
  let definition ← at? p value
  let known ← namesAt? p value names
  match readType definition known with
  | .ok (found, _) => some found.type
  | .error _ => none

/-- What stands before the last point of a name, nothing if there is no point. -/
def leadingSpace (name : String) : String :=
  String.ofList (name.toList.reverse.dropWhile (· != '.')).tail.reverse

/-- The namespace of a definition inside a namespace; the empty text is no namespace. -/
def spaceOf (around : String) (members : List (String × Json)) (name : String) : String :=
  if '.' ∈ name.toList then leadingSpace name else (text? "namespace" members).getD around

def fullName (around : String) (members : List (String × Json)) (name : String) : String :=
  if '.' ∈ name.toList ∨ spaceOf around members name = "" then name
  else spaceOf around members name ++ "." ++ name

def spaceWithin (around : String) (value : Json) : String :=
  match named? value with
  | some (members, name) => spaceOf around members name
  | none => around

/-- The full name of the definition of a named type at a place. -/
def fullNameAt? : Place → String → Json → Option String
  | [], around, value => (named? value).map fun (members, name) => fullName around members name
  | i :: p, around, value => (parts value)[i]?.bind (fullNameAt? p (spaceWithin around value))

/-- Different definitions have different full names. -/
def DistinctNames (value : Json) : Prop :=
  ∀ p p' full, fullNameAt? p "" value = some full → fullNameAt? p' "" value = some full → p = p'

/-- The definition at a place says itself what its namespace is. -/
def StatesSpace (p : Place) (value : Json) : Prop :=
  ∃ definition members name, at? p value = some definition ∧
    named? definition = some (members, name) ∧
    ('.' ∈ name.toList ∨ (text? "namespace" members).isSome)

def reference? : Json → Option String
  | .string name => some name
  | .object members =>
    match form? members with
    | some (.reference name) => some name
    | _ => none
  | _ => none

inductive AdmitsNull : Json → Prop where
  /-- The string null is a branch of the union. -/
  | bare {branches : List Json} (listed : .string "null" ∈ branches) : AdmitsNull (.array branches)
  /-- A branch of the union admits null. -/
  | branch {branches : List Json} {branch : Json} (listed : branch ∈ branches)
      (admits : AdmitsNull branch) : AdmitsNull (.array branches)
  /-- The type of the object is not a name and admits null. -/
  | around {members : List (String × Json)} {inner : Json}
      (written : members.lookup "type" = some inner) (unnamed : ∀ base, inner ≠ .string base)
      (admits : AdmitsNull inner) : AdmitsNull (.object members)

/-- A type is the whole type or one of its parts, at any depth. -/
inductive Within : ColumnType → ColumnType → Prop where
  | whole (type : ColumnType) : Within type type
  | part {type part whole : ColumnType} (listed : part ∈ inner whole) (within : Within type part) :
      Within type whole

def marksParts : ColumnType → Bool
  | .record _ _ => true
  | .array _ _ => true
  | .map _ _ => true
  | _ => false

def Form.marksParts : Form → Bool
  | .record => true
  | .array => true
  | .map => true
  | _ => false

/-- A column has the name that its field gives it and is marked as the type of the field says. -/
def MarkedBy (column : Column) (field : Json) : Prop :=
  field.member? "name" = some (.string column.name) ∧
    (column.nullable = true ↔ AdmitsNull (fieldType field))

/-- The definition of a record, an array or a map, and a type whose columns, items or values are
marked as their definitions say. -/
inductive Marks : Json → ColumnType → Prop where
  | record {members : List (String × Json)} {name : String} {columns : List Column}
      (form : form? members = some .record) (listed : columns.length = (fields members).length)
      (marked : ∀ pair ∈ columns.zip (fields members), MarkedBy pair.1 pair.2) :
      Marks (.object members) (.record name columns)
  | array {members : List (String × Json)} {items : Json} {type : ColumnType} {nullable : Bool}
      (form : form? members = some .array) (defined : members.lookup "items" = some items)
      (marked : nullable = true ↔ AdmitsNull items) :
      Marks (.object members) (.array type nullable)
  | map {members : List (String × Json)} {values : Json} {type : ColumnType} {nullable : Bool}
      (form : form? members = some .map) (defined : members.lookup "values" = some values)
      (marked : nullable = true ↔ AdmitsNull values) :
      Marks (.object members) (.map type nullable)

end LakeCatalog.Avro
