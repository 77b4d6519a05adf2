import LakeCatalog.Avro.Reader

/-!
# Places in a definition

A definition is made of parts: the branches of a union, the types of a record's fields, the items
of an array, the values of a map, or the definition that an object is written around. The parts are
read in their order and each of them knows the named types that were found before it, so a place is
the list of the parts that lead to it from the outside in.

Of two definitions one of which is part of the other, the inner one ends first. The type of a
definition is made of the types of its parts, so a place in a definition leads to a place in its
type as well.
-/

namespace LakeCatalog.Avro

open Schema

inductive Form where
  /-- The object is written around another definition. -/
  | around (inner : Json)
  /-- A logical type takes the place of the type that it refines. -/
  | refined (type : ColumnType)
  | record
  | enumeration
  | fixed
  | array
  | map
  | reference (name : String)

/-- The form of a definition whose `type` is a name. -/
def formOf (members : List (String × Json)) (base : String) : Form :=
  match logicalType? members base with
  | some type => .refined type
  | none =>
    if base = "record" ∨ base = "error" then .record
    else if base = "enum" then .enumeration
    else if base = "fixed" then .fixed
    else if base = "array" then .array
    else if base = "map" then .map
    else .reference base

/-- The form of an object, none without a `type`. -/
def form? (members : List (String × Json)) : Option Form :=
  match members.lookup "type" with
  | none => none
  | some (.string base) => some (formOf members base)
  | some inner => some (.around inner)

theorem formOf_ne_around {members : List (String × Json)} {base : String} {inner : Json} :
    formOf members base ≠ .around inner := by
  grind [formOf]

theorem form?_eq_around_iff {members : List (String × Json)} {inner : Json} :
    form? members = some (.around inner) ↔
      members.lookup "type" = some inner ∧ ∀ base, inner ≠ .string base := by
  rw [form?]
  split
  · simp [*]
  · rename_i base found
    simp only [found, Option.some.injEq, formOf_ne_around, false_iff, not_and]
    exact fun same named => named base same.symm
  · rename_i value named found
    simp only [found, Option.some.injEq, Form.around.injEq, iff_self_and]
    rintro rfl base rfl
    exact named base rfl

/-- Whether a definition is an object around another definition. -/
def isAround : Json → Bool
  | .object members =>
    match form? members with
    | some (.around _) => true
    | _ => false
  | _ => false

def fields (members : List (String × Json)) : List Json :=
  ((members.lookup "fields").bind Json.array?).getD []

/-- The type of a field; a field without one has null there, which defines nothing. -/
def fieldType (field : Json) : Json :=
  (field.member? "type").getD .null

/-- The definitions that a definition is made of, in the order in which they are read. -/
def parts : Json → List Json
  | .array branches => branches
  | .object members =>
    match form? members with
    | some (.around inner) => [inner]
    | some .record => (fields members).map fieldType
    | some .array => (members.lookup "items").toList
    | some .map => (members.lookup "values").toList
    | _ => []
  | _ => []

def retype (new : Json) : Json → Json
  | .object members => .object (replaceMember "type" new members)
  | field => field

/-- A definition with another definition as its part of number `i`. -/
def replacePart (i : Nat) (new : Json) : Json → Json
  | .array branches => .array (branches.set i new)
  | .object members =>
    match form? members with
    | some (.around _) => .object (replaceMember "type" new members)
    | some .record =>
      .object (replaceMember "fields" (.array ((fields members).modify i (retype new))) members)
    | some .array => .object (replaceMember "items" new members)
    | some .map => .object (replaceMember "values" new members)
    | _ => .object members
  | value => value

/-- The numbers of the parts that lead to a definition, from the outside in. -/
abbrev Place := List Nat

def at? : Place → Json → Option Json
  | [], value => some value
  | i :: p, value => (parts value)[i]?.bind (at? p)

def put : Place → Json → Json → Json
  | [], new, _ => new
  | i :: p, new, value =>
    match (parts value)[i]? with
    | some part => replacePart i (put p new part) value
    | none => value

/-- The place is that of a field's type, of items, of values or of a branch of a union. -/
def IsPosition (q : Place) (value : Json) : Prop :=
  ∃ outer i whole, q = outer ++ [i] ∧ at? outer value = some whole ∧ isAround whole = false ∧
    i < (parts whole).length

/-- What is at the first place ends before what is at the second place begins. -/
def Before : Place → Place → Prop
  | i :: p, j :: q => i < j ∨ i = j ∧ Before p q
  | _, _ => False

/-- What is at the first place ends before what is at the second place ends. -/
def EndsBefore : Place → Place → Prop
  | i :: p, j :: q => i < j ∨ i = j ∧ EndsBefore p q
  | _ :: _, [] => True
  | [], _ => False

instance : ∀ p q : Place, Decidable (Before p q)
  | i :: p, j :: q =>
    have : Decidable (Before p q) := instDecidableBefore p q
    inferInstanceAs (Decidable (i < j ∨ i = j ∧ Before p q))
  | [], [] | [], _ :: _ | _ :: _, [] => isFalse id

instance : ∀ p q : Place, Decidable (EndsBefore p q)
  | i :: p, j :: q =>
    have : Decidable (EndsBefore p q) := instDecidableEndsBefore p q
    inferInstanceAs (Decidable (i < j ∨ i = j ∧ EndsBefore p q))
  | _ :: _, [] => isTrue trivial
  | [], [] | [], _ :: _ => isFalse id

theorem not_endsBefore_self (p : Place) : ¬ EndsBefore p p := by
  induction p with
  | nil => exact id
  | cons i p ih => exact fun h => h.elim (Nat.lt_irrefl i) fun h => ih h.2

/-- The types that a type is made of. -/
def inner : ColumnType → List ColumnType
  | .record _ columns => columns.map (·.type)
  | .array items _ => [items]
  | .map values _ => [values]
  | .union branches => branches
  | _ => []

def isProper : Json → Bool
  | .string "null" => false
  | _ => true

theorem isProper_iff {value : Json} : isProper value = true ↔ value ≠ .string "null" := by
  rw [isProper.eq_def]
  split
  · exact iff_of_false Bool.false_ne_true fun proper => proper rfl
  · rename_i other
    exact iff_of_true rfl other

/-- The type of the part of number `i` in the type of a definition. A union with just one branch
other than null is that branch, and what is written around a definition adds nothing to it. -/
def partType? (i : Nat) (value : Json) (type : ColumnType) : Option ColumnType :=
  match value with
  | .array branches =>
    if branches.countP isProper = 1 then some type
    else (inner type)[(branches.take i).countP isProper]?
  | other => if isAround other then some type else (inner type)[i]?

theorem partType?_object (i : Nat) (members : List (String × Json)) (type : ColumnType) :
    partType? i (.object members) type =
      if isAround (.object members) then some type else (inner type)[i]? := rfl

/-- The type of the definition at a place in the type of the whole definition. -/
def typeIn? : Place → Json → ColumnType → Option ColumnType
  | [], _, type => some type
  | i :: p, value, type => do
    let part ← (parts value)[i]?
    let type ← partType? i value type
    typeIn? p part type

def rowType (schema : TableSchema) : ColumnType := .record schema.name schema.columns

end LakeCatalog.Avro
