import LakeCatalog.Text.Numeral

/-!
# Table schemas

The columns of a table: simple types, named types, containers and unions, nested to any depth. A
column may be absent (`nullable`), and so may the items of an array and the values of a map; a
union lists its branches other than null. Two types are compared part by part.

The columns, by name, that one schema has more than another, has less, or has with another type or
another answer to whether they may be absent. Where a schema repeats a name its first column counts.
-/

namespace LakeCatalog.Schema

/-- A named part of a record, with a type out of `τ`. -/
structure ColumnOf (τ : Type) where
  name : String
  type : τ
  nullable : Bool
  doc : Option String
  deriving DecidableEq, Inhabited

inductive SimpleType where
  | boolean
  | int
  | long
  | float
  | double
  | bytes
  | string
  | uuid
  | date
  | timeMillis
  | timeMicros
  | timestampMillis
  | timestampMicros
  deriving DecidableEq, Inhabited

inductive ColumnType where
  | simple (type : SimpleType)
  | fixed (size : Nat)
  | enumeration (symbols : List String)
  | decimal (precision scale : Nat)
  | record (name : String) (columns : List (ColumnOf ColumnType))
  | array (items : ColumnType) (nullable : Bool)
  | map (values : ColumnType) (nullable : Bool)
  | union (branches : List ColumnType)
  deriving Inhabited

abbrev Column := ColumnOf ColumnType

structure TableSchema where
  name : String
  spaceName : Option String
  columns : List Column
  /-- The definition as it was read. -/
  raw : String

def TableSchema.column? (s : TableSchema) (name : String) : Option Column :=
  s.columns.find? (·.name = name)

namespace ColumnType

mutual

/-- Whether two types agree in every part. -/
def same : ColumnType → ColumnType → Bool
  | .simple s, .simple t => s == t
  | .fixed m, .fixed n => m == n
  | .enumeration xs, .enumeration ys => xs == ys
  | .decimal p s, .decimal q t => p == q && s == t
  | .record n cs, .record m ds => n == m && sameColumns cs ds
  | .array s a, .array t b => same s t && a == b
  | .map s a, .map t b => same s t && a == b
  | .union ss, .union ts => sameBranches ss ts
  | _, _ => false

def sameColumns : List (ColumnOf ColumnType) → List (ColumnOf ColumnType) → Bool
  | [], [] => true
  | c :: cs, d :: ds => sameColumn c d && sameColumns cs ds
  | _, _ => false

def sameColumn : ColumnOf ColumnType → ColumnOf ColumnType → Bool
  | ⟨n, s, a, x⟩, ⟨m, t, b, y⟩ => n == m && same s t && a == b && x == y

def sameBranches : List ColumnType → List ColumnType → Bool
  | [], [] => true
  | s :: ss, t :: ts => same s t && sameBranches ss ts
  | _, _ => false

end

mutual

theorem eq_of_same : ∀ s t : ColumnType, same s t = true → s = t
  | .simple _, t, h => by cases t <;> simp_all [same]
  | .fixed _, t, h => by cases t <;> simp_all [same]
  | .enumeration _, t, h => by cases t <;> simp_all [same]
  | .decimal _ _, t, h => by cases t <;> simp_all [same]
  | .record _ cs, t, h => by
    cases t <;> simp [same] at h
    exact h.1 ▸ eq_of_sameColumns cs _ h.2 ▸ rfl
  | .array s _, t, h => by
    cases t <;> simp [same] at h
    exact h.2 ▸ eq_of_same s _ h.1 ▸ rfl
  | .map s _, t, h => by
    cases t <;> simp [same] at h
    exact h.2 ▸ eq_of_same s _ h.1 ▸ rfl
  | .union ss, t, h => by
    cases t <;> simp [same] at h
    exact eq_of_sameBranches ss _ h ▸ rfl

theorem eq_of_sameColumns : ∀ cs ds : List (ColumnOf ColumnType), sameColumns cs ds = true → cs = ds
  | [], ds, h => by cases ds <;> simp_all [sameColumns]
  | c :: cs, ds, h => by
    cases ds <;> simp [sameColumns] at h
    exact eq_of_sameColumn c _ h.1 ▸ eq_of_sameColumns cs _ h.2 ▸ rfl

theorem eq_of_sameColumn : ∀ c d : ColumnOf ColumnType, sameColumn c d = true → c = d
  | ⟨_, s, _, _⟩, ⟨_, t, _, _⟩, h => by
    simp [sameColumn] at h
    obtain ⟨⟨⟨rfl, h⟩, rfl⟩, rfl⟩ := h
    exact eq_of_same s t h ▸ rfl

theorem eq_of_sameBranches : ∀ ss ts : List ColumnType, sameBranches ss ts = true → ss = ts
  | [], ts, h => by cases ts <;> simp_all [sameBranches]
  | s :: ss, ts, h => by
    cases ts <;> simp [sameBranches] at h
    exact eq_of_same s _ h.1 ▸ eq_of_sameBranches ss _ h.2 ▸ rfl

end

mutual

theorem same_refl : ∀ t : ColumnType, same t t = true
  | .simple _ => by simp [same]
  | .fixed _ => by simp [same]
  | .enumeration _ => by simp [same]
  | .decimal _ _ => by simp [same]
  | .record _ cs => by simp [same, sameColumns_refl cs]
  | .array t _ => by simp [same, same_refl t]
  | .map t _ => by simp [same, same_refl t]
  | .union ts => by simp [same, sameBranches_refl ts]

theorem sameColumns_refl : ∀ cs : List (ColumnOf ColumnType), sameColumns cs cs = true
  | [] => by simp [sameColumns]
  | c :: cs => by simp [sameColumns, sameColumn_refl c, sameColumns_refl cs]

theorem sameColumn_refl : ∀ c : ColumnOf ColumnType, sameColumn c c = true
  | ⟨_, t, _, _⟩ => by simp [sameColumn, same_refl t]

theorem sameBranches_refl : ∀ ts : List ColumnType, sameBranches ts ts = true
  | [] => by simp [sameBranches]
  | t :: ts => by simp [sameBranches, same_refl t, sameBranches_refl ts]

end

/-- Types agree in every part exactly when they are equal. -/
theorem same_iff {s t : ColumnType} : same s t = true ↔ s = t :=
  ⟨eq_of_same s t, fun h => h ▸ same_refl s⟩

instance : DecidableEq ColumnType := fun _ _ => decidable_of_iff _ same_iff

end ColumnType

def SimpleType.name : SimpleType → String
  | .boolean => "boolean"
  | .int => "int"
  | .long => "long"
  | .float => "float"
  | .double => "double"
  | .bytes => "bytes"
  | .string => "string"
  | .uuid => "uuid"
  | .date => "date"
  | .timeMillis => "time-millis"
  | .timeMicros => "time-micros"
  | .timestampMillis => "timestamp-millis"
  | .timestampMicros => "timestamp-micros"

namespace ColumnType

mutual

/-- The name of a type in the words of the table format. -/
def nativeName : ColumnType → String
  | .simple type => type.name
  | .fixed size => "fixed(" ++ Text.decimal size ++ ")"
  | .enumeration _ => "enum"
  | .decimal precision scale =>
    "decimal(" ++ Text.decimal precision ++ "," ++ Text.decimal scale ++ ")"
  | .record name _ => name
  | .array items _ => "array<" ++ nativeName items ++ ">"
  | .map values _ => "map<string," ++ nativeName values ++ ">"
  | .union branches => "union<" ++ branchNames branches ++ ">"

def branchNames : List ColumnType → String
  | [] => ""
  | [t] => nativeName t
  | t :: ts => nativeName t ++ "," ++ branchNames ts

end

end ColumnType

structure Difference where
  added : List String
  updated : List String
  deleted : List String
  deriving DecidableEq

namespace Difference

/-- A column of a schema that an earlier schema defines differently. -/
def isUpdated (previous : TableSchema) (c : Column) : Bool :=
  match previous.column? c.name with
  | some old => old.type != c.type || old.nullable != c.nullable
  | none => false

/-- The names of the columns of the first schema that the second does not have. -/
def missingFrom (s t : TableSchema) : List String :=
  (s.columns.filter fun c => (t.column? c.name).isNone).map (·.name)

def between (previous current : TableSchema) : Difference where
  added := missingFrom current previous
  updated := (current.columns.filter (isUpdated previous)).map (·.name)
  deleted := missingFrom previous current

def isEmpty (d : Difference) : Bool :=
  d.added.isEmpty && d.updated.isEmpty && d.deleted.isEmpty

end Difference

end LakeCatalog.Schema
