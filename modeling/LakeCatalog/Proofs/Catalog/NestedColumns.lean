import LakeCatalog.Proofs.Catalog.FieldPaths

/-!
# Nested columns that are listed

The catalog lists a nested column if every array and every map on the way to it is made of records.
What lies in an array of arrays, or behind any other container in a container, is not listed at all.
-/

namespace LakeCatalog.Catalog

open Schema
open Avro (Within rowType)

variable {type : ColumnType} {columns : List Column} {name : String} {names : List String}
  {c : Column}

lemma within_of_held {part : ColumnType} (listed : c ∈ held type) (within : Within part c.type) :
    Within part type := by
  induction type using held.induct with
  | case1 record columns => exact .part (List.mem_map_of_mem listed) within
  | case2 items nullable ih | case3 items nullable ih =>
    exact .part (List.mem_singleton_self items) (ih listed)
  | case4 type noRecord noArray noMap =>
    rw [held.eq_def] at listed
    split at listed <;> simp_all

/-- All columns that a type holds are shown unless it is a container of containers. -/
lemma unfolded_eq_held (direct : isContainer type = true → ∀ part ∈ Avro.inner type,
    isContainer part = false) : unfolded type = held type := by
  cases type with
  | array items nullable | map items nullable =>
    have plain := direct rfl items (List.mem_singleton_self items)
    cases items <;> first | rfl | cases plain
  | _ => rfl

lemma Shallow.record_held (shallow : Shallow type) (name : String) :
    Shallow (.record name (held type)) := by
  intro container within isContainer
  cases within with
  | whole => cases isContainer
  | part part within =>
    obtain ⟨c, listed, rfl⟩ := List.mem_map.mp part
    exact shallow container (within_of_held listed within) isContainer

lemma Leads.to_unfolded (leads : Leads held columns names c)
    (shallow : Shallow (.record name columns)) : Leads unfolded columns names c := by
  induction leads with
  | here listed => exact .here listed
  | @further columns c d names listed leads ih =>
    have inside : Shallow c.type := fun container within =>
      shallow container (.part (List.mem_map_of_mem listed) within)
    refine .further listed ?_
    rw [unfolded_eq_held (inside c.type (.whole _))]
    exact ih (inside.record_held name)

/-- The fields of a schema are those of the columns that are found through records and through
arrays and maps of records. Where no array and no map is made of arrays or maps, these are all
columns that the records in the schema have. Elsewhere a column behind a container in a container is
missing: if the columns of every record are distinctly named, there is a field with its path only if
it is found in the way described. -/
theorem listed_exactly_if_unfolded (schema : TableSchema) (platform : Urn) (schemaName : String) :
    let fields := (SchemaAspect.ofTable schema platform schemaName).fields
    (∀ f, f ∈ fields ↔
      ∃ names c, Leads unfolded schema.columns names c ∧ f = .along none names c) ∧
    (Shallow (rowType schema) → ∀ names c, Leads held schema.columns names c →
      .along none names c ∈ fields) ∧
    (WellNamed (rowType schema) → ∀ names c, Leads held schema.columns names c →
      (Text.join "." names ∈ fields.map (·.path) ↔ Leads unfolded schema.columns names c)) := by
  intro fields
  have listed (names : List String) (c : Column) (leads : Leads unfolded schema.columns names c) :
      .along none names c ∈ fields := Field.mem_ofColumns_iff.mpr ⟨names, c, leads, rfl⟩
  refine ⟨fun f => Field.mem_ofColumns_iff, fun shallow names c leads => ?_,
    fun named names c leads => ⟨fun mem => ?_, fun leads => ?_⟩⟩
  · exact listed names c (leads.to_unfolded shallow)
  · obtain ⟨f, mem, same⟩ := List.mem_map.mp mem
    obtain ⟨names', c', leads', rfl⟩ := Field.mem_ofColumns_iff.mp mem
    cases leads'.to_held.names_unique leads named same
    cases leads'.to_held.unique leads named
    exact leads'
  · exact List.mem_map.mpr ⟨_, listed names c leads, rfl⟩

lemma shallow_of_parts
    (direct : isContainer type = true → ∀ part ∈ Avro.inner type, isContainer part = false)
    (inside : ∀ part ∈ Avro.inner type, Shallow part) : Shallow type := by
  intro container within
  cases within with
  | whole => exact direct
  | part listed within => exact inside _ listed container within

lemma shallow_deliveries : Shallow (rowType (deliveries (.array stop true))) := by
  have simple (type : SimpleType) : Shallow (.simple type) := shallow_of_parts nofun nofun
  have depot : Shallow stop := shallow_of_parts nofun (by simp [stop, Avro.inner, simple])
  have stops : Shallow (.array stop true) :=
    shallow_of_parts (by simp [stop, Avro.inner, isContainer]) (by simp [Avro.inner, depot])
  exact shallow_of_parts nofun (by simp [rowType, deliveries, Avro.inner, simple, depot, stops])

/-- The names of stops are listed if the stops are the items of an array. -/
theorem listed_exactly_if_unfolded_of_deliveries :
    let schema := deliveries (.array stop true)
    Shallow (rowType schema) ∧ WellNamed (rowType schema) ∧
      Field.along none ["stops", "name"] ⟨"name", .simple .string, true, none⟩ ∈
        (SchemaAspect.ofTable schema lake "sales").fields := by
  intro schema
  have stops : ⟨"stops", .array stop true, false, none⟩ ∈ schema.columns := by
    simp [schema, deliveries]
  obtain ⟨-, all, -⟩ := listed_exactly_if_unfolded schema lake "sales"
  exact ⟨shallow_deliveries, wellNamed_deliveries (wellNamed_array wellNamed_stop true),
    all shallow_deliveries _ _ (.further stops (.here (List.mem_singleton_self _)))⟩

/-- The names of stops are missing if the stops are the items of the items of an array. -/
theorem stops_missing_in_array_of_arrays :
    let schema := deliveries (.array (.array stop false) false)
    Leads held schema.columns ["stops", "name"] ⟨"name", .simple .string, true, none⟩ ∧
      ∀ f ∈ (SchemaAspect.ofTable schema lake "sales").fields, f.path ≠ "stops.name" := by
  intro schema
  have outer : ⟨"stops", .array (.array stop false) false, false, none⟩ ∈ schema.columns := by
    simp [schema, deliveries]
  exact ⟨.further outer (.here (List.mem_singleton_self _)), by decide +kernel⟩

end LakeCatalog.Catalog
