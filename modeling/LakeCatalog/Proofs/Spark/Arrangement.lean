import LakeCatalog.Proofs.Spark.Reader
import LakeCatalog.Proofs.Spark.Recorded
import LakeCatalog.Settings
import Mathlib.Data.List.Perm.Basic

/-!
# Partition columns in the struct for Spark

The struct that is written for Spark has all columns of the table, those that partition it at the
end. The properties also list the names of the partition columns, as they are configured. The two
agree if every such name is the name of a column: a name that no column has is listed all the same,
but there is nothing at the end of the struct for it.
-/

namespace LakeCatalog.Spark

open Schema

section

variable {schema : TableSchema} {partitions : List String} {name : String} {c : Column}

lemma members_eq_map (cs : List Column) : members cs = cs.map member := by
  induction cs with
  | nil => rfl
  | cons c cs ih => rw [members, ih, List.map_cons]

lemma member_eq (c : Column) : member c = ⟨c.name, dataType c.type, c.nullable⟩ := by
  cases c
  rw [member]

lemma name_of_column? (found : schema.column? name = some c) : c.name = name := by
  simpa using List.find?_some found

lemma column?_isSome_iff : (schema.column? name).isSome ↔ name ∈ schema.columns.map (·.name) := by
  simp [TableSchema.column?]

/-- Where names are distinct, a column is the one with its name. -/
lemma column?_eq_some_iff (distinct : (schema.columns.map (·.name)).Nodup) :
    schema.column? name = some c ↔ c ∈ schema.columns ∧ c.name = name := by
  constructor
  · intro found
    exact ⟨List.mem_of_find?_eq_some found, name_of_column? found⟩
  · rintro ⟨mem, rfl⟩
    obtain ⟨d, found⟩ := Option.isSome_iff_exists.mp
      (column?_isSome_iff.mpr (List.mem_map_of_mem mem))
    have same := List.inj_on_of_nodup_map distinct (List.mem_of_find?_eq_some found) mem
      (name_of_column? found)
    rw [found, same]

/-- Of the listed names those of columns are found. -/
lemma map_name_filterMap_column? : (partitions.filterMap schema.column?).map (·.name) =
    partitions.filter (· ∈ schema.columns.map (·.name)) := by
  induction partitions with
  | nil => rfl
  | cons p rest ih =>
    rw [List.filterMap_cons, List.filter_cons]
    cases found : schema.column? p with
    | none =>
      have unknown : p ∉ schema.columns.map (·.name) := by simp [← column?_isSome_iff, found]
      rw [if_neg (by simpa using unknown)]
      exact ih
    | some c =>
      have known : p ∈ schema.columns.map (·.name) := by simp [← column?_isSome_iff, found]
      rw [if_pos (by simpa using known), List.map_cons, ih, name_of_column? found]

/-- The columns in front and those at the end are all columns, each of them once. -/
lemma arranged_perm (distinct : (schema.columns.map (·.name)).Nodup) (once : partitions.Nodup) :
    (arranged schema partitions).Perm schema.columns := by
  let moves (c : Column) : Bool := partitions.contains c.name
  have moved : (partitions.filterMap schema.column?).Perm (schema.columns.filter moves) := by
    have names : ((partitions.filterMap schema.column?).map (·.name)).Nodup := by
      rw [map_name_filterMap_column?]
      exact once.filter _
    refine (List.perm_ext_iff_of_nodup names.of_map (distinct.of_map.filter moves)).mpr fun c => ?_
    simp only [List.mem_filterMap, List.mem_filter, column?_eq_some_iff distinct, moves,
      List.contains_iff_mem]
    exact ⟨fun ⟨_, listed, mem, same⟩ => ⟨mem, same ▸ listed⟩,
      fun ⟨mem, listed⟩ => ⟨_, listed, mem, rfl⟩⟩
  have apart := List.filter_append_perm moves schema.columns
  exact ((moved.append_left _).trans List.perm_append_comm).trans apart

lemma tableType_eq (schema : TableSchema) (partitions : List String) :
    tableType schema partitions = .struct ((arranged schema partitions).map fun c =>
      ⟨c.name, dataType c.type, c.nullable⟩) := by
  rw [tableType, members_eq_map, List.map_congr_left fun c _ => member_eq c]

lemma memberNames_tableType (schema : TableSchema) (partitions : List String) :
    (tableType schema partitions).memberNames =
      (schema.columns.filter fun c => !partitions.contains c.name).map (·.name) ++
        partitions.filter (· ∈ schema.columns.map (·.name)) := by
  rw [tableType_eq, DataType.memberNames, List.map_map, arranged, List.map_append,
    ← map_name_filterMap_column?]
  rfl

end

/-- Where columns have different names and the partition list has no repeats, the struct that is
written for Spark has the columns of the table as its members, each of them once: those that do not
partition it first, as they are, and then those that do, in the order of the list. -/
theorem columns_moved_not_lost {schema : TableSchema} {partitions : List String}
    (distinct : (schema.columns.map (·.name)).Nodup) (once : partitions.Nodup) :
    let kept := schema.columns.filter fun c => c.name ∉ partitions
    ∃ moved : List Column,
      DataType.read? (schemaText schema partitions) =
        some (.struct ((kept ++ moved).map fun c => ⟨c.name, dataType c.type, c.nullable⟩)) ∧
      (kept ++ moved).Perm schema.columns ∧
      moved.map (·.name) = partitions.filter (· ∈ schema.columns.map (·.name)) := by
  intro kept
  have whole : arranged schema partitions = kept ++ partitions.filterMap schema.column? := by
    simp [arranged, kept]
  refine ⟨partitions.filterMap schema.column?, ?_, ?_, map_name_filterMap_column?⟩
  · rw [schemaText, read?_compact, tableType_eq, whole]
  · exact whole ▸ arranged_perm distinct once

def dailyOrders : TableSchema where
  name := "orders"
  spaceName := none
  columns := [⟨"dt", .simple .string, false, none⟩, ⟨"id", .simple .long, false, none⟩,
    ⟨"tags", .array (.simple .string) true, true, none⟩]
  raw := ""

/-- The day moves behind the other columns; a region, which is no column, adds nothing. -/
theorem columns_moved_not_lost_of_orders :
    (dailyOrders.columns.map (·.name)).Nodup ∧ ["region", "dt"].Nodup ∧ ∃ moved : List Column,
      moved.map (·.name) = ["dt"] ∧
      DataType.read? (schemaText dailyOrders ["region", "dt"]) =
        some (.struct (⟨"id", .simple "long", false⟩ ::
          ⟨"tags", .array (.simple "string") true, true⟩ ::
          moved.map fun c => ⟨c.name, dataType c.type, c.nullable⟩)) := by
  have distinct : (dailyOrders.columns.map (·.name)).Nodup := by decide
  have once : ["region", "dt"].Nodup := by decide
  obtain ⟨moved, read, -, names⟩ := columns_moved_not_lost distinct once
  exact ⟨distinct, once, moved, names, read⟩

lemma recordedType?_tableProperties (schema : TableSchema) (partitions : List String)
    (version : Option String) (length : Nat) :
    recordedType? (tableProperties schema partitions version length).get? =
      some (tableType schema partitions) := by
  have parts := recordedValues?_of_counted
    (get?_tableProperties_of_counted schema partitions version length (List.subset_append_left _ _))
  rw [recordedType?, recordedParts?, parts, Option.bind_eq_bind, Option.bind_some, join_parts,
    schemaText, read?_compact]

/-- The struct type and the partition columns are always read back from the properties. The
partition columns are the last members of the struct, in their order, exactly if each of them is a
column of the table. -/
theorem recorded_partitions_last_iff (schema : TableSchema) (partitions : List String)
    (version : Option String) (length : Nat) :
    let properties := (tableProperties schema partitions version length).get?
    ∃ type, recordedType? properties = some type ∧
      recordedPartitions? properties = some partitions ∧
      (partitions <:+ type.memberNames ↔
        ∀ p ∈ partitions, p ∈ schema.columns.map (·.name)) := by
  intro properties
  refine ⟨_, recordedType?_tableProperties .., recordedPartitions?_tableProperties .., ?_⟩
  rw [memberNames_tableType]
  constructor
  · intro last p hp
    obtain kept | found := List.mem_append.mp (last.mem hp)
    · obtain ⟨c, mem, rfl⟩ := List.mem_map.mp kept
      exact List.mem_map_of_mem (List.mem_of_mem_filter mem)
    · simpa using List.of_mem_filter found
  · intro known
    have all : partitions.filter (· ∈ schema.columns.map (·.name)) = partitions :=
      List.filter_eq_self.mpr fun p hp => decide_eq_true (known p hp)
    rw [all]
    exact List.suffix_append _ _

/-- A country is recorded as the first partition column, although the last members of the struct are
the tags of an order and the day. -/
theorem unknown_partition_column_recorded : ¬ ∀ (schema : TableSchema) (raw : String)
    (version : Option String) (length : Nat) (type : DataType) (names : List String),
    (schema.columns.map (·.name)).Nodup →
    recordedType? (tableProperties schema (Settings.splitList raw) version length).get? =
      some type →
    recordedPartitions? (tableProperties schema (Settings.splitList raw) version length).get? =
      some names →
    names <:+ type.memberNames := by
  intro always
  have last := always dailyOrders "country, dt" none 4000 _ _ (by decide)
    (recordedType?_tableProperties ..) (recordedPartitions?_tableProperties ..)
  rw [memberNames_tableType] at last
  exact absurd last (by decide +kernel)

end LakeCatalog.Spark
