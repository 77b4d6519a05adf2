import LakeCatalog.Spark.Reader
import Mathlib.Data.List.Nodup
import Mathlib.Tactic.Common

/-!
# Reading back what was written for Spark

The properties about the schema have names of their own. The text of the schema and the partition
columns are written under names that begin differently, and the values of one list under different
numerals. So every value is found again, and what Spark reads is what was written.
-/

namespace LakeCatalog.Spark

lemma schemaKey_ne {suffix suffix' : String} (differ : suffix ≠ suffix') :
    schemaKey suffix ≠ schemaKey suffix' := by
  intro same
  exact differ ((String.append_right_inj _).mp same)

lemma numberedKey_inj {stem : String} {i j : Nat} (same : numberedKey stem i = numberedKey stem j) :
    i = j := by
  have suffixes := (String.append_right_inj _).mp same
  exact Text.decimal_inj.mp ((String.append_right_inj _).mp suffixes)

lemma isSchemaKey_schemaKey (suffix : String) : isSchemaKey (schemaKey suffix) = true := by
  have starts : (schemaKey "").toList <+: (schemaKey suffix).toList :=
    Text.prefix_toList_append (by decide +kernel) suffix
  exact List.isPrefixOf_iff_prefix.mpr starts

lemma lookup_schemaKey_eq_none {entries : List (String × String)}
    (others : ∀ e ∈ entries, isSchemaKey e.1 = false) (suffix : String) :
    entries.lookup (schemaKey suffix) = none := by
  refine List.lookup_eq_none_iff.mpr fun e he => bne_iff_ne.mpr fun same => ?_
  have schema := isSchemaKey_schemaKey suffix
  rw [same, others e he] at schema
  cases schema

lemma mem_numbered {stem : String} {values : List String} {e : String × String} :
    e ∈ numbered stem values ↔ ∃ i, values[i]? = some e.2 ∧ e.1 = numberedKey stem i := by
  rw [numbered, List.mem_map]
  constructor
  · rintro ⟨⟨value, i⟩, he, rfl⟩
    exact ⟨i, List.mem_zipIdx_iff_getElem?.mp he, rfl⟩
  · rintro ⟨i, value, key⟩
    exact ⟨(e.2, i), List.mem_zipIdx_iff_getElem?.mpr value, Prod.ext key.symm rfl⟩

lemma numbered_distinct (stem : String) (values : List String) :
    (numbered stem values).Pairwise fun a b => a.1 ≠ b.1 := by
  have indices : (values.zipIdx.map Prod.snd).Nodup := by
    rw [List.zipIdx_map_snd]
    exact List.nodup_range'
  refine List.pairwise_map.mpr ((List.pairwise_map.mp indices).imp fun differ same => ?_)
  exact differ (numberedKey_inj same)

/-- A list as it is written: how many values there are, and then each of them. -/
def counted (count stem : String) (values : List String) : List (String × String) :=
  (schemaKey count, Text.decimal values.length) :: numbered stem values

/-- The names in a list begin like its count or like its stem. -/
def Belongs (count stem suffix : String) : Prop :=
  count.toList <+: suffix.toList ∨ (stem ++ ".").toList <+: suffix.toList

lemma belongs_count (count stem : String) : Belongs count stem count :=
  .inl (List.prefix_refl _)

lemma belongs_numbered (count stem : String) (i : Nat) :
    Belongs count stem (stem ++ "." ++ Text.decimal i) :=
  .inr (Text.prefix_toList_append (List.prefix_refl _) _)

lemma exists_belongs_of_mem_counted {count stem : String} {values : List String}
    {e : String × String} (he : e ∈ counted count stem values) :
    ∃ suffix, e.1 = schemaKey suffix ∧ Belongs count stem suffix := by
  rcases List.mem_cons.mp he with rfl | he
  · exact ⟨count, rfl, belongs_count count stem⟩
  · obtain ⟨i, -, key⟩ := mem_numbered.mp he
    exact ⟨_, key, belongs_numbered count stem i⟩

lemma counted_distinct {count stem : String} (values : List String)
    (apart : ¬ (count.toList <+: (stem ++ ".").toList ∨ (stem ++ ".").toList <+: count.toList)) :
    (counted count stem values).Pairwise fun a b => a.1 ≠ b.1 := by
  refine List.pairwise_cons.mpr ⟨fun e he => ?_, numbered_distinct stem values⟩
  obtain ⟨i, -, key⟩ := mem_numbered.mp he
  have starts : (stem ++ ".").toList <+: (stem ++ "." ++ Text.decimal i).toList :=
    Text.prefix_toList_append (List.prefix_refl _) _
  rw [key]
  exact schemaKey_ne (Text.ne_of_prefix (List.prefix_refl _) starts apart)

/-- No name in the list of parts is one in the list of partition columns. -/
lemma parts_ne_columns {s t : String} (part : Belongs "numParts" "part" s)
    (column : Belongs "numPartCols" "partCol" t) : schemaKey s ≠ schemaKey t := by
  refine schemaKey_ne ?_
  -- Both lists have a count and a stem, so the names can begin in four ways.
  rcases part with part | part <;> rcases column with column | column <;>
    exact Text.ne_of_prefix part column (by decide +kernel)

lemma mapM_range' {f : Nat → Option String} {values : List String} {k : Nat}
    (h : ∀ i v, values[i]? = some v → f (k + i) = some v) :
    (List.range' k values.length).mapM f = some values := by
  induction values generalizing k with
  | nil => rfl
  | cons v rest ih =>
    have first : f k = some v := h 0 v rfl
    have later : (List.range' (k + 1) rest.length).mapM f = some rest := by
      refine ih fun i w hw => ?_
      rw [Nat.add_assoc, Nat.add_comm 1]
      exact h (i + 1) w hw
    rw [List.length_cons, List.range'_succ, List.mapM_cons, first, later]
    rfl

/-- Where all entries of a list are found, reading gives the list. -/
lemma recordedValues?_of_counted {count stem : String} {values : List String}
    {properties : String → Option String}
    (found : ∀ e ∈ counted count stem values, properties e.1 = some e.2) :
    recordedValues? count stem properties = some values := by
  have number : properties (schemaKey count) = some (Text.decimal values.length) :=
    found _ List.mem_cons_self
  have each (i : Nat) (v : String) (hv : values[i]? = some v) :
      properties (numberedKey stem (0 + i)) = some v := by
    rw [Nat.zero_add]
    exact found (numberedKey stem i, v) (List.mem_cons_of_mem _ (mem_numbered.mpr ⟨i, hv, rfl⟩))
  have all := mapM_range' (f := fun i => properties (numberedKey stem i)) each
  rw [← List.range_eq_range'] at all
  simp [recordedValues?, number, Text.decimal, all]

lemma recordedPartitions?_of_counted {partitions : List String}
    {properties : String → Option String}
    (found : ∀ e ∈ counted "numPartCols" "partCol" partitions, properties e.1 = some e.2) :
    recordedPartitions? properties = some partitions := by
  have number := found _ List.mem_cons_self
  rw [recordedPartitions?, number]
  exact recordedValues?_of_counted found

/-- The partition columns are read from their own list. -/
lemma recordedPartitions?_congr {properties properties' : String → Option String}
    (same : ∀ suffix, Belongs "numPartCols" "partCol" suffix →
      properties (schemaKey suffix) = properties' (schemaKey suffix)) :
    recordedPartitions? properties = recordedPartitions? properties' := by
  have number := same _ (belongs_count "numPartCols" "partCol")
  have each (i : Nat) :
      properties (numberedKey "partCol" i) = properties' (numberedKey "partCol" i) :=
    same _ (belongs_numbered "numPartCols" "partCol" i)
  simp only [recordedPartitions?, recordedValues?, number, each]

lemma join_parts (text : String) (length : Nat) : String.join (parts text length) = text := by
  have positive : 0 < max length 1 := by omega
  apply String.toList_inj.mp
  rw [String.toList_join, parts, List.flatMap_map]
  simp only [String.toList_ofList]
  rw [List.flatMap_id']
  exact Text.flatten_chunks positive text.toList

/-- The text of a schema starts with a brace. -/
lemma schemaText_toList_ne_nil (schema : Schema.TableSchema) (partitions : List String) :
    (schemaText schema partitions).toList ≠ [] := by
  intro empty
  rw [schemaText, Json.compact, String.toList_ofList, tableType, DataType.json, Json.text] at empty
  cases empty

lemma parts_ne_nil {text : String} (filled : text.toList ≠ []) (length : Nat) :
    parts text length ≠ [] := by
  intro nothing
  exact Text.chunks_ne_nil filled (List.map_eq_nil_iff.mp nothing)

lemma length_of_mem_parts {text part : String} {length : Nat} (h : part ∈ parts text length) :
    1 ≤ part.length ∧ part.length ≤ max length 1 := by
  obtain ⟨run, hrun, rfl⟩ := List.mem_map.mp h
  rw [String.length_ofList]
  exact Text.length_of_mem_chunks (by omega) hrun

lemma length_of_mem_dropLast_parts {text part : String} {length : Nat}
    (h : part ∈ (parts text length).dropLast) : part.length = max length 1 := by
  rw [parts, ← List.map_dropLast] at h
  obtain ⟨run, hrun, rfl⟩ := List.mem_map.mp h
  rw [String.length_ofList]
  exact Text.length_of_mem_dropLast_chunks (by omega) hrun

lemma mem_partitionEntries_iff {partitions : List String} {e : String × String} :
    e ∈ partitionEntries partitions ↔
      partitions ≠ [] ∧ e ∈ counted "numPartCols" "partCol" partitions := by
  rw [partitionEntries, counted]
  cases partitions with
  | nil => simp
  | cons column rest => simp

lemma mem_versionEntry_iff {version : Option String} {e : String × String} :
    e ∈ versionEntry version ↔
      ∃ v, version = some v ∧ v ≠ "" ∧ e = ("spark.sql.create.version", v) := by
  cases version with
  | none => simp [versionEntry]
  | some v => by_cases empty : v = "" <;> simp [versionEntry, empty]

/-- The entries about the schema of a table all have different keys. -/
lemma entries_distinct (text : String) (length : Nat) (partitions : List String) :
    (schemaEntries text length ++ partitionEntries partitions).Pairwise fun a b => a.1 ≠ b.1 := by
  have schema : (schemaEntries text length).Pairwise fun a b => a.1 ≠ b.1 :=
    counted_distinct _ (by decide +kernel)
  cases partitions with
  | nil =>
    rw [partitionEntries, if_pos List.isEmpty_nil, List.append_nil]
    exact schema
  | cons column rest =>
    refine List.pairwise_append.mpr ⟨schema, counted_distinct _ (by decide +kernel), ?_⟩
    intro e he f hf
    obtain ⟨s, hs, part⟩ := exists_belongs_of_mem_counted he
    obtain ⟨t, ht, column⟩ := exists_belongs_of_mem_counted hf
    rw [hs, ht]
    exact parts_ne_columns part column

lemma isSchemaKey_of_mem_entries {text : String} {length : Nat} {partitions : List String}
    {e : String × String} (he : e ∈ schemaEntries text length ++ partitionEntries partitions) :
    isSchemaKey e.1 = true := by
  have schema {count stem : String} {values : List String} (he : e ∈ counted count stem values) :
      isSchemaKey e.1 = true := by
    obtain ⟨suffix, key, -⟩ := exists_belongs_of_mem_counted he
    rw [key]
    exact isSchemaKey_schemaKey suffix
  rcases List.mem_append.mp he with he | he
  · exact schema he
  · exact schema (mem_partitionEntries_iff.mp he).2

/-- The entries by which the table is found as a data source are not about its schema. -/
lemma isSchemaKey_source {version : Option String} : ∀ e ∈
    ("spark.sql.sources.provider", "hudi") :: versionEntry version, isSchemaKey e.1 = false := by
  intro e he
  rcases List.mem_cons.mp he with rfl | he
  · decide +kernel
  · obtain ⟨v, -, -, rfl⟩ := mem_versionEntry_iff.mp he
    show isSchemaKey "spark.sql.create.version" = false
    decide +kernel

lemma source_distinct (version : Option String) :
    (("spark.sql.sources.provider", "hudi") :: versionEntry version).Pairwise
      fun a b => a.1 ≠ b.1 := by
  unfold versionEntry
  split
  · exact List.pairwise_singleton ..
  · split
    · exact List.pairwise_singleton ..
    · exact List.pairwise_pair.mpr (by simp)

section

variable (schema : Schema.TableSchema) (partitions : List String) (version : Option String)
  (length : Nat)

/-- The properties for Spark are the entries that are written, since these have different keys. -/
lemma get?_tableProperties_eq_some_iff {key value : String} :
    (tableProperties schema partitions version length).get? key = some value ↔
      (key, value) ∈ ("spark.sql.sources.provider", "hudi") :: versionEntry version ∨
      (key, value) ∈ schemaEntries (schemaText schema partitions) length ∨
      (key, value) ∈ partitionEntries partitions := by
  have distinct : (("spark.sql.sources.provider", "hudi") :: versionEntry version ++
      (schemaEntries (schemaText schema partitions) length ++
        partitionEntries partitions)).Pairwise fun a b => a.1 ≠ b.1 := by
    refine List.pairwise_append.mpr ⟨source_distinct version, entries_distinct .., ?_⟩
    intro e he f hf same
    have isSchema := isSchemaKey_of_mem_entries hf
    rw [← same, isSchemaKey_source e he] at isSchema
    cases isSchema
  rw [tableProperties, Dictionary.get?_ofList, List.append_assoc, lookup_reverse distinct,
    lookup_eq_some_iff_mem distinct, List.mem_append, List.mem_append]

lemma get?_tableProperties_of_mem {suffix value : String}
    (he : (schemaKey suffix, value) ∈
      schemaEntries (schemaText schema partitions) length ++ partitionEntries partitions) :
    (tableProperties schema partitions version length).get? (schemaKey suffix) = some value :=
  (get?_tableProperties_eq_some_iff schema partitions version length).mpr
    (.inr (List.mem_append.mp he))

/-- Where there are no partition columns, their list is not written. -/
lemma get?_tableProperties_unpartitioned {suffix : String}
    (column : Belongs "numPartCols" "partCol" suffix) :
    (tableProperties schema [] version length).get? (schemaKey suffix) = none := by
  refine Option.eq_none_iff_forall_ne_some.mpr fun value found => ?_
  rcases (get?_tableProperties_eq_some_iff schema [] version length).mp found with he | he | he
  · have isSchema := isSchemaKey_schemaKey suffix
    rw [isSchemaKey_source _ he] at isSchema
    cases isSchema
  · obtain ⟨s, same, part⟩ := exists_belongs_of_mem_counted he
    exact parts_ne_columns part column same.symm
  · cases he

/-- The entries of a list that is written are all found. -/
lemma get?_tableProperties_of_counted {count stem : String} {values : List String}
    (written : counted count stem values ⊆
      schemaEntries (schemaText schema partitions) length ++ partitionEntries partitions) :
    ∀ e ∈ counted count stem values,
      (tableProperties schema partitions version length).get? e.1 = some e.2 := by
  rintro ⟨key, value⟩ he
  obtain ⟨suffix, same, -⟩ := exists_belongs_of_mem_counted he
  obtain rfl : key = schemaKey suffix := same
  exact get?_tableProperties_of_mem schema partitions version length (written he)

lemma recordedPartitions?_tableProperties :
    recordedPartitions? (tableProperties schema partitions version length).get? =
      some partitions := by
  cases partitions with
  | nil =>
    have none := get?_tableProperties_unpartitioned schema version length
      (belongs_count "numPartCols" "partCol")
    rw [recordedPartitions?, none]
    rfl
  | cons column rest =>
    exact recordedPartitions?_of_counted (get?_tableProperties_of_counted schema _ version length
      (List.subset_append_right _ _))

end

end LakeCatalog.Spark
