import LakeCatalog.Proofs.Spark.Recorded
import LakeCatalog.Proofs.Sync.TableSync

/-!
# What the derived properties say about the schema

Of the sources of the derived properties only three can name a property about the schema: the user,
Spark, and the user again for readers. Where the last one leaves these properties alone, those for
Spark are the ones that count. Whatever was published before, the schema that is read afterwards is
the schema of the table.
-/

namespace LakeCatalog

namespace KeyValues

/-- A text of settings that names no property about the schema. -/
def leavesSchema (raw : String) : Bool :=
  match parse raw with
  | .ok named => named.entries.all fun e => !Spark.isSchemaKey e.1
  | .error _ => true

lemma get?_schemaKey {raw : String} {named : Dictionary String} (leaves : leavesSchema raw = true)
    (parsed : parse raw = .ok named) (suffix : String) :
    named.get? (Spark.schemaKey suffix) = none := by
  rw [leavesSchema, parsed] at leaves
  refine Spark.lookup_schemaKey_eq_none (fun e he => ?_) suffix
  simpa using List.all_eq_true.mp leaves e he

end KeyValues

namespace DerivedProperties

open Spark

variable {s : SyncSettings} {facts : TableFacts} {derived : Dictionary String}

/-- What readers are told of where nobody else says anything. -/
def readerDefaults (s : SyncSettings) : List (String × String) :=
  [("spark.hoodie.query.as.ro.table", "false"), ("spark.path", s.basePath)]

lemma readerDefaults_distinct (s : SyncSettings) :
    (readerDefaults s).Pairwise fun a b => a.1 ≠ b.1 := by
  simp [readerDefaults]

lemma formatEntries_distinct (format : FileFormat) :
    (formatEntries format).Pairwise fun a b => a.1 ≠ b.1 := by
  simp [formatEntries]

lemma readerProperties_eq_ok {told : Dictionary String} (h : readerProperties s facts = .ok told) :
    ∃ format readers, fileFormat s facts = .ok format ∧
      KeyValues.parse s.serdeProperties = .ok readers ∧
      told = ((Dictionary.ofList (readerDefaults s)).overriddenBy readers).insertMany
        (formatEntries format) := by
  obtain ⟨format, hformat, h⟩ := bind_eq_ok_iff.mp h
  obtain ⟨readers, hreaders, h⟩ := bind_eq_ok_iff.mp h
  refine ⟨format, readers, hformat, hreaders, ?_⟩
  rw [← Except.ok.inj h]
  -- What is written first counts last, so the order in which it is written does not matter.
  refine Dictionary.ext_get? fun key => ?_
  rw [Dictionary.get?_insertIfAbsent, Dictionary.get?_insertIfAbsent,
    Dictionary.get?_insertMany_of_distinct _ (formatEntries_distinct format),
    Dictionary.get?_insertMany_of_distinct _ (formatEntries_distinct format),
    Dictionary.get?_overriddenBy, Dictionary.ofList,
    Dictionary.get?_insertMany_of_distinct _ (readerDefaults_distinct s), readerDefaults,
    lookup_cons_entry, lookup_cons_entry, List.lookup_nil, Dictionary.get?_empty]
  by_cases query : key = "spark.hoodie.query.as.ro.table" <;> simp [query, Option.or_assoc]

lemma derive_eq_ok (h : derive s facts = .ok derived) : ∃ user format readers,
    KeyValues.parse s.tableProperties = .ok user ∧ fileFormat s facts = .ok format ∧
      KeyValues.parse s.serdeProperties = .ok readers ∧
      derived = (Dictionary.ofList (factEntries s facts)
        |>.overriddenBy user
        |>.overriddenBy (sparkProperties s facts)
        |>.insertMany (readerDefaults s)
        |>.overriddenBy readers
        |>.insertMany (formatEntries format)) := by
  obtain ⟨user, huser, h⟩ := bind_eq_ok_iff.mp h
  obtain ⟨told, htold, h⟩ := bind_eq_ok_iff.mp h
  obtain ⟨format, readers, hformat, hreaders, rfl⟩ := readerProperties_eq_ok htold
  refine ⟨user, format, readers, huser, hformat, hreaders, ?_⟩
  rw [← Except.ok.inj h]
  refine Dictionary.ext_get? fun key => ?_
  simp only [Dictionary.get?_overriddenBy, Dictionary.ofList,
    Dictionary.get?_insertMany_of_distinct _ (formatEntries_distinct format),
    Dictionary.get?_insertMany_of_distinct _ (readerDefaults_distinct s), Dictionary.get?_empty,
    Option.or_none, Option.or_assoc]

section

variable (s facts)

lemma isSchemaKey_factEntries : ∀ e ∈ factEntries s facts, isSchemaKey e.1 = false := by
  have fixed : isSchemaKey "hudi.table.type" = false ∧ isSchemaKey "hudi.table.version" = false ∧
      isSchemaKey "hudi.base.path" = false ∧ isSchemaKey "hudi.partition.fields" = false := by
    decide +kernel
  unfold factEntries
  split <;> simp [fixed]

lemma isSchemaKey_readerDefaults : ∀ e ∈ readerDefaults s, isSchemaKey e.1 = false := by
  have fixed : isSchemaKey "spark.hoodie.query.as.ro.table" = false ∧
      isSchemaKey "spark.path" = false := by
    decide +kernel
  simp [readerDefaults, fixed]

lemma isSchemaKey_formatEntries (format : FileFormat) :
    ∀ e ∈ formatEntries format, isSchemaKey e.1 = false := by
  have fixed : isSchemaKey "inputFormat" = false ∧ isSchemaKey "outputFormat" = false ∧
      isSchemaKey "serdeClass" = false := by
    decide +kernel
  simp [formatEntries, fixed]

end

/-- Where the properties for readers leave the schema alone, those for Spark count before those of
the user. -/
lemma get?_derive (derives : derive s facts = .ok derived)
    (leaves : KeyValues.leavesSchema s.serdeProperties = true) :
    ∃ user, KeyValues.parse s.tableProperties = .ok user ∧ ∀ suffix,
      derived.get? (schemaKey suffix) =
        ((sparkProperties s facts).get? (schemaKey suffix)).or (user.get? (schemaKey suffix)) := by
  obtain ⟨user, format, readers, huser, -, hreaders, rfl⟩ := derive_eq_ok derives
  refine ⟨user, huser, fun suffix => ?_⟩
  have none_of {entries : List (String × String)}
      (others : ∀ e ∈ entries, isSchemaKey e.1 = false) :
      entries.reverse.lookup (schemaKey suffix) = none :=
    lookup_schemaKey_eq_none (fun e he => others e (List.mem_reverse.mp he)) suffix
  -- From the last source to the first, each one that says nothing about the schema drops out.
  rw [Dictionary.get?_insertMany, none_of (isSchemaKey_formatEntries format),
    Dictionary.get?_overriddenBy, KeyValues.get?_schemaKey leaves hreaders,
    Dictionary.get?_insertMany, none_of (isSchemaKey_readerDefaults s),
    Dictionary.get?_overriddenBy, Dictionary.get?_overriddenBy, Dictionary.get?_ofList,
    none_of (isSchemaKey_factEntries s facts)]
  simp

/-- The entries of a list that is written for Spark are all published. -/
lemma get?_derive_of_counted (derives : derive s facts = .ok derived)
    (leaves : KeyValues.leavesSchema s.serdeProperties = true) {count stem : String}
    {values : List String}
    (written : counted count stem values ⊆
      schemaEntries (schemaText facts.schema (partitionFields s facts)) s.schemaPartLength ++
        partitionEntries (partitionFields s facts)) :
    ∀ e ∈ counted count stem values, derived.get? e.1 = some e.2 := by
  intro e he
  obtain ⟨suffix, key, -⟩ := exists_belongs_of_mem_counted he
  obtain ⟨user, -, sources⟩ := get?_derive derives leaves
  have published : (sparkProperties s facts).get? e.1 = some e.2 :=
    get?_tableProperties_of_counted _ _ _ _ written e he
  rw [key] at published ⊢
  rw [sources, published, Option.some_or]

/-- Where nobody else names a property about the schema, a table without partition columns has none
published, nor how many there are. -/
lemma get?_derive_unpartitioned (derives : derive s facts = .ok derived)
    (user : KeyValues.leavesSchema s.tableProperties = true)
    (readers : KeyValues.leavesSchema s.serdeProperties = true)
    (unpartitioned : partitionFields s facts = []) {suffix : String}
    (column : Belongs "numPartCols" "partCol" suffix) :
    derived.get? (schemaKey suffix) = none := by
  obtain ⟨named, parsed, sources⟩ := get?_derive derives readers
  have absent : (sparkProperties s facts).get? (schemaKey suffix) = none := by
    rw [sparkProperties, unpartitioned]
    exact get?_tableProperties_unpartitioned _ _ _ column
  rw [sources, absent, KeyValues.get?_schemaKey user parsed, Option.none_or]

/-- Where neither the user nor the readers name a property about the schema, a table that is
partitioned has its partition columns read, and for any other those that were recorded before. -/
lemma recordedPartitions?_derived (derives : derive s facts = .ok derived)
    (user : KeyValues.leavesSchema s.tableProperties = true)
    (readers : KeyValues.leavesSchema s.serdeProperties = true)
    {before after : String → Option String}
    (overridden : ∀ suffix,
      after (schemaKey suffix) = (derived.get? (schemaKey suffix)).or (before (schemaKey suffix))) :
    recordedPartitions? after =
      if partitionFields s facts = [] then recordedPartitions? before
      else some (partitionFields s facts) := by
  cases columns : partitionFields s facts with
  | nil =>
    rw [if_pos rfl]
    refine recordedPartitions?_congr fun suffix column => ?_
    rw [overridden, get?_derive_unpartitioned derives user readers columns column, Option.none_or]
  | cons column rest =>
    rw [if_neg (List.cons_ne_nil column rest)]
    refine recordedPartitions?_of_counted fun e he => ?_
    obtain ⟨suffix, key, -⟩ := exists_belongs_of_mem_counted he
    have published : derived.get? e.1 = some e.2 := by
      refine get?_derive_of_counted derives readers ?_ e he
      rw [columns]
      exact List.subset_append_right _ _
    rw [key, overridden, ← key, published, Option.some_or]

/-- Whatever was published before and whatever the user asserts, the schema that is read from the
properties is the schema of the table with the columns that partition it at the end. It is read from
one or more parts, none of which is empty or too long, and only the last can be short. -/
theorem schema_read_back (derives : derive s facts = .ok derived)
    (leaves : KeyValues.leavesSchema s.serdeProperties = true) (earlier : Dictionary String) :
    let stored := earlier.overriddenBy derived
    ∃ parts, recordedParts? stored.get? = some parts ∧
      String.join parts = schemaText facts.schema (partitionFields s facts) ∧
      1 ≤ parts.length ∧
      (∀ part ∈ parts, 1 ≤ part.length ∧ part.length ≤ max s.schemaPartLength 1) ∧
      ∀ part ∈ parts.dropLast, part.length = max s.schemaPartLength 1 := by
  intro stored
  let text := schemaText facts.schema (partitionFields s facts)
  have published : ∀ e ∈ counted "numParts" "part" (parts text s.schemaPartLength),
      derived.get? e.1 = some e.2 :=
    get?_derive_of_counted derives leaves (List.subset_append_left _ _)
  have found : ∀ e ∈ counted "numParts" "part" (parts text s.schemaPartLength),
      stored.get? e.1 = some e.2 := by
    intro e he
    rw [Dictionary.get?_overriddenBy, published e he, Option.some_or]
  refine ⟨parts text s.schemaPartLength, recordedValues?_of_counted found, join_parts ..,
    ?_, ?_, ?_⟩
  · have filled : parts text s.schemaPartLength ≠ [] :=
      parts_ne_nil (schemaText_toList_ne_nil facts.schema (partitionFields s facts)) _
    exact List.length_pos_iff.mpr filled
  · exact fun part hpart => length_of_mem_parts hpart
  · exact fun part hpart => length_of_mem_dropLast_parts hpart

/-- The schema is read back one character at a time, although the user asserts a part of it. -/
theorem schema_read_back_of_orders :
    let s := { (Sync.Client.ofOrders true).settings with
      schemaPartLength := 0
      tableProperties := "spark.sql.sources.schema.part.0=stale"
      serdeProperties := "spark.path=/mnt/orders" }
    ∃ derived, derive s Sync.Client.ordersFacts = .ok derived ∧
      KeyValues.leavesSchema s.serdeProperties = true ∧
      ∀ earlier : Dictionary String, ∃ parts,
        recordedParts? (earlier.overriddenBy derived).get? = some parts ∧
          String.join parts = "\x7b\"type\":\"struct\",\"fields\":[]\x7d" ∧
          ∀ part ∈ parts, part.length = 1 := by
  intro s
  have derivable : (derive s Sync.Client.ordersFacts).isOk = true := by decide +kernel
  have leaves : KeyValues.leavesSchema s.serdeProperties = true := by decide +kernel
  have text : schemaText Sync.Client.ordersFacts.schema
      (partitionFields s Sync.Client.ordersFacts) =
        "\x7b\"type\":\"struct\",\"fields\":[]\x7d" := by
    decide +kernel
  cases derives : derive s Sync.Client.ordersFacts with
  | error fault => rw [derives] at derivable; cases derivable
  | ok derived =>
    refine ⟨derived, rfl, leaves, fun earlier => ?_⟩
    obtain ⟨parts, read, joined, -, bounds, -⟩ := schema_read_back derives leaves earlier
    refine ⟨parts, read, joined.trans text, fun part hpart => ?_⟩
    exact Nat.le_antisymm (bounds part hpart).2 (bounds part hpart).1

end DerivedProperties

end LakeCatalog
