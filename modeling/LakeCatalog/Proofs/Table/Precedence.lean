import LakeCatalog.Proofs.KeyValues
import LakeCatalog.Proofs.Table.DerivedProperties

/-!
# Which source of a derived property counts

Six sources can name a property of a table. The value that is published is that of the first of
them that has one, in a fixed order, whatever keys the user chooses. There is no result if one of
three settings cannot be read, and then the first of these is reported.
-/

namespace LakeCatalog

def FileFormat.word (raw : String) : String := Text.uppercase (Text.trimmed raw)

lemma FileFormat.parse_eq_error_iff {raw : String} {fault : Fault} :
    FileFormat.parse raw = .error fault ↔
      (∀ format : FileFormat, word raw ≠ format.name) ∧
        fault = .build (.unsupportedFileFormat (word raw)) := by
  have all : (∀ format : FileFormat, word raw ≠ format.name) ↔
      word raw ≠ parquet.name ∧ word raw ≠ orc.name ∧ word raw ≠ hfile.name :=
    ⟨fun h => ⟨h _, h _, h _⟩, fun ⟨p, o, h⟩ format => by cases format <;> assumption⟩
  rw [all, FileFormat.parse, ← FileFormat.word]
  split_ifs with isParquet isOrc isHfile
  · simp [isParquet]
  · simp [isOrc]
  · simp [isHfile]
  · simp [isParquet, isOrc, isHfile, eq_comm]

lemma FileFormat.word_of_parse {raw : String} {format : FileFormat}
    (read : FileFormat.parse raw = .ok format) : word raw = format.name := by
  rw [FileFormat.parse, ← FileFormat.word] at read
  split_ifs at read with isParquet isOrc isHfile
  · cases read
    exact isParquet
  · cases read
    exact isOrc
  · cases read
    exact isHfile

namespace DerivedProperties

open KeyValues (firstRepeated? repeatedIn value?)

variable {s : SyncSettings} {facts : TableFacts}

def NamesUnknownFormat (s : SyncSettings) : Prop :=
  ∃ raw, s.fileFormat = some raw ∧ ∀ format : FileFormat, FileFormat.word raw ≠ format.name

/-- The fault that is reported: the first one of user properties, file format and user properties
for readers. -/
inductive Reports (s : SyncSettings) : BuildFault → Prop where
  | user {piece : List Char} : firstRepeated? s.tableProperties = some piece →
    Reports s (repeatedIn piece)
  | format {raw : String} : firstRepeated? s.tableProperties = none → s.fileFormat = some raw →
    (∀ format : FileFormat, FileFormat.word raw ≠ format.name) →
    Reports s (.unsupportedFileFormat (FileFormat.word raw))
  | readers {piece : List Char} : firstRepeated? s.tableProperties = none →
    ¬ NamesUnknownFormat s → firstRepeated? s.serdeProperties = some piece →
    Reports s (repeatedIn piece)

lemma fileFormat_eq_error_iff {fault : Fault} : fileFormat s facts = .error fault ↔
    ∃ raw, s.fileFormat = some raw ∧ (∀ format : FileFormat, FileFormat.word raw ≠ format.name) ∧
        fault = .build (.unsupportedFileFormat (FileFormat.word raw)) := by
  rw [fileFormat]
  cases s.fileFormat with
  | none => simp
  | some raw => simp [FileFormat.parse_eq_error_iff]

lemma exists_fileFormat_of_known (known : ¬ NamesUnknownFormat s) (facts : TableFacts) :
    ∃ format, fileFormat s facts = .ok format := by
  cases read : fileFormat s facts with
  | ok format => exact ⟨format, rfl⟩
  | error fault =>
    obtain ⟨raw, named, unknown, -⟩ := fileFormat_eq_error_iff.mp read
    exact absurd ⟨raw, named, unknown⟩ known

lemma readerProperties_eq_error_iff {fault : Fault} : readerProperties s facts = .error fault ↔
    (∃ raw, s.fileFormat = some raw ∧ (∀ format : FileFormat, FileFormat.word raw ≠ format.name) ∧
        fault = .build (.unsupportedFileFormat (FileFormat.word raw))) ∨
      ¬ NamesUnknownFormat s ∧ ∃ piece, firstRepeated? s.serdeProperties = some piece ∧
        fault = .build (repeatedIn piece) := by
  refine bind_eq_error_iff.trans (or_congr fileFormat_eq_error_iff ?_)
  constructor
  · rintro ⟨format, known, failed⟩
    refine ⟨fun ⟨raw, named, unknown⟩ => ?_, ?_⟩
    · have failed : fileFormat s facts = .error _ :=
        fileFormat_eq_error_iff.mpr ⟨raw, named, unknown, rfl⟩
      rw [known] at failed
      cases failed
    · obtain failed | ⟨readers, -, failed⟩ := bind_eq_error_iff.mp failed
      · exact KeyValues.parse_eq_error_iff.mp failed
      · cases failed
  · rintro ⟨known, first⟩
    obtain ⟨format, read⟩ := exists_fileFormat_of_known known facts
    exact ⟨format, read, bind_eq_error_iff.mpr (.inl (KeyValues.parse_eq_error_iff.mpr first))⟩

lemma derive_eq_error_iff {fault : Fault} :
    derive s facts = .error fault ↔ ∃ cause, Reports s cause ∧ fault = .build cause := by
  constructor
  · intro failed
    obtain failed | ⟨user, parsed, failed⟩ := bind_eq_error_iff.mp failed
    · obtain ⟨piece, first, rfl⟩ := KeyValues.parse_eq_error_iff.mp failed
      exact ⟨_, .user first, rfl⟩
    have readable := (KeyValues.parse_eq_ok_iff.mp parsed).1
    obtain failed | ⟨readers, -, failed⟩ := bind_eq_error_iff.mp failed
    · obtain ⟨raw, named, unknown, rfl⟩ | ⟨known, piece, first, rfl⟩ :=
        readerProperties_eq_error_iff.mp failed
      · exact ⟨_, .format readable named unknown, rfl⟩
      · exact ⟨_, .readers readable known first, rfl⟩
    · cases failed
  · rintro ⟨cause, reports, rfl⟩
    have told (readable : firstRepeated? s.tableProperties = none)
        (failed : readerProperties s facts = .error (.build cause)) :
        derive s facts = .error (.build cause) :=
      bind_eq_error_iff.mpr (.inr ⟨_, KeyValues.parse_eq_ok_iff.mpr ⟨readable, rfl⟩,
        bind_eq_error_iff.mpr (.inl failed)⟩)
    cases reports with
    | user first =>
      exact bind_eq_error_iff.mpr (.inl (KeyValues.parse_eq_error_iff.mpr ⟨_, first, rfl⟩))
    | format readable named unknown =>
      exact told readable (readerProperties_eq_error_iff.mpr (.inl ⟨_, named, unknown, rfl⟩))
    | readers readable known first =>
      exact told readable (readerProperties_eq_error_iff.mpr (.inr ⟨known, _, first, rfl⟩))

lemma exists_reports_iff : (∃ cause, Reports s cause) ↔
    (firstRepeated? s.tableProperties).isSome ∨ NamesUnknownFormat s ∨
      (firstRepeated? s.serdeProperties).isSome := by
  constructor
  · rintro ⟨cause, first | ⟨-, named, unknown⟩ | ⟨-, -, first⟩⟩
    · exact .inl (Option.isSome_of_eq_some first)
    · exact .inr (.inl ⟨_, named, unknown⟩)
    · exact .inr (.inr (Option.isSome_of_eq_some first))
  · intro faulty
    cases user : firstRepeated? s.tableProperties with
    | some piece => exact ⟨_, .user user⟩
    | none =>
      rw [user] at faulty
      by_cases format : NamesUnknownFormat s
      · obtain ⟨raw, named, unknown⟩ := format
        exact ⟨_, .format user named unknown⟩
      · have readers := (faulty.resolve_left nofun).resolve_left format
        obtain ⟨piece, first⟩ := Option.isSome_iff_exists.mp readers
        exact ⟨_, .readers user format first⟩

/-- The sources of the derived properties, those that count most first. -/
inductive Source where
  | fileFormat
  | readers
  | readerDefault
  | spark
  | user
  | table

namespace Source

def rank : Source → Nat
  | .fileFormat => 0
  | .readers => 1
  | .readerDefault => 2
  | .spark => 3
  | .user => 4
  | .table => 5

def ranked : List Source := [.fileFormat, .readers, .readerDefault, .spark, .user, .table]

lemma mem_ranked (source : Source) : source ∈ ranked := by
  cases source <;> simp [ranked]

lemma ranked_pairwise : ranked.Pairwise fun a b => a.rank < b.rank := by
  simp [ranked, rank]

/-- What is found first is what is found at a source while those that count more give nothing. -/
lemma findSome?_ranked_eq_some_iff {told : Source → Option String} {value : String} :
    ranked.findSome? told = some value ↔ ∃ source, told source = some value ∧
      ∀ stronger : Source, stronger.rank < source.rank → told stronger = none := by
  rw [List.findSome?_eq_some_iff]
  constructor
  · rintro ⟨front, source, back, split, found, nothing⟩
    refine ⟨source, found, fun stronger before => nothing stronger ?_⟩
    have mem := mem_ranked stronger
    have later := (List.pairwise_append.mp (split ▸ ranked_pairwise)).2.1
    rw [split, List.mem_append, List.mem_cons] at mem
    rcases mem with mem | rfl | mem
    · exact mem
    · exact absurd before (Nat.lt_irrefl _)
    · exact absurd before (Nat.lt_asymm ((List.pairwise_cons.mp later).1 stronger mem))
  · rintro ⟨source, found, nothing⟩
    obtain ⟨front, back, split⟩ := List.append_of_mem (mem_ranked source)
    refine ⟨front, source, back, split, found, fun stronger mem => nothing stronger ?_⟩
    have earlier := (List.pairwise_append.mp (split ▸ ranked_pairwise)).2.2
    exact earlier stronger mem source List.mem_cons_self

end Source

/-- The columns that partition the table: those of the settings where they list any, even none. -/
def effectiveColumns (s : SyncSettings) (facts : TableFacts) : List String :=
  match s.partitionFields with
  | some columns => columns
  | none => facts.partitionFields

/-- The format of the base files: the one that the settings name, or else that of the table. -/
def IsEffective (s : SyncSettings) (facts : TableFacts) (format : FileFormat) : Prop :=
  match s.fileFormat with
  | some raw => FileFormat.word raw = format.name
  | none => format = facts.fileFormat

def schemaParts (s : SyncSettings) (facts : TableFacts) : List String :=
  Spark.parts (Spark.schemaText facts.schema (effectiveColumns s facts)) s.schemaPartLength

/-- What each source says about a property. -/
inductive Says (s : SyncSettings) (facts : TableFacts) (format : FileFormat) :
    Source → String → String → Prop where
  | inputFormat : Says s facts format .fileFormat "inputFormat" format.inputClass
  | outputFormat : Says s facts format .fileFormat "outputFormat" format.outputClass
  | serdeClass : Says s facts format .fileFormat "serdeClass" format.serdeClass
  | readers {key value : String} (named : value? s.serdeProperties key = some value) :
      Says s facts format .readers key value
  | query : Says s facts format .readerDefault "spark.hoodie.query.as.ro.table" "false"
  | path : Says s facts format .readerDefault "spark.path" s.basePath
  | provider : Says s facts format .spark "spark.sql.sources.provider" "hudi"
  | created {version : String} (given : s.sparkVersion = some version) (filled : version ≠ "") :
      Says s facts format .spark "spark.sql.create.version" version
  | numParts : Says s facts format .spark "spark.sql.sources.schema.numParts"
      (Text.decimal (schemaParts s facts).length)
  | part {i : Nat} {part : String} (listed : (schemaParts s facts)[i]? = some part) :
      Says s facts format .spark ("spark.sql.sources.schema.part." ++ Text.decimal i) part
  | numPartCols (partitioned : effectiveColumns s facts ≠ []) :
      Says s facts format .spark "spark.sql.sources.schema.numPartCols"
        (Text.decimal (effectiveColumns s facts).length)
  | partCol {i : Nat} {column : String} (listed : (effectiveColumns s facts)[i]? = some column) :
      Says s facts format .spark ("spark.sql.sources.schema.partCol." ++ Text.decimal i) column
  | user {key value : String} (named : value? s.tableProperties key = some value) :
      Says s facts format .user key value
  | kind : Says s facts format .table "hudi.table.type" facts.kind.name
  | version : Says s facts format .table "hudi.table.version" facts.version
  | basePath : Says s facts format .table "hudi.base.path" s.basePath
  | partitionFields (partitioned : effectiveColumns s facts ≠ []) :
      Says s facts format .table "hudi.partition.fields" (Text.join "," (effectiveColumns s facts))

def told (s : SyncSettings) (facts : TableFacts) (format : FileFormat) (key : String) :
    Source → Option String
  | .fileFormat => (formatEntries format).lookup key
  | .readers => value? s.serdeProperties key
  | .readerDefault => (readerDefaults s).lookup key
  | .spark => (sparkProperties s facts).get? key
  | .user => value? s.tableProperties key
  | .table => (factEntries s facts).lookup key

section

variable (s facts)

lemma factEntries_distinct : (factEntries s facts).Pairwise fun a b => a.1 ≠ b.1 := by
  unfold factEntries
  split <;> simp

lemma partitionFields_eq : partitionFields s facts = effectiveColumns s facts := by
  unfold partitionFields effectiveColumns
  split
  · rename_i columns listed
    rw [listed, Option.getD_some]
  · rename_i unlisted
    rw [unlisted, Option.getD_none]

end

lemma isEffective_of_fileFormat {format : FileFormat} (read : fileFormat s facts = .ok format) :
    IsEffective s facts format := by
  rw [fileFormat] at read
  rw [IsEffective]
  cases named : s.fileFormat with
  | none =>
    rw [named] at read
    exact (Except.ok.inj read).symm
  | some raw =>
    rw [named] at read
    exact FileFormat.word_of_parse read

lemma mem_factEntries_iff {format : FileFormat} {key value : String} :
    (key, value) ∈ factEntries s facts ↔ Says s facts format .table key value := by
  have columns : factEntries s facts = [("hudi.table.type", facts.kind.name),
      ("hudi.table.version", facts.version), ("hudi.base.path", s.basePath)] ++
        if effectiveColumns s facts = [] then []
        else [("hudi.partition.fields", Text.join "," (effectiveColumns s facts))] := by
    rw [factEntries, partitionFields_eq]
    cases effectiveColumns s facts <;> rfl
  rw [columns, List.mem_append]
  constructor
  · rintro (fixed | partitions)
    · simp only [List.mem_cons, Prod.mk.injEq, List.not_mem_nil, or_false] at fixed
      obtain ⟨rfl, rfl⟩ | ⟨rfl, rfl⟩ | ⟨rfl, rfl⟩ := fixed
      · exact .kind
      · exact .version
      · exact .basePath
    · split at partitions
      · cases partitions
      · rename_i partitioned
        cases List.mem_singleton.mp partitions
        exact .partitionFields partitioned
  · intro said
    cases said with
    | kind | version | basePath => simp
    | partitionFields partitioned => simp [partitioned]

lemma numberedKey_part (i : Nat) :
    Spark.numberedKey "part" i = "spark.sql.sources.schema.part." ++ Text.decimal i := by
  have stem : "spark.sql.sources.schema." ++ ("part" ++ ".") = "spark.sql.sources.schema.part." :=
    rfl
  exact String.append_assoc.symm.trans (congrArg (· ++ Text.decimal i) stem)

lemma numberedKey_partCol (i : Nat) :
    Spark.numberedKey "partCol" i = "spark.sql.sources.schema.partCol." ++ Text.decimal i := by
  have stem : "spark.sql.sources.schema." ++ ("partCol" ++ ".") =
      "spark.sql.sources.schema.partCol." := rfl
  exact String.append_assoc.symm.trans (congrArg (· ++ Text.decimal i) stem)

lemma mem_counted_iff {count stem : String} {values : List String} {key value : String} :
    (key, value) ∈ Spark.counted count stem values ↔
      (key = Spark.schemaKey count ∧ value = Text.decimal values.length) ∨
        ∃ i, values[i]? = some value ∧ key = Spark.numberedKey stem i := by
  rw [Spark.counted, List.mem_cons, Prod.mk.injEq, Spark.mem_numbered]

/-- What is told for Spark is what is written for it, and nothing of that is overwritten. -/
lemma get?_sparkProperties_eq_some_iff {format : FileFormat} {key value : String} :
    (sparkProperties s facts).get? key = some value ↔ Says s facts format .spark key value := by
  rw [sparkProperties, Spark.get?_tableProperties_eq_some_iff, partitionFields_eq,
    Spark.mem_partitionEntries_iff]
  constructor
  · rintro (source | part | ⟨partitioned, column⟩)
    · rcases List.mem_cons.mp source with same | version
      · cases same
        exact .provider
      · obtain ⟨v, given, filled, same⟩ := Spark.mem_versionEntry_iff.mp version
        cases same
        exact .created given filled
    · obtain ⟨rfl, rfl⟩ | ⟨i, listed, rfl⟩ := mem_counted_iff.mp part
      · exact .numParts
      · exact numberedKey_part i ▸ .part listed
    · obtain ⟨rfl, rfl⟩ | ⟨i, listed, rfl⟩ := mem_counted_iff.mp column
      · exact .numPartCols partitioned
      · exact numberedKey_partCol i ▸ .partCol listed
  · intro said
    cases said with
    | provider => exact .inl List.mem_cons_self
    | created given filled =>
      exact .inl (List.mem_cons_of_mem _ (Spark.mem_versionEntry_iff.mpr ⟨_, given, filled, rfl⟩))
    | numParts => exact .inr (.inl (mem_counted_iff.mpr (.inl ⟨rfl, rfl⟩)))
    | part listed =>
      exact .inr (.inl (mem_counted_iff.mpr (.inr ⟨_, listed, (numberedKey_part _).symm⟩)))
    | numPartCols partitioned =>
      exact .inr (.inr ⟨partitioned, mem_counted_iff.mpr (.inl ⟨rfl, rfl⟩)⟩)
    | partCol listed =>
      exact .inr (.inr ⟨List.ne_nil_of_mem (List.mem_of_getElem? listed),
        mem_counted_iff.mpr (.inr ⟨_, listed, (numberedKey_partCol _).symm⟩)⟩)

lemma told_eq_some_iff {format : FileFormat} {source : Source} {key value : String} :
    told s facts format key source = some value ↔ Says s facts format source key value := by
  cases source with
  | fileFormat =>
    refine (lookup_eq_some_iff_mem (formatEntries_distinct format)).trans ?_
    constructor
    · intro listed
      simp only [formatEntries, List.mem_cons, Prod.mk.injEq, List.not_mem_nil, or_false] at listed
      obtain ⟨rfl, rfl⟩ | ⟨rfl, rfl⟩ | ⟨rfl, rfl⟩ := listed
      · exact .inputFormat
      · exact .outputFormat
      · exact .serdeClass
    · intro said
      cases said <;> simp [formatEntries]
  | readers =>
    refine ⟨.readers, fun said => ?_⟩
    cases said with
    | readers named => exact named
  | readerDefault =>
    refine (lookup_eq_some_iff_mem (readerDefaults_distinct s)).trans ?_
    constructor
    · intro listed
      simp only [readerDefaults, List.mem_cons, Prod.mk.injEq, List.not_mem_nil, or_false] at listed
      obtain ⟨rfl, rfl⟩ | ⟨rfl, rfl⟩ := listed
      · exact .query
      · exact .path
    · intro said
      cases said <;> simp [readerDefaults]
  | spark => exact get?_sparkProperties_eq_some_iff
  | user =>
    refine ⟨.user, fun said => ?_⟩
    cases said with
    | user named => exact named
  | table =>
    exact (lookup_eq_some_iff_mem (factEntries_distinct s facts)).trans mem_factEntries_iff

lemma told_eq_none_iff {format : FileFormat} {source : Source} {key : String} :
    told s facts format key source = none ↔ ∀ value, ¬ Says s facts format source key value := by
  simp only [Option.eq_none_iff_forall_ne_some, ← told_eq_some_iff, ne_eq]

lemma get?_of_parse {raw : String} {named : Dictionary String}
    (parsed : KeyValues.parse raw = .ok named) (key : String) :
    named.get? key = value? raw key := by
  obtain ⟨-, rfl⟩ := KeyValues.parse_eq_ok_iff.mp parsed
  exact KeyValues.get?_assignments raw key

lemma get?_derive_eq_findSome? {derived : Dictionary String}
    (derives : derive s facts = .ok derived) :
    ∃ format, IsEffective s facts format ∧
      ∀ key, derived.get? key = Source.ranked.findSome? (told s facts format key) := by
  obtain ⟨user, format, readers, huser, hformat, hreaders, rfl⟩ := derive_eq_ok derives
  refine ⟨format, isEffective_of_fileFormat hformat, fun key => ?_⟩
  rw [Dictionary.get?_insertMany_of_distinct _ (formatEntries_distinct format),
    Dictionary.get?_overriddenBy, get?_of_parse hreaders,
    Dictionary.get?_insertMany_of_distinct _ (readerDefaults_distinct s),
    Dictionary.get?_overriddenBy, Dictionary.get?_overriddenBy, get?_of_parse huser,
    Dictionary.ofList, Dictionary.get?_insertMany_of_distinct _ (factEntries_distinct s facts),
    Dictionary.get?_empty]
  have first (source : Source) (later : List Source) :
      (source :: later).findSome? (told s facts format key) =
        (told s facts format key source).or (later.findSome? (told s facts format key)) := by
    rw [List.findSome?_cons]
    cases told s facts format key source <;> rfl
  simp only [Source.ranked, first, List.findSome?_nil, Option.or_none, told]

/-- There are no derived properties exactly if an entry of the user's properties or of those for
readers has more than one equals sign or the format in the settings is not known; the first of these
faults is reported, as a fault while building. Otherwise the value of every property is the one that
the first source gives: the classes of the file format, the properties for readers, their defaults,
the properties for Spark, the user's properties, the facts about the table. There is no value if no
source gives one. -/
theorem derive_takes_first_source (s : SyncSettings) (facts : TableFacts) :
    ((∃ fault, derive s facts = .error fault) ↔
      (∃ piece ∈ Text.pieces KeyValues.endsEntry s.tableProperties.toList, 1 < piece.count '=') ∨
        NamesUnknownFormat s ∨
        ∃ piece ∈ Text.pieces KeyValues.endsEntry s.serdeProperties.toList, 1 < piece.count '=') ∧
    (∀ fault, derive s facts = .error fault →
      ∃ cause, Reports s cause ∧ fault = .build cause) ∧
    ∀ derived, derive s facts = .ok derived → ∃ format, IsEffective s facts format ∧ ∀ key,
      (∀ value, derived.get? key = some value ↔ ∃ source, Says s facts format source key value ∧
        ∀ stronger : Source, stronger.rank < source.rank →
          ∀ other, ¬ Says s facts format stronger key other) ∧
      (derived.get? key = none ↔ ∀ source value, ¬ Says s facts format source key value) := by
  refine ⟨?_, fun fault => derive_eq_error_iff.mp, fun derived derives => ?_⟩
  · have fails : (∃ fault, derive s facts = .error fault) ↔ ∃ cause, Reports s cause := by
      simp only [derive_eq_error_iff]
      exact ⟨fun ⟨_, cause, reports, _⟩ => ⟨cause, reports⟩,
        fun ⟨cause, reports⟩ => ⟨_, cause, reports, rfl⟩⟩
    rw [fails, exists_reports_iff, KeyValues.firstRepeated?_isSome_iff,
      KeyValues.firstRepeated?_isSome_iff]
    rfl
  · obtain ⟨format, effective, values⟩ := get?_derive_eq_findSome? derives
    refine ⟨format, effective, fun key => ⟨fun value => ?_, ?_⟩⟩
    · rw [values, Source.findSome?_ranked_eq_some_iff]
      simp only [told_eq_some_iff, told_eq_none_iff]
    · rw [values, List.findSome?_eq_none_iff]
      exact ⟨fun nothing source => told_eq_none_iff.mp (nothing source source.mem_ranked),
        fun nothing source _ => told_eq_none_iff.mpr (nothing source)⟩

/-- For the path the user does not count and the readers do, for the class of the format neither. -/
theorem derive_takes_first_source_of_orders :
    let s := { (Sync.Client.ofOrders true).settings with
      tableProperties := "spark.path=/user, owner=sales"
      serdeProperties := "spark.path=/readers, inputFormat=text" }
    ∃ derived, derive s Sync.Client.ordersFacts = .ok derived ∧
      derived.get? "spark.path" = some "/readers" ∧ derived.get? "owner" = some "sales" ∧
      derived.get? "inputFormat" = some "org.apache.hudi.hadoop.HoodieParquetInputFormat" := by
  intro s
  obtain ⟨fails, -, values⟩ := derive_takes_first_source s Sync.Client.ordersFacts
  have readable : ¬ ∃ fault, derive s Sync.Client.ordersFacts = .error fault := by
    have user : ∀ piece ∈ Text.pieces KeyValues.endsEntry s.tableProperties.toList,
        ¬ 1 < piece.count '=' := by decide +kernel
    have readers : ∀ piece ∈ Text.pieces KeyValues.endsEntry s.serdeProperties.toList,
        ¬ 1 < piece.count '=' := by decide +kernel
    rintro faulty
    obtain ⟨piece, mem, repeated⟩ | ⟨raw, named, -⟩ | ⟨piece, mem, repeated⟩ := fails.mp faulty
    · exact user piece mem repeated
    · cases named
    · exact readers piece mem repeated
  cases derives : derive s Sync.Client.ordersFacts with
  | error fault => exact absurd ⟨fault, derives⟩ readable
  | ok derived =>
    obtain ⟨format, rfl, value⟩ := values derived derives
    have path : KeyValues.value? s.serdeProperties "spark.path" = some "/readers" := by
      decide +kernel
    have owner : KeyValues.value? s.tableProperties "owner" = some "sales" := by decide +kernel
    refine ⟨derived, rfl, ?_, ?_, ?_⟩
    · refine ((value "spark.path").1 "/readers").mpr ⟨.readers, .readers path, ?_⟩
      intro stronger before
      cases stronger with
      | fileFormat => exact told_eq_none_iff.mp (by decide +kernel)
      | _ => exact absurd before (by decide)
    · refine ((value "owner").1 "sales").mpr ⟨.user, .user owner, ?_⟩
      intro stronger before
      cases stronger with
      | user | table => exact absurd before (by decide)
      | _ => exact told_eq_none_iff.mp (by decide +kernel)
    · refine ((value "inputFormat").1 _).mpr ⟨.fileFormat, .inputFormat, ?_⟩
      intro stronger before
      exact absurd before (Nat.not_lt_zero _)

end DerivedProperties

end LakeCatalog
