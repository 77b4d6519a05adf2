import LakeCatalog.KeyValues
import LakeCatalog.Settings
import LakeCatalog.Spark.Properties
import LakeCatalog.Table.Basic

/-!
# Derived table properties

The custom properties that are published for a table. They come from several sources, and where two
sources name the same property the later one counts: facts about the table, properties of the user,
properties for Spark, and properties for readers. The last are those of the user, over which the
classes of the file format are written, and defaults where nobody has said anything.
-/

namespace LakeCatalog.DerivedProperties

/-- The columns that partition the table: those of the settings, or else those of the table. -/
def partitionFields (s : SyncSettings) (facts : TableFacts) : List String :=
  s.partitionFields.getD facts.partitionFields

/-- The format of the base files: that of the settings, or else that of the table. -/
def fileFormat (s : SyncSettings) (facts : TableFacts) : Except Fault FileFormat :=
  match s.fileFormat with
  | some raw => FileFormat.parse raw
  | none => .ok facts.fileFormat

def factEntries (s : SyncSettings) (facts : TableFacts) : List (String × String) :=
  [("hudi.table.type", facts.kind.name), ("hudi.table.version", facts.version),
    ("hudi.base.path", s.basePath)] ++
    match partitionFields s facts with
    | [] => []
    | fields => [("hudi.partition.fields", Text.join "," fields)]

def formatEntries (format : FileFormat) : List (String × String) :=
  [("inputFormat", format.inputClass), ("outputFormat", format.outputClass),
    ("serdeClass", format.serdeClass)]

def sparkProperties (s : SyncSettings) (facts : TableFacts) : Dictionary String :=
  Spark.tableProperties facts.schema (partitionFields s facts) s.sparkVersion s.schemaPartLength

def readerProperties (s : SyncSettings) (facts : TableFacts) :
    Except Fault (Dictionary String) := do
  let format ← fileFormat s facts
  let user ← KeyValues.parse s.serdeProperties
  return user.insertMany (formatEntries format)
    |>.insertIfAbsent "spark.hoodie.query.as.ro.table" "false"
    |>.insertIfAbsent "spark.path" s.basePath

/-- The properties of a table. Of several faults the first of user properties, file format and user
properties for readers is reported. -/
def derive (s : SyncSettings) (facts : TableFacts) : Except Fault (Dictionary String) := do
  let user ← KeyValues.parse s.tableProperties
  let readers ← readerProperties s facts
  return Dictionary.ofList (factEntries s facts)
    |>.overriddenBy user
    |>.overriddenBy (sparkProperties s facts)
    |>.overriddenBy readers

end LakeCatalog.DerivedProperties
