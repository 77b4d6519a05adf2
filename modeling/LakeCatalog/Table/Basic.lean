import LakeCatalog.Fault
import LakeCatalog.Schema
import LakeCatalog.Text.Blank
import LakeCatalog.Text.Uppercase

/-!
# Tables

What is known about a table: the facts that its proposals are made from, and the time of its last
completed commit. Either can be out of reach. Kinds of tables and formats of base files are written
as words in any case, with blanks around them, and a word that is not known is reported in upper
case.
-/

namespace LakeCatalog

/-- How a table keeps updates. -/
inductive TableKind where
  | copyOnWrite
  | mergeOnRead
  deriving DecidableEq, Inhabited

namespace TableKind

def name : TableKind → String
  | .copyOnWrite => "COPY_ON_WRITE"
  | .mergeOnRead => "MERGE_ON_READ"

def parse (raw : String) : Except Fault TableKind :=
  let word := Text.uppercase (Text.trimmed raw)
  if word = copyOnWrite.name then .ok .copyOnWrite
  else if word = mergeOnRead.name then .ok .mergeOnRead
  else .error (.metadata (.unknownTableType word))

end TableKind

inductive FileFormat where
  | parquet
  | orc
  | hfile
  deriving DecidableEq, Inhabited

namespace FileFormat

def name : FileFormat → String
  | .parquet => "PARQUET"
  | .orc => "ORC"
  | .hfile => "HFILE"

/-- The class that reads files of a format. -/
def inputClass : FileFormat → String
  | .parquet => "org.apache.hudi.hadoop.HoodieParquetInputFormat"
  | .orc => "org.apache.hadoop.hive.ql.io.orc.OrcInputFormat"
  | .hfile => "org.apache.hudi.hadoop.HoodieHFileInputFormat"

def outputClass : FileFormat → String
  | .parquet => "org.apache.hadoop.hive.ql.io.parquet.MapredParquetOutputFormat"
  | .orc => "org.apache.hadoop.hive.ql.io.orc.OrcOutputFormat"
  | .hfile => "org.apache.hadoop.hive.ql.io.HiveIgnoreKeyTextOutputFormat"

/-- The class that turns records of a format into rows. -/
def serdeClass : FileFormat → String
  | .parquet => "org.apache.hadoop.hive.ql.io.parquet.serde.ParquetHiveSerDe"
  | .orc => "org.apache.hadoop.hive.ql.io.orc.OrcSerde"
  | .hfile => "org.apache.hadoop.hive.serde2.lazy.LazySimpleSerDe"

def parse (raw : String) : Except Fault FileFormat :=
  let word := Text.uppercase (Text.trimmed raw)
  if word = parquet.name then .ok .parquet
  else if word = orc.name then .ok .orc
  else if word = hfile.name then .ok .hfile
  else .error (.build (.unsupportedFileFormat word))

end FileFormat

structure TableFacts where
  kind : TableKind
  version : String
  basePath : String
  partitionFields : List String
  fileFormat : FileFormat
  schema : Schema.TableSchema

/-- What reading a table gives at one moment. -/
structure Table where
  facts : Except Fault TableFacts
  /-- The instant of the last completed commit; none if there is no completed commit. -/
  lastCommit : Except Fault (Option String)

end LakeCatalog
