import LakeCatalog.Duration
import LakeCatalog.TableIdentity
import LakeCatalog.Url.Reader

/-!
# Settings

The settings of one synced table: where it is, under which names the catalog knows it, what is
published beside its schema, and what happens when the catalog refuses a proposal.

All settings of the service, read from named values such as those of an environment. A value that
is blank counts as absent, except where an empty list is meant. Numbers, flags and addresses may
have blanks around them; other values are kept as they are. The first setting in the fixed order of
reading that is missing or malformed is reported; what remains is checked afterwards.
-/

namespace LakeCatalog

/-- What a run reports when proposals fail. -/
inductive FailurePolicy where
  /-- The run succeeds and counts its failures. -/
  | suppressErrors
  /-- The run fails with the first failure. -/
  | propagateFirstError
  deriving DecidableEq, Inhabited

def FailurePolicy.name : FailurePolicy → String
  | .suppressErrors => "suppress_errors"
  | .propagateFirstError => "propagate_first_error"

structure SyncSettings where
  database : String
  table : String
  basePath : String
  /-- The columns that partition the table, if they are not to be read from it. -/
  partitionFields : Option (List String)
  /-- The format of the base files, if it is not to be read from the table. -/
  fileFormat : Option String
  sparkVersion : Option String
  /-- The greatest length of a part of the schema text. -/
  schemaPartLength : Nat
  serdeProperties : String
  tableProperties : String
  /-- The domain to attach, as it is written in the configuration. -/
  domain : Option String
  suppressErrors : Bool
  undoSoftDelete : Bool
  emitTimeoutSeconds : Nat
  environment : String
  platform : String
  /-- The start of the names of the columns that are listed last. -/
  metadataStart : String
  deriving DecidableEq

namespace SyncSettings

def policy (s : SyncSettings) : FailurePolicy :=
  if s.suppressErrors then .suppressErrors else .propagateFirstError

def attachesDomain (s : SyncSettings) : Bool :=
  match s.domain with
  | some raw => !Text.isAllBlank raw
  | none => false

/-- The domain to attach; a text that is no URN attaches none. -/
def domainUrn (s : SyncSettings) : Option Urn :=
  match s.domain with
  | some raw => if s.attachesDomain then Urn.parse? raw else none
  | none => none

def emitTimeout (s : SyncSettings) : Duration := .ofSeconds s.emitTimeoutSeconds

def identity (s : SyncSettings) : Except Fault TableIdentity :=
  TableIdentity.of s.platform s.database s.table s.environment

end SyncSettings

open Text

/-- Four bytes that name a machine. -/
structure HostAddress where
  octets : List Nat
  deriving DecidableEq

def HostAddress.text (h : HostAddress) : String :=
  join "." (h.octets.map decimal)

structure ListenSettings where
  host : HostAddress
  port : Nat
  syncOnStartup : Bool
  deriving DecidableEq

structure CatalogSettings where
  server : String
  token : Option String
  deriving DecidableEq

structure Settings where
  listen : ListenSettings
  catalog : CatalogSettings
  sync : SyncSettings
  deriving DecidableEq

inductive RefusedSetting where
  | server
  | emitTimeout
  | schemaPartLength
  deriving DecidableEq

def RefusedSetting.message : RefusedSetting → String
  | .server => "server: DATAHUB_SERVER must be a valid URL"
  | .emitTimeout => "emit_timeout_secs: emit timeout must be at least one second"
  | .schemaPartLength =>
    "schema_string_length_threshold: schema string length threshold must be positive"

inductive SettingsFault where
  | missing (name : String)
  | malformed (name value : String)
  | refused (settings : List RefusedSetting)
  deriving DecidableEq

def SettingsFault.message : SettingsFault → String
  | .missing name => "Missing required environment variable: " ++ name
  | .malformed name value => "Invalid configuration value: " ++ name ++ "=" ++ value
  | .refused settings =>
    "Configuration failed validation: " ++ join "\n" (settings.map RefusedSetting.message)

namespace Settings

/-- A source of named values. -/
abbrev Lookup := String → Option String

/-- The value at a name, if it is not blank. -/
def value? (lookup : Lookup) (name : String) : Option String :=
  (lookup name).filter fun v => !isAllBlank v

def required (lookup : Lookup) (name : String) : Except SettingsFault String :=
  match value? lookup name with
  | some v => .ok v
  | none => .error (.missing name)

/-- The value at a name, read from its text without the blanks around it. -/
def readOr {α : Type} (lookup : Lookup) (name : String) (read : List Char → Option α)
    (absent : α) : Except SettingsFault α :=
  match value? lookup name with
  | none => .ok absent
  | some v =>
    match read (trim v.toList) with
    | some x => .ok x
    | none => .error (.malformed name v)

def readBelow (bound : Nat) (cs : List Char) : Option Nat :=
  (readUnsigned? cs).filter (· < bound)

def readFlag (cs : List Char) : Option Bool :=
  if cs = "true".toList then some true
  else if cs = "false".toList then some false
  else none

/-- Four bytes in decimal, without leading zeros, with points between them. -/
def readHost (cs : List Char) : Option HostAddress := do
  let octets ← (pieces (· == '.') cs).mapM Url.plainByte?
  if octets.length = 4 then some ⟨octets⟩ else none

/-- The entries of a list between commas; blank entries do not count. -/
def splitList (raw : String) : List String :=
  ((pieces (· == ',') raw.toList).map fun piece => String.ofList (trim piece)).filter (!·.isEmpty)

def readListen (lookup : Lookup) : Except SettingsFault ListenSettings := do
  let host ← readOr lookup "HOST" readHost ⟨[0, 0, 0, 0]⟩
  let port ← readOr lookup "PORT" (readBelow (Nat.pow 2 16)) 3000
  let syncOnStartup ← readOr lookup "SYNC_ON_STARTUP" readFlag false
  return { host, port, syncOnStartup }

def readCatalog (lookup : Lookup) : CatalogSettings where
  server := (value? lookup "DATAHUB_SERVER").getD "http://localhost:8080"
  token := value? lookup "DATAHUB_TOKEN"

def readSync (lookup : Lookup) : Except SettingsFault SyncSettings := do
  let database ← required lookup "SYNC_DATABASE_NAME"
  let table ← required lookup "SYNC_TABLE_NAME"
  let basePath ← required lookup "SYNC_BASE_PATH"
  let schemaPartLength ←
    readOr lookup "SYNC_SCHEMA_STRING_LENGTH_THRESHOLD" (readBelow (Nat.pow 2 64)) 4000
  let suppressErrors ← readOr lookup "DATAHUB_SUPPRESS_EXCEPTIONS" readFlag true
  let undoSoftDelete ← readOr lookup "DATAHUB_UNDO_SOFT_DELETE" readFlag true
  let emitTimeoutSeconds ← readOr lookup "DATAHUB_EMIT_TIMEOUT_SECS" (readBelow (Nat.pow 2 64)) 30
  return {
    database, table, basePath
    partitionFields := (lookup "SYNC_PARTITION_FIELDS").map splitList
    fileFormat := value? lookup "SYNC_BASE_FILE_FORMAT"
    sparkVersion := value? lookup "SYNC_SPARK_VERSION"
    schemaPartLength
    serdeProperties := (lookup "SYNC_SERDE_PROPERTIES").getD ""
    tableProperties := (lookup "DATAHUB_TABLE_PROPERTIES").getD ""
    domain := value? lookup "DATAHUB_DOMAIN_IDENTIFIER"
    suppressErrors, undoSoftDelete, emitTimeoutSeconds
    environment := (value? lookup "DATAHUB_DATASET_ENV").getD "PROD"
    platform := (value? lookup "DATAHUB_PLATFORM_NAME").getD "hudi"
    metadataStart := (value? lookup "SYNC_METADATA_FIELD_PREFIX").getD "_hoodie_" }

/-- The settings about syncing that are out of range. -/
def refusedSync (s : SyncSettings) : List RefusedSetting :=
  (if s.emitTimeoutSeconds = 0 then [.emitTimeout] else []) ++
    if s.schemaPartLength = 0 then [.schemaPartLength] else []

/-- The settings that a check refuses: the address of the catalog, and only if that is sound
anything about syncing. -/
def refused [Url.DomainRule] (s : Settings) : List RefusedSetting :=
  match Url.parse s.catalog.server with
  | .error _ => [.server]
  | .ok _ => refusedSync s.sync

def load [Url.DomainRule] (lookup : Lookup) : Except SettingsFault Settings := do
  let listen ← readListen lookup
  let sync ← readSync lookup
  let settings : Settings := { listen, catalog := readCatalog lookup, sync }
  match settings.refused with
  | [] => return settings
  | refused => throw (.refused refused)

end Settings

end LakeCatalog
