/-!
# Faults

Why a table cannot be described to the catalog, apart from what the catalog itself answers: a
fault while the facts are turned into proposals, a fault of the table's own metadata, or a fault
of the configuration. Each cause has one wording, and the text of a fault names its kind first.
-/

namespace LakeCatalog

/-- The cause for which a text is refused as a URL. -/
inductive UrlError where
  /-- The text does not begin with a scheme. -/
  | noScheme
  | emptyHost
  | domainName
  | port
  | ipv4
  | ipv6
  | hostCharacter
  deriving DecidableEq

def UrlError.message : UrlError → String
  | .noScheme => "relative URL without a base"
  | .emptyHost => "empty host"
  | .domainName => "invalid international domain name"
  | .port => "invalid port number"
  | .ipv4 => "invalid IPv4 address"
  | .ipv6 => "invalid IPv6 address"
  | .hostCharacter => "invalid domain character"

/-- Why a text is no record schema. -/
inductive SchemaFault where
  /-- The text is not JSON. -/
  | notJson
  | topLevelNotRecord (found : String)
  | noFieldsArray
  | unsupportedDefinition (definition : String)
  | bareNull
  | unknownType (name : String)
  | emptyUnion
  | noTypeAttribute
  | missingAttribute (name : String)
  | recordWithoutFields (record : String)
  | malformedField (record : String)
  | fieldWithoutType (record field : String)
  | arrayWithoutItems
  | mapWithoutValues
  deriving DecidableEq

def SchemaFault.message : SchemaFault → String
  | .notJson => "Invalid Avro schema JSON"
  | .topLevelNotRecord found => "Top-level Avro schema must be a record, found " ++ found
  | .noFieldsArray => "Avro record schema has no 'fields' array"
  | .unsupportedDefinition definition => "Unsupported Avro type definition: " ++ definition
  | .bareNull => "A column cannot have the bare 'null' type"
  | .unknownType name => "Unknown Avro type '" ++ name ++ "'"
  | .emptyUnion => "Union must contain at least one non-null branch"
  | .noTypeAttribute => "Avro type object has no 'type' attribute"
  | .missingAttribute name => "Avro type is missing '" ++ name ++ "'"
  | .recordWithoutFields record => "Record '" ++ record ++ "' has no 'fields' array"
  | .malformedField record => "Malformed field in record '" ++ record ++ "'"
  | .fieldWithoutType record field => "Field '" ++ record ++ "." ++ field ++ "' has no type"
  | .arrayWithoutItems => "Array type has no 'items'"
  | .mapWithoutValues => "Map type has no 'values'"

/-- Why facts cannot be turned into proposals. -/
inductive BuildFault where
  | schema (cause : SchemaFault)
  | invalidUrn (text : String)
  | blankTableName
  | repeatedEquals (entry : String)
  | unsupportedFileFormat (name : String)
  | noStoredSchema
  /-- A cause that a source of facts states itself. -/
  | stated (text : String)
  deriving DecidableEq

def BuildFault.message : BuildFault → String
  | .schema cause => cause.message
  | .invalidUrn text => "Invalid URN: '" ++ text ++ "'"
  | .blankTableName => "Database and table names must not be empty"
  | .repeatedEquals entry => "Invalid key=value entry '" ++ entry ++ "': more than one '='"
  | .unsupportedFileFormat name => "Unsupported base file format '" ++ name ++ "'"
  | .noStoredSchema => "Table config has no hoodie.table.create.schema to sync"
  | .stated text => text

/-- Why the metadata of a table cannot be read. -/
inductive MetadataFault where
  | unreadable (path reason : String)
  | unlistable (path reason : String)
  | unknownTableType (name : String)
  /-- A cause that a source of facts states itself. -/
  | stated (text : String)
  deriving DecidableEq

def MetadataFault.message : MetadataFault → String
  | .unreadable path reason => "Failed to read " ++ path ++ ": " ++ reason
  | .unlistable path reason => "Failed to list " ++ path ++ ": " ++ reason
  | .unknownTableType name => "Unknown table type '" ++ name ++ "'"
  | .stated text => text

/-- Why a configuration cannot be used. -/
inductive ConfigFault where
  | invalidServer (server : String) (cause : UrlError)
  | unsupportedScheme (scheme : String)
  /-- A cause that a source of facts states itself. -/
  | stated (text : String)
  deriving DecidableEq

def ConfigFault.message : ConfigFault → String
  | .invalidServer server cause => "Invalid catalog server '" ++ server ++ "': " ++ cause.message
  | .unsupportedScheme scheme => "Unsupported catalog server scheme: " ++ scheme
  | .stated text => text

inductive Fault where
  | build (cause : BuildFault)
  | metadata (cause : MetadataFault)
  | config (cause : ConfigFault)
  deriving DecidableEq

namespace Fault

def schema (cause : SchemaFault) : Fault := .build (.schema cause)

def cause : Fault → String
  | .build cause => cause.message
  | .metadata cause => cause.message
  | .config cause => cause.message

/-- The text of a fault: its kind and its cause. -/
def message : Fault → String
  | .build cause => "Build error: " ++ cause.message
  | .metadata cause => "Table metadata error: " ++ cause.message
  | .config cause => "Configuration error: " ++ cause.message

end Fault

/-- Steps that can fail succeed together if each of them does. -/
theorem bind_eq_ok_iff {ε α β : Type} {x : Except ε α} {f : α → Except ε β} {b : β} :
    (x >>= f) = .ok b ↔ ∃ a, x = .ok a ∧ f a = .ok b := by
  cases x with
  | error e => simp [bind, Except.bind]
  | ok a => simp [bind, Except.bind]

/-- Steps that can fail fail with the first of them that does. -/
theorem bind_eq_error_iff {ε α β : Type} {x : Except ε α} {f : α → Except ε β} {e : ε} :
    (x >>= f) = .error e ↔ x = .error e ∨ ∃ a, x = .ok a ∧ f a = .error e := by
  cases x with
  | error e' => simp [bind, Except.bind]
  | ok a => simp [bind, Except.bind]

end LakeCatalog
