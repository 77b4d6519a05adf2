import LakeCatalog.Service.Body
import LakeCatalog.Service.Request
import LakeCatalog.Sync.Client

/-!
# Replies of the service

A reply has a status and a body of JSON or of plain text. What a sync could not do is told by the
status, a code, a message and, where there is more to say, the text of the cause. What is said of a
body that is refused is kept up to its first colon, behind which the parser has its own words.
-/

namespace LakeCatalog.Service

open Sync

inductive ReplyBody where
  | json (value : Json)
  | text (text : String)

structure Reply where
  status : Nat
  body : ReplyBody
  /-- The methods that the path answers to, where the method was none of them. -/
  allow : Option (List String)

def Reply.plain (status : Nat) (text : String) : Reply := ⟨status, .text text, none⟩

inductive ServiceError where
  | sync (error : SyncError)
  | invalid (problems : List String)
  | notImplemented (what : String)

namespace ServiceError

def display : ServiceError → String
  | .sync e => e.message
  | .invalid problems => "Validation error: " ++ Text.join "\n" problems
  | .notImplemented what => "Not implemented: " ++ what

def status : ServiceError → Nat
  | .sync (.fault (.build _)) => 422
  | .sync (.fault (.metadata _)) => 500
  | .sync (.fault (.config _)) => 500
  | .sync (.failure _) => 502
  | .invalid _ => 400
  | .notImplemented _ => 501

/-- The code by which a client tells errors apart. -/
def code : ServiceError → String
  | .sync (.fault (.build _)) => "BUILD_ERROR"
  | .sync (.fault (.metadata _)) => "TABLE_METADATA_ERROR"
  | .sync (.fault (.config _)) => "CONFIG_ERROR"
  | .sync (.failure _) => "SYNC_FAILED"
  | .invalid _ => "VALIDATION_ERROR"
  | .notImplemented _ => "NOT_IMPLEMENTED"

def summary : ServiceError → String
  | .sync (.fault (.build _)) => "Table facts could not be converted into catalog proposals"
  | .sync (.fault (.metadata _)) => "Failed to read table metadata"
  | .sync (.fault (.config _)) => "A configuration error occurred"
  | .sync (.failure f) => f.message
  | .invalid problems => Text.join "\n" problems
  | .notImplemented what => what

/-- The text of the cause, where there is one. -/
def detail : ServiceError → Option String
  | .sync (.fault f) => some f.cause
  | .sync (.failure f) => some f.first.message
  | .invalid _ => none
  | .notImplemented _ => none

def reply (e : ServiceError) : Reply where
  status := e.status
  body := .json <| .sortedObject <|
    [("success", .bool false), ("message", .string e.summary), ("code", .string e.code)] ++
      e.detail.toList.map fun text => ("error", .string text)
  allow := none

end ServiceError

namespace Reply

def success (message : String) (data : List (String × Json)) : Reply where
  status := 200
  body := .json (.sortedObject ([("success", .bool true), ("message", .string message)] ++ data))
  allow := none

def version : String := "0.1.0"

def health : Reply := success "Server is running fine." [("version", .string version)]

def scopeMembers (s : Scope) : List (String × Json) :=
  [("datasetUrn", .string s.dataset), ("containerUrn", .string s.container),
    ("endpoint", .string s.endpoint)]

def scope (s : Scope) : Reply := success "Sync scope" (scopeMembers s)

def runMembers (s : Scope) (r : Run) : List (String × Json) :=
  [("scope", s.json), ("run", r.summary.json)]

def orNull (j : Option Json) : Json := j.getD .null

def tableSynced (s : Scope) (r : TableReport) : Reply :=
  success (if r.isSuccess then "Table synced" else "Table synced with failures")
    [("scope", s.json), ("schema", r.schema.summary.json),
      ("properties", r.properties.summary.json),
      ("lastCommit", orNull (r.lastCommit.map fun run => run.summary.json)),
      ("lastCommitTime", orNull (r.lastCommitTime.map Json.string))]

def schemaSynced (s : Scope) (r : Run) : Reply :=
  success ("Schema sync finished: " ++ Text.decimal r.succeeded ++ " of " ++
    Text.decimal r.total ++ " succeeded") (runMembers s r)

def propertiesUpdated (s : Scope) (updated : Bool) : Reply :=
  success (if updated then "Properties updated" else "Properties update failed")
    [("datasetUrn", .string s.dataset), ("updated", .bool updated)]

def lastCommitSynced (s : Scope) : Option Run → Reply
  | some r => success "Last commit marker synced" (runMembers s r)
  | none => success "No completed commit to record" []

def ofBodyFault : BodyFault → Reply
  | .malformed => plain 400 "Failed to parse the request body as JSON"
  | .mismatched => plain 422 "Failed to deserialize the JSON body into the target type"

/-- The reply to a body whose content type is not JSON. -/
def wrongContentType : Reply := plain 415 "Expected request with `Content-Type"

/-- The reply to a body of too many bytes. -/
def tooLarge : Reply := plain 413 "Failed to buffer the request body"

def notFound : Reply := plain 404 ""

def methodNotAllowed (route : Route) : Reply := ⟨405, .text "", some route.methods⟩

def headOnly (r : Reply) : Reply := { r with body := .text "" }

def ofResult {α : Type} (render : α → Reply) : Except SyncError α → Reply
  | .ok x => render x
  | .error e => (ServiceError.sync e).reply

end Reply

end LakeCatalog.Service
