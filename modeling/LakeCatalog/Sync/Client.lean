import LakeCatalog.Catalog.Proposal
import LakeCatalog.Sync.Plan
import LakeCatalog.Sync.Run
import LakeCatalog.Table.DerivedProperties

/-!
# The operations of a sync

The operations by which one table is published: its schema, its properties, and a marker that
records the last completed commit. A full sync does all three, in this order, and ends at the first
error; it reads the facts before anything is sent, and the last commit once the properties are out.
What a caller can ask for is also written down as data, with the answer that it gets.
-/

namespace LakeCatalog.Sync

open Catalog Emission

structure Client where
  settings : SyncSettings
  publisher : Publisher

/-- The custom property that records the last completed commit. -/
def lastCommitKey : String := "last_commit_time_sync"

/-- What a sync touches. -/
structure Scope where
  dataset : String
  container : String
  endpoint : String
  deriving DecidableEq

def Scope.json (s : Scope) : Json :=
  .sortedObject [("datasetUrn", .string s.dataset), ("containerUrn", .string s.container),
    ("endpoint", .string s.endpoint)]

structure TableReport where
  schema : Run
  properties : Run
  /-- The run that recorded the last commit; none if there is no completed commit. -/
  lastCommit : Option Run
  lastCommitTime : Option String
  deriving DecidableEq

def TableReport.isSuccess (r : TableReport) : Bool :=
  r.schema.isSuccess && r.properties.isSuccess && r.lastCommit.all Run.isSuccess

namespace Client

def of (settings : SyncSettings) : Except Fault Client := do
  let identity ← settings.identity
  return ⟨settings, .ofSettings settings identity⟩

def identity (c : Client) : TableIdentity := c.publisher.identity

def scope (c : Client) (t : Transport) : Scope :=
  ⟨c.identity.dataset.text, c.identity.container.text, t.endpoint⟩

/-- The result of the run of a batch under the policy of the client. -/
def result (c : Client) (operation : String) (outcomes : List Outcome) : Except SyncError Run :=
  (aggregate operation c.settings.policy outcomes).mapError .failure

/-- The proposal that asserts properties, together with the name of the table. -/
def propertiesBatch (c : Client) (properties : Dictionary String) : List Proposal :=
  [c.publisher.propertiesProposal (some c.identity.table) properties]

def markerBatch (c : Client) (instant : String) : List Proposal :=
  c.propertiesBatch (.ofList [(lastCommitKey, instant)])

section

variable {α : Type} {n : Nat}

/-- Emits the proposals of a schema and goes on with the run. -/
def emitSchema (c : Client) (schema : Schema.TableSchema)
    (next : Except SyncError Run → Plan α n) : Plan α (n + 1) :=
  .emit (c.publisher.schemaProposals schema) fun outcomes =>
    next (c.result "update_table_schema" outcomes)

def emitProperties (c : Client) (properties : Dictionary String)
    (next : Except SyncError Run → Plan α n) : Plan α (n + 1) :=
  .emit (c.propertiesBatch properties) fun outcomes =>
    next (c.result "update_table_properties" outcomes)

def emitMarker (c : Client) (instant : String)
    (next : Except SyncError Run → Plan α n) : Plan α (n + 1) :=
  .emit (c.markerBatch instant) fun outcomes =>
    next (c.result "update_last_commit_time_synced" outcomes)

end

def updateSchema (c : Client) (schema : Schema.TableSchema) : Plan (Except SyncError Run) 1 :=
  c.emitSchema schema .finish

/-- Asserts given properties, and a display name if one is given; tells whether that succeeded. -/
def updateProperties (c : Client) (name : Option String) (properties : Dictionary String) :
    Plan (Except SyncError Bool) 1 :=
  .emit [c.publisher.propertiesProposal name properties] fun outcomes =>
    .finish ((c.result "update_table_properties" outcomes).map Run.isSuccess)

def syncSchema (c : Client) : Plan (Except SyncError Run) 1 :=
  .readFacts fun
    | .error fault => .finish (.error (.fault fault))
    | .ok facts => c.emitSchema facts.schema .finish

def syncProperties (c : Client) : Plan (Except SyncError Run) 1 :=
  .readFacts fun
    | .error fault => .finish (.error (.fault fault))
    | .ok facts =>
      match DerivedProperties.derive c.settings facts with
      | .error fault => .finish (.error (.fault fault))
      | .ok properties => c.emitProperties properties .finish

/-- Records the last completed commit; nothing is sent if there is none. -/
def syncLastCommit (c : Client) : Plan (Except SyncError (Option Run)) 1 :=
  .readLastCommit fun
    | .error fault => .finish (.error (.fault fault))
    | .ok none => .finish (.ok none)
    | .ok (some instant) => c.emitMarker instant fun run => .finish (run.map some)

/-- Publishes the schema, then the properties, then the marker of the last commit. -/
def syncTable (c : Client) : Plan (Except SyncError TableReport) 3 :=
  .readFacts fun
    | .error fault => .finish (.error (.fault fault))
    | .ok facts =>
      match DerivedProperties.derive c.settings facts with
      | .error fault => .finish (.error (.fault fault))
      | .ok derived =>
        c.emitSchema facts.schema fun
          | .error error => .finish (.error error)
          | .ok schema =>
            c.emitProperties derived fun
              | .error error => .finish (.error error)
              | .ok properties =>
                .readLastCommit fun
                  | .error fault => .finish (.error (.fault fault))
                  | .ok none => .finish (.ok ⟨schema, properties, none, none⟩)
                  | .ok (some instant) =>
                    c.emitMarker instant fun
                      | .error error => .finish (.error error)
                      | .ok marker =>
                        .finish (.ok ⟨schema, properties, some marker, some instant⟩)

end Client

/-- What a caller can ask a client for. -/
inductive Operation where
  | updateSchema (schema : Schema.TableSchema)
  | updateProperties (name : Option String) (properties : Dictionary String)
  | syncSchema
  | syncProperties
  | syncLastCommit
  | syncTable

inductive Answer where
  | run (run : Run)
  | updated (updated : Bool)
  | lastCommit (run : Option Run)
  | report (report : TableReport)
  deriving DecidableEq

namespace Operation

def size : Operation → Nat
  | .syncTable => 3
  | _ => 1

def plan (c : Client) : (o : Operation) → Plan (Except SyncError Answer) o.size
  | .updateSchema schema => (c.updateSchema schema).map (.map .run)
  | .updateProperties name properties => (c.updateProperties name properties).map (.map .updated)
  | .syncSchema => c.syncSchema.map (.map .run)
  | .syncProperties => c.syncProperties.map (.map .run)
  | .syncLastCommit => c.syncLastCommit.map (.map .lastCommit)
  | .syncTable => c.syncTable.map (.map .report)

end Operation

end LakeCatalog.Sync
