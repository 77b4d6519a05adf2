import LakeCatalog.Emission.Transport
import LakeCatalog.Settings

/-!
# Runs

A run is the emission of one batch for one operation, seen as a whole: how many proposals
succeeded, and which did not, in the order in which that became known. Under the policy that
propagates errors a run with failures is an error, which carries the first of them.
-/

namespace LakeCatalog.Sync

open Emission

structure Run where
  operation : String
  policy : FailurePolicy
  succeeded : Nat
  /-- The outcomes that are no success, in the order in which they became known. -/
  failures : List Outcome
  deriving DecidableEq

namespace Run

def total (r : Run) : Nat := r.succeeded + r.failures.length

def isSuccess (r : Run) : Bool := r.failures.isEmpty

end Run

structure RunFailure where
  operation : String
  failures : Nat
  total : Nat
  first : OutcomeError
  deriving DecidableEq

def RunFailure.message (f : RunFailure) : String :=
  "Failed to sync " ++ Text.decimal f.failures ++ " operations (" ++ Text.decimal f.total ++
    " attempted) during " ++ f.operation

/-- Why a sync ends without a result. -/
inductive SyncError where
  | fault (fault : Fault)
  | failure (failure : RunFailure)
  deriving DecidableEq

def SyncError.message : SyncError → String
  | .fault f => f.message
  | .failure f => f.message

/-- The result of a run, whatever the policy says about failures. -/
def Run.ofOutcomes (operation : String) (policy : FailurePolicy) (outcomes : List Outcome) :
    Run where
  operation
  policy
  succeeded := (outcomes.filter Outcome.isSuccess).length
  failures := outcomes.filter fun o => !o.isSuccess

/-- The result of a run under a policy. -/
def aggregate (operation : String) (policy : FailurePolicy) (outcomes : List Outcome) :
    Except RunFailure Run :=
  let run := Run.ofOutcomes operation policy outcomes
  match policy, run.failures.findSome? Outcome.error? with
  | .propagateFirstError, some first =>
    .error ⟨operation, run.failures.length, outcomes.length, first⟩
  | _, _ => .ok run

/-- A failure as it is reported to a client. -/
structure FailureSummary where
  entity : String
  aspect : String
  status : String
  error : String
  deriving DecidableEq

def FailureSummary.of (o : Outcome) : FailureSummary where
  entity := o.proposal.entity.text
  aspect := o.proposal.aspect.name
  status := o.status.name
  error := match o.error? with
    | some error => Text.join ": " error.chain
    | none => ""

structure RunSummary where
  operation : String
  policy : FailurePolicy
  total : Nat
  succeeded : Nat
  failed : Nat
  failures : List FailureSummary
  deriving DecidableEq

def Run.summary (r : Run) : RunSummary where
  operation := r.operation
  policy := r.policy
  total := r.total
  succeeded := r.succeeded
  failed := r.failures.length
  failures := r.failures.map FailureSummary.of

def FailureSummary.json (f : FailureSummary) : Json :=
  .sortedObject [("entityUrn", .string f.entity), ("aspect", .string f.aspect),
    ("status", .string f.status), ("error", .string f.error)]

def RunSummary.json (r : RunSummary) : Json :=
  .sortedObject [("operation", .string r.operation), ("policy", .string r.policy.name),
    ("total", .ofNat r.total), ("succeeded", .ofNat r.succeeded), ("failed", .ofNat r.failed),
    ("failures", .array (r.failures.map FailureSummary.json))]

end LakeCatalog.Sync
