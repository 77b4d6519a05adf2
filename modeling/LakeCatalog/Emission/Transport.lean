import LakeCatalog.Catalog.Proposal
import LakeCatalog.Duration

/-!
# The transport to the catalog

What became of a proposal that was to be sent: it was accepted, no answer came in time, or sending
failed for a cause. An outcome that is no success is an error with a chain of texts, the outermost
first.

A transport opens channels, and a channel takes proposals. How the catalog and the network behave
is laid down beforehand: for every attempt to open a channel whether it fails, and for every
submission, counted over all channels, what becomes of it. Time passes only while something is
waited for.

Every proposal that a channel takes is sent by a task of its own, and a task that dies is caught and
reported by the runtime. A program that is built to end with the first task that dies never gets so
far. The runtime words its report by itself: it names the task by a number that is counted over the
whole process, so the words depend on whatever else was started before.
-/

namespace LakeCatalog.Emission

open Catalog

/-- Why a proposal could not be delivered. -/
inductive TransportError where
  | channelUnavailable (reason : String)
  | submission (reason : String)
  | rejected (status : Nat) (body : String)
  | io (reason : String)
  | aborted (reason : String)
  deriving DecidableEq

def TransportError.message : TransportError → String
  | .channelUnavailable reason => "Catalog channel unavailable: " ++ reason
  | .submission reason => "Submission failed: " ++ reason
  | .rejected status body =>
    "Catalog rejected proposal with status " ++ Text.decimal status ++ ": " ++ body
  | .io reason => "I/O error: " ++ reason
  | .aborted reason => "Emission task aborted: " ++ reason

inductive Status where
  | succeeded
  | timedOut
  | failed (cause : TransportError)
  deriving DecidableEq

def Status.name : Status → String
  | .succeeded => "succeeded"
  | .timedOut => "timed_out"
  | .failed _ => "failed"

/-- A proposal, what became of it, and the time from its submission until that was known. -/
structure Outcome where
  proposal : Proposal
  status : Status
  elapsed : Duration
  deriving DecidableEq

/-- A proposal that did not succeed. -/
inductive OutcomeError where
  | timedOut (proposal : Proposal) (elapsed : Duration)
  | failed (proposal : Proposal) (cause : TransportError)
  deriving DecidableEq

namespace OutcomeError

/-- The wording of an error, without its cause. -/
def message : OutcomeError → String
  | .timedOut proposal elapsed =>
    "Operation timed out: " ++ proposal.display ++ " after " ++ elapsed.text
  | .failed proposal _ => "Failed to emit " ++ proposal.display

/-- The wordings of an error and of its causes, the outermost first. -/
def chain : OutcomeError → List String
  | .timedOut proposal elapsed => [message (.timedOut proposal elapsed)]
  | .failed proposal cause => [message (.failed proposal cause), cause.message]

end OutcomeError

namespace Outcome

def isSuccess (o : Outcome) : Bool := o.status == .succeeded

def error? (o : Outcome) : Option OutcomeError :=
  match o.status with
  | .succeeded => none
  | .timedOut => some (.timedOut o.proposal o.elapsed)
  | .failed cause => some (.failed o.proposal cause)

/-- An outcome has an error exactly if it is no success. -/
theorem error?_isSome (o : Outcome) : o.error?.isSome = !o.isSuccess := by
  unfold error? isSuccess
  cases o.status <;> rfl

end Outcome

inductive Behaviour where
  /-- The answer comes after a delay: a success, or an error. -/
  | resolves (delay : Duration) (error : Option TransportError)
  /-- No answer ever comes. -/
  | hangs
  /-- The channel does not take the proposal. -/
  | refuses (error : TransportError)
  /-- The task that sends the proposal dies at once. -/
  | panics (message : String)
  deriving DecidableEq

/-- A transport: what becomes of the n-th opening and of the n-th submission, and of every close. -/
structure Transport where
  endpoint : String
  opening : Nat → Option TransportError
  submission : Nat → Behaviour
  closing : Option TransportError
  /-- What the runtime says of the task of the n-th submission if it dies with a message. -/
  obituary : Nat → String → String

def answerStatus : Option TransportError → Status
  | none => .succeeded
  | some error => .failed error

namespace Behaviour

/-- How long it takes until the outcome of a submission is known, with a bound on the waiting. -/
def due (timeout : Duration) : Behaviour → Duration
  | .resolves delay _ => if delay ≤ timeout then delay else timeout
  | .hangs => timeout
  | .refuses _ => .zero
  | .panics _ => .zero

/-- What becomes of the submission, with a bound on the waiting and with what the runtime says of a
task that dies. -/
def status (obituary : String → String) (timeout : Duration) : Behaviour → Status
  | .resolves delay error => if delay ≤ timeout then answerStatus error else .timedOut
  | .hangs => .timedOut
  | .refuses error => .failed error
  | .panics message => .failed (.aborted (obituary message))

/-- When the task that sends the proposal ends if nobody stops it; none if it never does. -/
def taskEnd : Behaviour → Option Duration
  | .resolves delay _ => some delay
  | .hangs => none
  | .refuses _ => some .zero
  | .panics _ => some .zero

end Behaviour

/-- What becomes of the n-th submission, with a bound on the waiting. -/
def Transport.status (t : Transport) (timeout : Duration) (n : Nat) : Status :=
  (t.submission n).status (t.obituary n) timeout

end LakeCatalog.Emission
