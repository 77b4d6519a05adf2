import LakeCatalog.Emission.Transport

/-!
# Emissions under way

An emission over an open channel hands over its proposals one after the other, then hears from the
waiters as they report, then records a failure for every position that nobody reported, and at last
closes the channel. It keeps a mark for every position whose outcome is recorded, and it holds the
channel until it is closed, so that the channel is closed once, whether the emission comes to its
end or is dropped while it waits.
-/

namespace LakeCatalog.Emission

open Catalog

/-- The outcome of the proposal at a position of the batch. -/
structure Settled where
  position : Nat
  outcome : Outcome
  deriving DecidableEq

/-- What a waiting emission hears at an instant: an outcome, or none if the waiter died. -/
structure Report where
  time : Duration
  settled : Option Settled
  deriving DecidableEq

/-- A proposal that the channel has taken and whose answer is waited for. -/
structure Waiter where
  position : Nat
  /-- The number of the submission, counted over all channels. -/
  number : Nat
  proposal : Proposal
  behaviour : Behaviour
  /-- The instant of the submission. -/
  submitted : Duration
  deriving DecidableEq

namespace Waiter

/-- The instant at which the outcome is known. -/
def due (timeout : Duration) (w : Waiter) : Duration := w.submitted + w.behaviour.due timeout

/-- The outcome, with the time since the submission. -/
def outcome (t : Transport) (timeout : Duration) (w : Waiter) : Outcome :=
  ⟨w.proposal, w.behaviour.status (t.obituary w.number) timeout, w.due timeout - w.submitted⟩

def settled (t : Transport) (timeout : Duration) (w : Waiter) : Settled :=
  ⟨w.position, w.outcome t timeout⟩

@[simp] theorem position_settled (t : Transport) (timeout : Duration) (w : Waiter) :
    (w.settled t timeout).position = w.position := rfl

def report (t : Transport) (timeout : Duration) (w : Waiter) : Report :=
  ⟨w.due timeout, some (w.settled t timeout)⟩

end Waiter

inductive Event where
  | opened
  | openFailed
  | submitted (position : Nat) (proposal : Proposal)
  | refused (position : Nat) (proposal : Proposal)
  | settled (position : Nat)
  /-- The channel is closed, which may give an error. -/
  | closed (error : Option TransportError)
  deriving DecidableEq

/-- An event and its instant, counted from the start of the emission. -/
structure TimedEvent where
  time : Duration
  event : Event
  deriving DecidableEq

/-- An emission over a channel that was opened. -/
structure Flight where
  transport : Transport
  timeout : Duration
  /-- The channel is yet to be closed. -/
  held : Bool
  /-- The submissions so far, counted over all channels. -/
  submissions : Nat
  /-- The time since the start of the emission. -/
  now : Duration
  /-- For every position of the batch, whether its outcome is recorded. -/
  resolved : List Bool
  /-- The outcomes in the order in which they were recorded. -/
  settled : List Settled
  /-- The proposals that the channel has taken, in the order of their submission. -/
  taken : List Waiter
  events : List TimedEvent

namespace Flight

/-- The emission of a batch of a given size when its channel has just been opened. -/
def opened (t : Transport) (timeout : Duration) (submissions size : Nat) : Flight where
  transport := t
  timeout
  held := true
  submissions
  now := .zero
  resolved := .replicate size false
  settled := []
  taken := []
  events := [⟨.zero, .opened⟩]

def write (f : Flight) (event : Event) : Flight :=
  { f with events := f.events ++ [⟨f.now, event⟩] }

/-- Records an outcome and marks its position. -/
def record (f : Flight) (s : Settled) : Flight :=
  { f with resolved := f.resolved.set s.position true, settled := f.settled ++ [s] }

/-- The outcome at a position is marked as recorded. -/
def isMarked (f : Flight) (position : Nat) : Bool := f.resolved.getD position false

/-- Hands over the proposal at a position. One that the channel refuses has its outcome at once, and
so has every proposal once the channel is closed. -/
def submit (f : Flight) (position : Nat) (p : Proposal) : Flight :=
  if f.held then
    match f.transport.submission f.submissions with
    | .refuses error =>
      { (f.write (.refused position p)).record ⟨position, p, .failed error, .zero⟩ with
        submissions := f.submissions + 1 }
    | behaviour =>
      { f.write (.submitted position p) with
        submissions := f.submissions + 1
        taken := f.taken ++ [⟨position, f.submissions, p, behaviour, f.now⟩] }
  else
    let error := TransportError.channelUnavailable "channel already closed"
    (f.write (.settled position)).record ⟨position, p, .failed error, .zero⟩

/-- Hands over a batch, whose first proposal has the given position. -/
def submitFrom (position : Nat) : List Proposal → Flight → Flight
  | [], f => f
  | p :: ps, f => submitFrom (position + 1) ps (f.submit position p)

/-- The emission of a batch when all proposals are handed over and it begins to wait. -/
def begun (t : Transport) (timeout : Duration) (submissions : Nat) (batch : List Proposal) :
    Flight :=
  submitFrom 0 batch (opened t timeout submissions batch.length)

def hear (f : Flight) (r : Report) : Flight :=
  let f := { f with now := max f.now r.time }
  match r.settled with
  | some s => (f.write (.settled s.position)).record s
  | none => f

/-- The error of a proposal whose waiter died. -/
def unreported : TransportError := .aborted "emission waiter did not report"

/-- Records the failure of a proposal whose waiter died. -/
def lose (f : Flight) (position : Nat) (p : Proposal) : Flight :=
  let f := f.write (.settled position)
  { f with settled := f.settled ++ [⟨position, p, .failed unreported, .zero⟩] }

/-- Records a failure for every position without a mark, from a position of the batch on. -/
def sweepFrom (position : Nat) : List Proposal → Flight → Flight
  | [], f => f
  | p :: ps, f =>
    sweepFrom (position + 1) ps (if f.isMarked position then f else f.lose position p)

/-- Closes the channel if that has not been done. -/
def release (f : Flight) : Flight :=
  if f.held then { f.write (.closed f.transport.closing) with held := false } else f

/-- Gives the emission up; a channel that is still held is closed. -/
def drop (f : Flight) : Flight := if f.held then f.release else f

/-- Closes the channel and gives it up. -/
def close (f : Flight) : Flight := f.release.drop

/-- What is done once all waiters have reported or died. -/
def finish (f : Flight) (batch : List Proposal) : Flight := (sweepFrom 0 batch f).close

/-- The emission is dropped at an instant. -/
def dropAt (f : Flight) (time : Duration) : Flight := { f with now := time }.drop

end Flight

end LakeCatalog.Emission
