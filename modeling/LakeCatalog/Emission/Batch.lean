import LakeCatalog.Emission.Flight

/-!
# Emitting a batch

A batch of proposals is sent over one channel. All proposals are handed over before any answer is
waited for; a proposal that the channel refuses has its outcome at once, and every other is waited
for with a bound of its own. Outcomes are listed as they become known, and of those known at the
same instant the earlier submission comes first. The channel is closed after the last of them. If
the channel cannot be opened, every proposal fails for that cause.

That the earlier submission comes first is not the program's doing but is assumed of the runtime: it
wakes the tasks of one instant in the order in which they began to wait, and hands over outcomes in
the order in which their tasks ended.

The batch can be dropped while answers are still waited for. Then the channel is closed at that
instant, nobody waits any longer, and the tasks that send the proposals go on by themselves. What
becomes known at that very instant comes too late; a batch without anything to wait for is over at
once and cannot be dropped.

Every emission writes what happens on its channel into one log. Channels are numbered by the
attempts to open them, and the counts of openings, closes and submissions are read off the log.
-/

namespace LakeCatalog.Emission

open Catalog

/-- The waiter whose outcome is known first, and the others. -/
def takeFirst (timeout : Duration) : List Waiter → Option (Waiter × List Waiter)
  | [] => none
  | w :: ws =>
    match takeFirst timeout ws with
    | none => some (w, [])
    | some (first, others) =>
      if first.due timeout < w.due timeout then some (first, w :: others) else some (w, ws)

/-- The waiters in the order in which their outcomes are known, at most `fuel` of them. -/
def inOrder (timeout : Duration) : Nat → List Waiter → List Waiter
  | 0, _ => []
  | fuel + 1, ws =>
    match takeFirst timeout ws with
    | none => []
    | some (first, others) => first :: inOrder timeout fuel others

/-- The waiters of an emission in the order in which they report. -/
def Flight.arrivals (f : Flight) : List Waiter := inOrder f.timeout f.taken.length f.taken

def Flight.await (f : Flight) (ws : List Waiter) : Flight :=
  (ws.map (·.report f.transport f.timeout)).foldl Flight.hear f

structure Batch where
  /-- The outcomes in the order in which they became known. -/
  settled : List Settled
  /-- How long the emission takes. -/
  duration : Duration
  /-- What happens on the channel, in order. -/
  events : List TimedEvent
  /-- The emission came to its end, and was not dropped before. -/
  completed : Bool
  /-- The emission as it begins to wait; none if the channel could not be opened. -/
  waiting : Option Flight

/-- The error of every proposal of a batch whose channel cannot be opened. -/
def unavailable : TransportError → TransportError
  | .channelUnavailable reason => .channelUnavailable reason
  | error => .channelUnavailable error.message

/-- Emits a batch; so many openings and submissions came before. -/
def emit (t : Transport) (opens submissions : Nat) (timeout : Duration) (batch : List Proposal) :
    Batch :=
  match t.opening opens with
  | some error =>
    { settled := batch.zipIdx.map fun (p, i) => ⟨i, p, .failed (unavailable error), .zero⟩
      duration := .zero
      events := [⟨.zero, .openFailed⟩]
      completed := true
      waiting := none }
  | none =>
    let f := Flight.begun t timeout submissions batch
    let ended := (f.await f.arrivals).finish batch
    { settled := ended.settled
      duration := ended.now
      events := ended.events
      completed := true
      waiting := some f }

namespace Batch

def outcomes (b : Batch) : List Outcome := b.settled.map Settled.outcome

/-- The submissions that were waited for. -/
def waiters (b : Batch) : List Waiter := (b.waiting.map Flight.taken).getD []

/-- What is left of an emission that is dropped after a time; none if it is over before. -/
def droppedAfter (b : Batch) (time : Duration) : Option Batch :=
  match b.waiting with
  | none => none
  | some f =>
    let heard := f.arrivals.takeWhile fun w => w.due f.timeout < time
    if heard.length = f.arrivals.length then none
    else
      let left := (f.await heard).dropAt time
      some { b with settled := [], duration := left.now, events := left.events, completed := false }

/-- The emission for somebody who drops it after a time, or never. -/
def within (b : Batch) (patience : Option Duration) : Batch :=
  (patience.bind b.droppedAfter).getD b

/-- The positions whose sending tasks still run at an instant, when the emission is dropped after a
time or never. A task that is waited for is stopped at its timeout; one that nobody waits for any
longer ends by itself. -/
def tasksRunning (b : Batch) (timeout : Duration) (dropped : Option Duration) (time : Duration) :
    List Nat :=
  let waitedFor (w : Waiter) : Bool :=
    match dropped with
    | none => true
    | some d => w.due timeout < d
  let ended (w : Waiter) : Bool :=
    (match w.behaviour.taskEnd with
      | some e => decide (w.submitted + e ≤ time)
      | none => false) || (waitedFor w && w.due timeout ≤ time)
  (b.waiters.filter fun w => !ended w).map Waiter.position

end Batch

structure LogEntry where
  time : Duration
  channel : Nat
  event : Event
  deriving DecidableEq

abbrev Log := List LogEntry

/-- For every attempt to open a channel, after which time the emission over it is dropped if it
still waits then. -/
abbrev Patience := Nat → Option Duration

/-- Nobody drops an emission. -/
def Patience.endless : Patience := fun _ => none

namespace Event

def isOpening : Event → Bool
  | .opened => true
  | .openFailed => true
  | _ => false

def isFailure : Event → Bool
  | .openFailed => true
  | _ => false

def isClose : Event → Bool
  | .closed _ => true
  | _ => false

/-- The proposal that was handed over, whether the channel took it or not. -/
def proposal? : Event → Option Proposal
  | .submitted _ proposal => some proposal
  | .refused _ proposal => some proposal
  | _ => none

end Event

namespace Log

def opens (log : Log) : Nat := log.countP (·.event.isOpening)

def failures (log : Log) : Nat := log.countP (·.event.isFailure)

def closes (log : Log) : Nat := log.countP (·.event.isClose)

/-- The proposals that were handed over, in order. -/
def submitted (log : Log) : List Proposal := log.filterMap (·.event.proposal?)

def submissions (log : Log) : Nat := log.submitted.length

/-- The entries that an emission writes that starts at an instant. -/
def entriesOf (start : Duration) (channel : Nat) (b : Batch) : Log :=
  b.events.map fun e => ⟨start + e.time, channel, e.event⟩

/-- What has happened up to an instant. -/
def upTo (log : Log) (time : Duration) : Log := log.filter (·.time ≤ time)

/-- What has happened on a channel. -/
def channel (log : Log) (number : Nat) : Log := log.filter (·.channel = number)

def next (log : Log) (t : Transport) (timeout : Duration) (batch : List Proposal) : Batch :=
  emit t log.opens log.submissions timeout batch

/-- The emission of a batch on the next channel, as far as it comes. -/
def attempt (log : Log) (t : Transport) (timeout : Duration) (patience : Patience)
    (batch : List Proposal) : Batch :=
  (log.next t timeout batch).within (patience log.opens)

end Log

end LakeCatalog.Emission
