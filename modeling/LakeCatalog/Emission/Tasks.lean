import LakeCatalog.Emission.Batch

/-!
# The tasks of an emission

Every proposal that a channel takes is sent by a task of its own, and a second task waits for the
first one, with a bound. The tasks that wait belong to the emission and go when it is dropped. The
tasks that send belong to nobody: one that is waited for too long is stopped by the task that waits,
and every other goes on until it ends by itself.
-/

namespace LakeCatalog.Emission

/-- What happens to the tasks of an emission. Tasks are told apart by the positions of their
proposals. -/
inductive TaskEvent where
  /-- The channel takes a proposal: one task begins to send it, another to wait for that. -/
  | taken (position : Nat)
  /-- The task that sends a proposal ends by itself. -/
  | ended (position : Nat)
  /-- The task that waits has heard from the one that sends. -/
  | reported (position : Nat)
  /-- The task that waits has waited too long, and stops the one that sends. -/
  | expired (position : Nat)
  /-- Nothing is waited for any longer, and the channel is closed. -/
  | closed
  /-- The emission is dropped, and with it the tasks that wait; the channel is closed. -/
  | abandoned
  deriving DecidableEq

structure Tasks where
  sending : List Nat
  waiting : List Nat
  /-- The channel is yet to be closed. -/
  held : Bool
  deriving DecidableEq

namespace Tasks

def start : Tasks := ⟨[], [], true⟩

/-- The tasks after an event, none if it cannot happen. -/
def step (s : Tasks) : TaskEvent → Option Tasks
  | .taken i =>
    if s.held then some { s with sending := s.sending ++ [i], waiting := s.waiting ++ [i] }
    else none
  | .ended i =>
    if i ∈ s.sending then some { s with sending := s.sending.filter (· ≠ i) } else none
  | .reported i =>
    if i ∈ s.waiting ∧ i ∉ s.sending then some { s with waiting := s.waiting.filter (· ≠ i) }
    else none
  | .expired i =>
    if i ∈ s.waiting then
      some { s with sending := s.sending.filter (· ≠ i), waiting := s.waiting.filter (· ≠ i) }
    else none
  | .closed => if s.held ∧ s.waiting = [] then some { s with held := false } else none
  | .abandoned => if s.held then some { s with waiting := [], held := false } else none

def run (s : Tasks) (events : List TaskEvent) : Option Tasks := events.foldlM step s

end Tasks

namespace Waiter

/-- The task that sends the proposal has ended by itself at an instant. -/
def hasEnded (w : Waiter) (time : Duration) : Bool :=
  match w.behaviour.taskEnd with
  | some e => w.submitted + e ≤ time
  | none => false

def taskEvents (timeout : Duration) (w : Waiter) : List TaskEvent :=
  if w.hasEnded (w.submitted + timeout) then [.ended w.position, .reported w.position]
  else [.expired w.position]

end Waiter

namespace Batch

/-- The outcome of a submission is known before the emission is dropped, if it ever is. -/
def waitsFor (timeout : Duration) (dropped : Option Duration) (w : Waiter) : Bool :=
  match dropped with
  | some d => w.due timeout < d
  | none => true

/-- What happens to the tasks of an emission up to an instant at which it is over, when it is
dropped after a time or never. The tasks that nobody waits for any longer are independent of each
other, so any order of their ends will do. -/
def taskEvents (b : Batch) (timeout : Duration) (dropped : Option Duration) (time : Duration) :
    List TaskEvent :=
  let arrivals := (b.waiting.map Flight.arrivals).getD []
  let heard := arrivals.filter (waitsFor timeout dropped)
  let left := arrivals.filter (!waitsFor timeout dropped ·)
  b.waiters.map (.taken ·.position) ++ heard.flatMap (·.taskEvents timeout) ++
    [if left.isEmpty then .closed else .abandoned] ++
    (left.filter (·.hasEnded time)).map (.ended ·.position)

end Batch

end LakeCatalog.Emission
