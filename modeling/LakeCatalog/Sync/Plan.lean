import LakeCatalog.Emission.Batch
import LakeCatalog.Table.Basic

/-!
# Plans

What an operation does to the outside, step by step: it reads the facts of a table or its last
commit, it emits a batch and goes on with the outcomes, or it is finished. The index of a plan
bounds the number of batches that it emits. A plan is carried out on a table that may change with
time; reading takes no time, and emitting takes as long as the batch does. A plan whose batch is
dropped is given up with it.
-/

namespace LakeCatalog.Sync

open Catalog Emission

/-- The steps of an operation that emits at most so many batches. -/
inductive Plan (α : Type) : Nat → Type where
  | finish {n : Nat} (result : α) : Plan α n
  | readFacts {n : Nat} (next : Except Fault TableFacts → Plan α n) : Plan α n
  | readLastCommit {n : Nat} (next : Except Fault (Option String) → Plan α n) : Plan α n
  | emit {n : Nat} (batch : List Proposal) (next : List Outcome → Plan α n) : Plan α (n + 1)

def Plan.map {α β : Type} {n : Nat} (f : α → β) : Plan α n → Plan β n
  | .finish result => .finish (f result)
  | .readFacts next => .readFacts fun facts => (next facts).map f
  | .readLastCommit next => .readLastCommit fun commit => (next commit).map f
  | .emit batch next => .emit batch fun outcomes => (next outcomes).map f

/-- A table that may change with time. -/
abbrev History := Duration → Table

/-- The instant, and what has happened on all channels. -/
structure Session where
  now : Duration
  log : Log

def Session.start : Session := ⟨.zero, []⟩

/-- Where a plan waits for a batch, or its result. -/
inductive Progress (α : Type) (n : Nat) where
  | finished (result : α)
  | waiting {m : Nat} (smaller : m < n) (batch : List Proposal) (next : List Outcome → Plan α m)

/-- The steps of a plan up to its next batch, with the table as it is at that instant. -/
def Plan.advance {α : Type} {n : Nat} (table : Table) : Plan α n → Progress α n
  | .finish result => .finished result
  | .readFacts next => (next table.facts).advance table
  | .readLastCommit next => (next table.lastCommit).advance table
  | .emit batch next => .waiting (Nat.lt_succ_self _) batch next

/-- Emits a batch at the instant of the session and waits for its end. -/
def Session.emit (s : Session) (t : Transport) (timeout : Duration) (batch : List Proposal) :
    Batch × Session :=
  let b := s.log.next t timeout batch
  (b, { now := s.now + b.duration, log := s.log ++ Log.entriesOf s.now s.log.opens b })

/-- Emits a batch at the instant of the session, and waits for its end or drops it before. -/
def Session.attempt (s : Session) (t : Transport) (timeout : Duration) (patience : Patience)
    (batch : List Proposal) : Batch × Session :=
  let b := s.log.attempt t timeout patience batch
  (b, { now := s.now + b.duration, log := s.log ++ Log.entriesOf s.now s.log.opens b })

def Plan.run {α : Type} {n : Nat} (t : Transport) (timeout : Duration) (table : History) :
    Plan α n → Session → α × Session
  | .finish result, s => (result, s)
  | .readFacts next, s => (next (table s.now).facts).run t timeout table s
  | .readLastCommit next, s => (next (table s.now).lastCommit).run t timeout table s
  | .emit batch next, s =>
    let (b, s) := s.emit t timeout batch
    (next b.outcomes).run t timeout table s

/-- Carries out a plan, which has no result if one of its batches is dropped. -/
def Plan.attempt {α : Type} {n : Nat} (t : Transport) (timeout : Duration) (patience : Patience)
    (table : History) : Plan α n → Session → Option α × Session
  | .finish result, s => (some result, s)
  | .readFacts next, s => (next (table s.now).facts).attempt t timeout patience table s
  | .readLastCommit next, s => (next (table s.now).lastCommit).attempt t timeout patience table s
  | .emit batch next, s =>
    let (b, s) := s.attempt t timeout patience batch
    if b.completed then (next b.outcomes).attempt t timeout patience table s else (none, s)

end LakeCatalog.Sync
