import LakeCatalog.Emission.Batch
import Mathlib.Tactic.Common

/-!
# What a close answers

Whatever a transport answers to a close, nothing but the log of that close depends on it. So
replacing the answer commutes with every stage of an emission.
-/

namespace LakeCatalog.Emission

open Catalog

/-- The transport with another answer to every close. -/
def Transport.answering (error : Option TransportError) (t : Transport) : Transport :=
  { t with closing := error }

def Event.answering (error : Option TransportError) : Event → Event
  | .closed _ => .closed error
  | e => e

def TimedEvent.answering (error : Option TransportError) (e : TimedEvent) : TimedEvent :=
  { e with event := e.event.answering error }

def Flight.answering (error : Option TransportError) (f : Flight) : Flight :=
  { f with
    transport := f.transport.answering error
    events := f.events.map (·.answering error) }

def Batch.answering (error : Option TransportError) (b : Batch) : Batch :=
  { b with
    events := b.events.map (·.answering error)
    waiting := b.waiting.map (·.answering error) }

def Log.answering (error : Option TransportError) (log : Log) : Log :=
  log.map fun entry => { entry with event := entry.event.answering error }

variable (error : Option TransportError)

@[simp] lemma Event.isOpening_answering (e : Event) :
    (e.answering error).isOpening = e.isOpening := by
  cases e <;> rfl

@[simp] lemma Event.proposal?_answering (e : Event) :
    (e.answering error).proposal? = e.proposal? := by
  cases e <;> rfl

section

variable (t : Transport) (f : Flight) (b : Batch)

@[simp] lemma Transport.opening_answering : (t.answering error).opening = t.opening := rfl

@[simp] lemma Flight.held_answering : (f.answering error).held = f.held := rfl

@[simp] lemma Flight.arrivals_answering : (f.answering error).arrivals = f.arrivals := rfl

@[simp] lemma Batch.settled_answering : (b.answering error).settled = b.settled := rfl

@[simp] lemma Batch.outcomes_answering : (b.answering error).outcomes = b.outcomes := rfl

@[simp] lemma Batch.duration_answering : (b.answering error).duration = b.duration := rfl

@[simp] lemma Batch.completed_answering : (b.answering error).completed = b.completed := rfl

end

namespace Flight

variable (f : Flight)

lemma submit_answering (position : Nat) (p : Proposal) :
    (f.answering error).submit position p = (f.submit position p).answering error := by
  cases hh : f.held <;> cases hb : f.transport.submission f.submissions <;>
    simp [submit, write, record, answering, Transport.answering, TimedEvent.answering,
      Event.answering, hh, hb]

lemma submitFrom_answering (position : Nat) (ps : List Proposal) :
    submitFrom position ps (f.answering error) = (submitFrom position ps f).answering error := by
  induction ps generalizing f position with
  | nil => rfl
  | cons p ps ih => rw [submitFrom, submit_answering, ih, submitFrom]

lemma begun_answering (t : Transport) (timeout : Duration) (submissions : Nat)
    (batch : List Proposal) :
    begun (t.answering error) timeout submissions batch =
      (begun t timeout submissions batch).answering error :=
  submitFrom_answering error (opened t timeout submissions batch.length) 0 batch

lemma hear_answering (r : Report) :
    (f.answering error).hear r = (f.hear r).answering error := by
  cases hs : r.settled <;>
    simp [hear, write, record, answering, TimedEvent.answering, Event.answering, hs]

lemma await_answering (ws : List Waiter) :
    (f.answering error).await ws = (f.await ws).answering error := by
  have heard (reports : List Report) :
      reports.foldl hear (f.answering error) = (reports.foldl hear f).answering error := by
    induction reports generalizing f with
    | nil => rfl
    | cons r reports ih => rw [List.foldl_cons, hear_answering, ih, List.foldl_cons]
  exact heard _

lemma lose_answering (position : Nat) (p : Proposal) :
    (f.answering error).lose position p = (f.lose position p).answering error := by
  simp [lose, write, answering, TimedEvent.answering, Event.answering]

lemma sweepFrom_answering (position : Nat) (ps : List Proposal) :
    sweepFrom position ps (f.answering error) = (sweepFrom position ps f).answering error := by
  induction ps generalizing f position with
  | nil => rfl
  | cons p ps ih =>
    have marked : (f.answering error).isMarked position = f.isMarked position := rfl
    rw [sweepFrom, sweepFrom, marked, lose_answering]
    split <;> exact ih ..

lemma release_answering : (f.answering error).release = f.release.answering error := by
  cases hh : f.held <;>
    simp [release, write, answering, Transport.answering, TimedEvent.answering, Event.answering, hh]

lemma drop_answering : (f.answering error).drop = f.drop.answering error := by
  rw [drop, drop, held_answering, release_answering]
  split <;> rfl

lemma finish_answering (batch : List Proposal) :
    (f.answering error).finish batch = (f.finish batch).answering error := by
  rw [finish, finish, close, close, sweepFrom_answering, release_answering, drop_answering]

lemma dropAt_answering (time : Duration) :
    (f.answering error).dropAt time = (f.dropAt time).answering error :=
  drop_answering error { f with now := time }

end Flight

/-- The answer to a close changes nothing of an emission but what is said about this close. -/
lemma emit_answering (t : Transport) (opens submissions : Nat) (timeout : Duration)
    (batch : List Proposal) :
    emit (t.answering error) opens submissions timeout batch =
      (emit t opens submissions timeout batch).answering error := by
  cases hopen : t.opening opens with
  | some cause =>
    simp only [emit, Transport.opening_answering, hopen]
    rfl
  | none =>
    simp only [emit, Transport.opening_answering, hopen, Flight.begun_answering,
      Flight.arrivals_answering, Flight.await_answering, Flight.finish_answering]
    rfl

lemma Batch.droppedAfter_answering (b : Batch) (time : Duration) :
    (b.answering error).droppedAfter time = (b.droppedAfter time).map (·.answering error) := by
  cases hw : b.waiting with
  | none => simp [droppedAfter, answering, hw]
  | some f =>
    have waiting : (b.answering error).waiting = some (f.answering error) := by
      rw [answering, hw]
      rfl
    have heard : (f.arrivals.takeWhile fun w => w.due (f.answering error).timeout < time) =
        f.arrivals.takeWhile fun w => w.due f.timeout < time := rfl
    simp only [droppedAfter, waiting, hw, Flight.arrivals_answering]
    simp only [heard, Flight.await_answering, Flight.dropAt_answering]
    split <;> rfl

lemma Batch.within_answering (b : Batch) (patience : Option Duration) :
    (b.answering error).within patience = (b.within patience).answering error := by
  cases patience with
  | none => rfl
  | some time =>
    simp only [within, Option.bind_some, droppedAfter_answering]
    cases b.droppedAfter time <;> rfl

namespace Log

lemma opens_answering (log : Log) : (log.answering error).opens = log.opens := by
  simp [opens, answering, List.countP_map, Function.comp_def]

lemma submissions_answering (log : Log) : (log.answering error).submissions = log.submissions := by
  simp only [submissions, submitted, answering, List.filterMap_map, Function.comp_def,
    Event.proposal?_answering]

lemma attempt_answering (log : Log) (t : Transport) (timeout : Duration) (patience : Patience)
    (batch : List Proposal) :
    (log.answering error).attempt (t.answering error) timeout patience batch =
      (log.attempt t timeout patience batch).answering error := by
  rw [attempt, attempt, next, next, opens_answering, submissions_answering, emit_answering,
    Batch.within_answering]

lemma entriesOf_answering (start : Duration) (channel : Nat) (b : Batch) :
    entriesOf start channel (b.answering error) = (entriesOf start channel b).answering error := by
  simp [entriesOf, answering, Batch.answering, TimedEvent.answering, Function.comp_def]

lemma append_answering (log more : Log) :
    Log.answering error (log ++ more) = log.answering error ++ more.answering error :=
  List.map_append

end Log

end LakeCatalog.Emission
