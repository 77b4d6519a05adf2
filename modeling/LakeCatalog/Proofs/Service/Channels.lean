import LakeCatalog.Proofs.Emission.CloseAnswer
import LakeCatalog.Proofs.Service.Lines
import LakeCatalog.Proofs.Sync.TableSync
import LakeCatalog.Service.Schedule

/-!
# Channels over the life of a service

Operations and requests touch the log only by emitting batches, each on the next channel. So
whatever is asked of a service, in whatever order, and whichever emissions are dropped, what was
opened is closed. What a close answers reaches nobody.
-/

namespace LakeCatalog

open Catalog Emission Sync Service

section Emitted

variable (t : Transport) (timeout : Duration) (patience : Patience) (table : History)

/-- The emissions of a plan in order, up to the first that is dropped. -/
def Sync.Plan.attempts {α : Type} {n : Nat} : Plan α n → Session → List Attempt
  | .finish _, _ => []
  | .readFacts next, s => (next (table s.now).facts).attempts s
  | .readLastCommit next, s => (next (table s.now).lastCommit).attempts s
  | .emit batch next, s =>
    let (b, after) := s.attempt t timeout patience batch
    ⟨s.now, batch, b⟩ :: if b.completed then (next b.outcomes).attempts after else []

/-- What a plan does to the log is what its emissions write. -/
lemma Sync.Plan.log_attempt {α : Type} {n : Nat} (p : Plan α n) (s : Session) :
    let attempts := p.attempts t timeout patience table s
    (p.attempt t timeout patience table s).2.log =
        s.log ++ Log.entriesFrom s.log.opens attempts ∧
      s.log.Continues t timeout patience attempts := by
  induction p generalizing s with
  | finish result => exact ⟨(List.append_nil s.log).symm, .nil⟩
  | readFacts next ih => exact ih (table s.now).facts s
  | readLastCommit next ih => exact ih (table s.now).lastCommit s
  | emit batch next ih =>
    have opens : (s.attempt t timeout patience batch).2.log.opens = s.log.opens + 1 :=
      Log.opens_attempt ..
    simp only [attempts, attempt, Log.entriesFrom]
    split
    · obtain ⟨log, continues⟩ := ih _ (s.attempt t timeout patience batch).2
      rw [log, opens]
      exact ⟨List.append_assoc .., .cons rfl continues⟩
    · rw [Log.entriesFrom, List.append_nil]
      exact ⟨rfl, .cons rfl .nil⟩

namespace Service

variable (c : Client)

/-- What a service emits for what is asked of it: the batches of the operation, one after the other,
or those of the requests, which are served in turns. -/
inductive Activity.Emits (before : Session) : Activity → List Attempt → Session → Prop where
  | operation (o : Operation) :
    Emits before (.operation o)
      ((o.plan c).attempts t c.settings.emitTimeout patience table before)
      ((o.plan c).attempt t c.settings.emitTimeout patience table before).2
  | requests {group : List Request} {turns : List Turn} {answers : List Answered} {after : Session}
      (served : ServedInTurns t c.settings.emitTimeout patience table
        (group.map (admission c (c.scope t))).zipIdx before turns answers after) :
    Emits before (.requests group) (turns.filterMap Turn.attempt?) after

/-- What a service emits for one activity after the other. -/
inductive EmitsAll : Session → List Activity → List (List Attempt) → Session → Prop where
  | nothing (s : Session) : EmitsAll s [] [] s
  | next {before middle after : Session} {a : Activity} {rest : List Activity}
      {attempts : List Attempt} {others : List (List Attempt)}
      (first : a.Emits t patience table c before attempts middle)
      (later : EmitsAll middle rest others after) :
    EmitsAll before (a :: rest) (attempts :: others) after

lemma Activity.exists_emits (a : Activity) (s : Session) :
    let after := (a.perform c t patience table s).2
    ∃ attempts, a.Emits t patience table c s attempts after ∧
      after.log = s.log ++ Log.entriesFrom s.log.opens attempts ∧
      s.log.Continues t c.settings.emitTimeout patience attempts := by
  cases a with
  | operation o =>
    exact ⟨_, .operation o, Plan.log_attempt t c.settings.emitTimeout patience table (o.plan c) s⟩
  | requests group =>
    obtain ⟨start, turns, last, gathered, log, course, result⟩ :=
      exists_course_serveWithin c t patience table s group
    have served := servedInTurns gathered log course
    rw [perform, result]
    exact ⟨_, .requests served, served.log, served.emitted⟩

/-- The log of a service is written by what it emits for its activities. -/
lemma exists_emitsAll (activities : List Activity) (s : Session) {attempts : List Attempt}
    (written : s.log.Written t c.settings.emitTimeout patience attempts) :
    let after := (performAll c t patience table activities s).2
    ∃ groups, EmitsAll t patience table c s activities groups after ∧
      after.log.Written t c.settings.emitTimeout patience (attempts ++ groups.flatten) := by
  induction activities generalizing s attempts with
  | nil => exact ⟨[], .nothing s, (List.append_nil attempts).symm ▸ written⟩
  | cons a rest ih =>
    obtain ⟨first, emits, log, continues⟩ := a.exists_emits t patience table c s
    have one := written.append continues
    rw [← log] at one
    obtain ⟨groups, emitsAll, all⟩ := ih _ one
    rw [List.append_assoc] at all
    exact ⟨first :: groups, .next emits emitsAll, all⟩

end Service

end Emitted

section Answering

variable (error : Option TransportError) (t : Transport) (timeout : Duration) (patience : Patience)
  (table : History)

def Sync.Session.answering (s : Session) : Session := { s with log := s.log.answering error }

lemma Sync.Session.attempt_answering (s : Session) (batch : List Proposal) :
    (s.answering error).attempt (t.answering error) timeout patience batch =
      ((s.attempt t timeout patience batch).1.answering error,
        (s.attempt t timeout patience batch).2.answering error) := by
  simp only [attempt, answering, Log.attempt_answering, Log.opens_answering, Log.append_answering,
    Log.entriesOf_answering]
  rfl

lemma Sync.Plan.attempt_answering {α : Type} {n : Nat} (p : Plan α n) (s : Session) :
    p.attempt (t.answering error) timeout patience table (s.answering error) =
      ((p.attempt t timeout patience table s).1,
        (p.attempt t timeout patience table s).2.answering error) := by
  induction p generalizing s with
  | finish result => rfl
  | readFacts next ih => exact ih (table s.now).facts s
  | readLastCommit next ih => exact ih (table s.now).lastCommit s
  | emit batch next ih =>
    simp only [attempt, Session.attempt_answering, Batch.completed_answering,
      Batch.outcomes_answering]
    split
    · exact ih _ _
    · rfl

namespace Service

def Agenda.answering (s : Agenda) : Agenda := { s with log := s.log.answering error }

lemma Agenda.release_answering (s : Agenda) (time : Duration) (lane : Option Route) :
    (s.answering error).release time lane = (s.release time lane).answering error := by
  cases lane with
  | none => rfl
  | some lane =>
    have queued : (s.answering error).queued = s.queued := rfl
    simp only [release, queued]
    split <;> rfl

lemma Agenda.arrive_answering (s : Agenda) (time : Duration) (request : Nat) (a : Admitted) :
    (s.answering error).arrive time request a = (s.arrive time request a).answering error := by
  have pending : (s.answering error).pending = s.pending := rfl
  simp only [arrive, pending]
  split
  · rfl
  · split <;> rfl

lemma Agenda.step_answering (s : Agenda) (p : Pending) :
    (s.answering error).step (t.answering error) timeout patience table p =
      (s.step t timeout patience table p).answering error := by
  have log : (s.answering error).log = s.log.answering error := rfl
  simp only [step]
  split
  · exact release_answering error { s with now := max s.now p.time } p.time p.lane
  · split
    · rename_i reply _
      exact release_answering error
        { s with
          answered := s.answered ++ [⟨p.time, p.request, reply⟩]
          now := max s.now p.time }
        p.time p.lane
    · simp only [log, Log.attempt_answering, Batch.completed_answering, Batch.outcomes_answering,
        Batch.duration_answering, Log.opens_answering, Log.entriesOf_answering,
        ← Log.append_answering]
      rfl

lemma Agenda.run_answering (fuel : Nat) (s : Agenda) :
    (s.answering error).run (t.answering error) timeout patience table fuel =
      (s.run t timeout patience table fuel).answering error := by
  induction fuel generalizing s with
  | zero => rfl
  | succ fuel ih =>
    have pending : (s.answering error).pending = s.pending := rfl
    rw [run, run, pending]
    split
    · rfl
    · rename_i first others _
      rw [← ih, ← step_answering]
      rfl

variable (c : Client)

lemma foldl_arrive_answering (time : Duration) (arrivals : List (Admitted × Nat)) (s : Agenda) :
    arrivals.foldl (fun agenda (a, i) => agenda.arrive time i a) (s.answering error) =
      (arrivals.foldl (fun agenda (a, i) => agenda.arrive time i a) s).answering error := by
  induction arrivals generalizing s with
  | nil => rfl
  | cons arrival arrivals ih =>
    obtain ⟨a, i⟩ := arrival
    simp only [List.foldl_cons, Agenda.arrive_answering, ih]

lemma serveWithin_answering (s : Session) (requests : List Request) :
    serveWithin c (t.answering error) patience table (s.answering error) requests =
      ((serveWithin c t patience table s requests).1,
        (serveWithin c t patience table s requests).2.answering error) := by
  have scope : c.scope (t.answering error) = c.scope t := rfl
  have start : (⟨(s.answering error).log, [], [], [], (s.answering error).now⟩ : Agenda) =
      Agenda.answering error ⟨s.log, [], [], [], s.now⟩ := rfl
  simp only [serveWithin, scope, start, foldl_arrive_answering, Agenda.run_answering]
  rfl

lemma Activity.perform_answering (a : Activity) (s : Session) :
    a.perform c (t.answering error) patience table (s.answering error) =
      ((a.perform c t patience table s).1, (a.perform c t patience table s).2.answering error) := by
  cases a with
  | operation o => simp only [perform, Plan.attempt_answering]
  | requests group => simp only [perform, serveWithin_answering]

lemma performAll_answering (activities : List Activity) (s : Session) :
    performAll c (t.answering error) patience table activities (s.answering error) =
      ((performAll c t patience table activities s).1,
        (performAll c t patience table activities s).2.answering error) := by
  induction activities generalizing s with
  | nil => rfl
  | cons a rest ih => simp only [performAll, Activity.perform_answering, ih]

end Service

end Answering

/-- Whatever operations and requests a service is asked for, one after the other or at one instant,
and whichever emissions are dropped at whatever instants, its log is written by what it emits for
them, in turn. And whatever emissions write a log, of whatever batches and at whatever instants,
each of them opens one channel once and first of all; unless that fails it closes this channel once
and last of all, after all outcomes were recorded, or when it is dropped while one is still to come.
So while no emission is under way, the closes are the openings that did not fail. What a close
answers changes no outcome and no result. -/
theorem performAll_closes_what_it_opens (c : Client) (t : Transport) (patience : Patience)
    (table : History) (activities : List Activity) :
    let timeout := c.settings.emitTimeout
    let performed := performAll c t patience table activities .start
    (∃ groups, EmitsAll t patience table c .start activities groups performed.2 ∧
      performed.2.log.Written t timeout patience groups.flatten) ∧
    (∀ log attempts, Log.Written t timeout patience log attempts →
      log.opens = attempts.length ∧
      (∀ (k : Nat) (a : Attempt), attempts[k]? = some a →
        log.channel k = Log.entriesOf a.start k a.batch ∧
        a.batch.Orderly a.proposals.length (patience k)) ∧
      (∀ time, (∀ a ∈ attempts, a.isRunning time = false) →
        (log.upTo time).closes + (log.upTo time).failures = (log.upTo time).opens) ∧
      log.closes + log.failures = log.opens) ∧
    ∀ error,
      (∀ opens count batch, (emit (t.answering error) opens count timeout batch).settled =
        (emit t opens count timeout batch).settled) ∧
      performAll c (t.answering error) patience table activities .start =
        (performed.1, performed.2.answering error) := by
  intro timeout performed
  refine ⟨?_, ?_, ?_⟩
  · exact exists_emitsAll t patience table c activities .start .start
  · intro log attempts written
    have balanced := written.balanced
    refine ⟨balanced.opens, ?_, ?_, ?_⟩
    · exact fun k a known => ⟨balanced.channel k a known, balanced.orderly k a known⟩
    · intro time idle
      have running : attempts.countP (·.isRunning time) = 0 :=
        List.countP_eq_zero.mpr fun a ha => by simp [idle a ha]
      have balance := balanced.running time
      omega
    · have balance := balanced.ended
      omega
  · intro error
    constructor
    · intro opens count batch
      rw [emit_answering, Batch.settled_answering]
    · exact performAll_answering error t patience table c activities .start

/-- The marker of a commit is recorded, and then once more for a request that is dropped while it
waits. -/
theorem performAll_closes_what_it_opens_of_orders :
    let c := Client.ofOrders true
    let t : Transport := .behaving fun n => if n = 0 then .resolves .zero none else .hangs
    let patience : Patience := fun channel => if channel = 1 then some (.ofSeconds 1) else none
    let table : History := fun _ => ⟨.ok Client.ordersFacts, .ok (some "20240502100000000")⟩
    let request : Request := ⟨"POST", "/sync/last-commit", [], .empty⟩
    let log := (performAll c t patience table
      [.operation .syncLastCommit, .requests [request]] .start).2.log
    log.submitted = c.markerBatch "20240502100000000" ++ c.markerBatch "20240502100000000" ∧
      log.opens = 2 ∧ log.closes = 2 := by
  intro c t patience table request log
  obtain ⟨⟨groups, -, written⟩, balanced, -⟩ :=
    performAll_closes_what_it_opens c t patience table
      [.operation .syncLastCommit, .requests [request]]
  have opens : log.opens = 2 := by decide +kernel
  have failures : log.failures = 0 := by decide +kernel
  obtain ⟨-, -, -, ended⟩ := balanced log groups.flatten written
  exact ⟨by decide +kernel, opens, by omega⟩

end LakeCatalog
