import LakeCatalog.Proofs.Emission.Outcomes
import Mathlib.Data.List.TakeWhile

/-!
# What an emission does with its channel

An emission, whether it comes to its end or is dropped while it waits, opens its channel once and
first of all. If that fails nothing else happens. Otherwise the channel is closed once and last of
all, at the instant at which the emission is over: every outcome is recorded by then, or the
emission is dropped just then and an outcome is still to come. What lies in between are submissions
and outcomes.
-/

namespace LakeCatalog.Emission

open Catalog

def Event.recorded? : Event → Option Nat
  | .settled position => some position
  | .refused position _ => some position
  | _ => none

/-- Neither an attempt to open a channel nor a close. -/
def Event.isInner (e : Event) : Bool := !e.isOpening && !e.isClose

/-- What an emission of so many proposals does with its channel, when it is dropped after a time or
never. -/
inductive Batch.Orderly (size : Nat) (patience : Option Duration) (b : Batch) : Prop where
  /-- The channel cannot be opened, and nothing else happens. -/
  | unavailable (events : b.events = [⟨.zero, .openFailed⟩]) (atOnce : b.duration = .zero)
      (completed : b.completed = true)
  /-- The channel opens, and it is closed when the emission is over. -/
  | opened (between : List TimedEvent) (error : Option TransportError)
      (events : b.events =
        ⟨.zero, .opened⟩ :: between ++ [⟨b.duration, .closed error⟩])
      (inner : ∀ e ∈ between, e.event.isInner = true)
      (timed : b.events.Pairwise fun e e' => e.time ≤ e'.time)
      (recorded : b.completed = true →
        (between.filterMap (·.event.recorded?)).Perm (List.range size))
      (inTime : b.completed = true → ∀ time, patience = some time →
        ∀ e ∈ between, ∀ position, e.event = .settled position → e.time < time)
      (dropped : b.completed = false → patience = some b.duration ∧
        ∃ position < size, position ∉ between.filterMap (·.event.recorded?))

/-- What happens on a channel between its opening and its close: a batch is handed over, and then
some waiters report. -/
def eventsBetween (timeout : Duration) (subs : List Submission) (heard : List Waiter) :
    List TimedEvent :=
  subs.map (fun s => ⟨.zero, s.event⟩) ++ heard.map (·.event timeout)

section

variable (timeout : Duration) (subs : List Submission) (heard : List Waiter)

lemma isInner_of_mem_eventsBetween {e : TimedEvent} (h : e ∈ eventsBetween timeout subs heard) :
    e.event.isInner = true := by
  rcases List.mem_append.mp h with h | h
  · obtain ⟨s, -, rfl⟩ := List.mem_map.mp h
    simp only [Submission.event]
    split <;> rfl
  · obtain ⟨w, -, rfl⟩ := List.mem_map.mp h
    rfl

lemma recorded_eventsBetween : (eventsBetween timeout subs heard).filterMap (·.event.recorded?) =
    (subs.filter (·.isRefused)).map Submission.position ++ heard.map Waiter.position := by
  have taken (s : Submission) : s.event.recorded? =
      if s.isRefused then some s.position else none := by
    unfold Submission.event
    split <;> rfl
  rw [eventsBetween, List.filterMap_append, List.filterMap_map, List.filterMap_map]
  congr 1
  · induction subs with
    | nil => rfl
    | cons s subs ih =>
      cases hs : s.isRefused <;> simp_all
  · exact congrFun (List.filterMap_eq_map (f := Waiter.position)) heard

/-- An event that records an answer is the report of a waiter that was heard. -/
lemma exists_of_settled_mem_eventsBetween {e : TimedEvent} {position : Nat}
    (h : e ∈ eventsBetween timeout subs heard) (answer : e.event = .settled position) :
    ∃ w ∈ heard, e.time = w.due timeout := by
  rcases List.mem_append.mp h with h | h
  · obtain ⟨s, -, rfl⟩ := List.mem_map.mp h
    simp only [Submission.event] at answer
    split at answer <;> cases answer
  · obtain ⟨w, hw, rfl⟩ := List.mem_map.mp h
    exact ⟨w, hw, rfl⟩

/-- The events on a channel are in the order of time. -/
lemma pairwise_time_eventsBetween {time : Duration} {error : Option TransportError}
    (ordered : heard.Pairwise fun a b => a.due timeout ≤ b.due timeout)
    (before : ∀ w ∈ heard, w.due timeout ≤ time) :
    (⟨.zero, .opened⟩ :: eventsBetween timeout subs heard ++
      [(⟨time, .closed error⟩ : TimedEvent)]).Pairwise fun e e' => e.time ≤ e'.time := by
  have start (d : Duration) : Duration.zero ≤ d := Nat.zero_le _
  rw [List.cons_append, List.pairwise_cons, eventsBetween, List.append_assoc, List.pairwise_append,
    List.pairwise_append, List.pairwise_map, List.pairwise_map]
  refine ⟨fun e _ => start e.time, List.pairwise_of_forall fun _ _ => start _, ?_, ?_⟩
  · refine ⟨ordered, List.pairwise_singleton .., ?_⟩
    intro e he e' he'
    obtain ⟨w, hw, rfl⟩ := List.mem_map.mp he
    rw [List.mem_singleton.mp he']
    exact before w hw
  · intro e he e' _
    obtain ⟨s, -, rfl⟩ := List.mem_map.mp he
    exact start e'.time

end

section

variable (t : Transport) (opens count : Nat) (timeout : Duration) (patience : Option Duration)
  (batch : List Proposal)

/-- The positions of a batch are those of the refused submissions, of the waiters that were heard,
and of the others. -/
lemma positions_perm {heard unheard : List Waiter}
    (parts : (Flight.begun t timeout count batch).arrivals = heard ++ unheard) :
    (((submissionsFrom t count 0 batch).filter (·.isRefused)).map Submission.position ++
      heard.map Waiter.position ++ unheard.map Waiter.position).Perm (List.range batch.length) := by
  have answered := (Flight.begun t timeout count batch).arrivals_perm
  rw [Flight.taken_begun, parts] at answered
  have positions := answered.map Waiter.position
  rw [List.map_append, List.map_map] at positions
  rw [List.append_assoc, ← map_position_submissionsFrom t count batch]
  refine (positions.append_left _).trans ?_
  have split := (List.filter_append_perm (·.isRefused) (submissionsFrom t count 0 batch)).map
    Submission.position
  rwa [List.map_append] at split

/-- An emission that is not dropped has heard from all its waiters before. -/
lemma due_lt_of_not_dropped (opened : t.opening opens = none) {time : Duration}
    (kept : (emit t opens count timeout batch).droppedAfter time = none) :
    ∀ w ∈ (Flight.begun t timeout count batch).arrivals, w.due timeout < time := by
  rw [emit_of_opening count timeout batch opened] at kept
  simp only [Batch.droppedAfter, Flight.timeout_begun] at kept
  by_cases all : ((Flight.begun t timeout count batch).arrivals.takeWhile
      fun w => w.due timeout < time).length = (Flight.begun t timeout count batch).arrivals.length
  · have same := (List.takeWhile_sublist _).eq_of_length all
    intro w hw
    rw [← same] at hw
    simpa using List.mem_takeWhile_imp hw
  · rw [if_neg all] at kept
    cases kept

/-- An emission over a channel that opens hears a first part of its waiters: all of them, or those
that report before it is dropped. -/
lemma within_of_opening (opened : t.opening opens = none) :
    let b := (emit t opens count timeout batch).within patience
    ∃ heard unheard, (Flight.begun t timeout count batch).arrivals = heard ++ unheard ∧
      b.events = ⟨.zero, .opened⟩ ::
        eventsBetween timeout (submissionsFrom t count 0 batch) heard ++
        [⟨b.duration, .closed t.closing⟩] ∧
      (∀ w ∈ heard, w.due timeout ≤ b.duration) ∧
      (b.completed = true → unheard = [] ∧
        b.duration = latest .zero (heard.map (·.due timeout)) ∧
        ∀ time, patience = some time → ∀ w ∈ heard, w.due timeout < time) ∧
      (b.completed = false → patience = some b.duration ∧
        ∃ w ∈ unheard, b.duration ≤ w.due timeout) := by
  intro b
  cases hd : patience.bind (emit t opens count timeout batch).droppedAfter with
  | none =>
    have hb : b = emit t opens count timeout batch := by
      simp only [b, Batch.within, hd, Option.getD_none]
    rw [emit_of_opening count timeout batch opened] at hb
    refine ⟨(Flight.begun t timeout count batch).arrivals, [], by simp, ?_, ?_, ?_, ?_⟩
    · rw [hb]
      simp only [eventsBetween, List.cons_append, List.append_assoc]
    · intro w hw
      rw [hb]
      exact le_latest_of_mem (List.mem_map_of_mem hw)
    · intro _
      refine ⟨rfl, by rw [hb], ?_⟩
      rintro time rfl
      exact due_lt_of_not_dropped t opens count timeout batch opened hd
    · intro dropped
      rw [hb] at dropped
      cases dropped
  | some left =>
    obtain ⟨time, hp, hleft⟩ := Option.bind_eq_some_iff.mp hd
    obtain ⟨some_unheard, hleft⟩ := droppedAfter_of_opening count timeout batch opened hleft
    have hb : b = left := by simp only [b, Batch.within, hd, Option.getD_some]
    rw [hleft] at hb
    refine ⟨(Flight.begun t timeout count batch).arrivals.takeWhile fun w => w.due timeout < time,
      (Flight.begun t timeout count batch).arrivals.dropWhile fun w => w.due timeout < time,
      List.takeWhile_append_dropWhile.symm, ?_, ?_, ?_, ?_⟩
    · rw [hb]
      simp only [eventsBetween, List.cons_append, List.append_assoc]
    · intro w hw
      have early : w.due timeout < time := by simpa using List.mem_takeWhile_imp hw
      rw [hb]
      exact Nat.le_of_lt early
    · intro completed
      rw [hb] at completed
      cases completed
    · intro _
      rw [hb]
      refine ⟨hp, ?_⟩
      cases hu : (Flight.begun t timeout count batch).arrivals.dropWhile
          fun w => w.due timeout < time with
      | nil =>
        refine absurd ?_ some_unheard
        rw [← List.append_nil (List.takeWhile _ _), ← hu, List.takeWhile_append_dropWhile]
      | cons w ws =>
        have late := List.head_dropWhile_not (fun w : Waiter => decide (w.due timeout < time))
          (l := (Flight.begun t timeout count batch).arrivals) (by simp [hu])
        simp only [hu, List.head_cons, decide_eq_false_iff_not] at late
        exact ⟨w, List.mem_cons_self, Nat.le_of_not_lt late⟩

/-- What is handed over to a channel that opens is the batch, also when the emission is dropped. -/
lemma handedOver_within (opened : t.opening opens = none) :
    ((emit t opens count timeout batch).within patience).events.filterMap (·.event.proposal?) =
      batch := by
  obtain ⟨heard, unheard, -, events, -⟩ :=
    within_of_opening t opens count timeout patience batch opened
  rw [events, List.cons_append, List.filterMap_cons_none rfl, List.filterMap_append, eventsBetween,
    List.filterMap_append, handedOver_submissions, handedOver_heard,
    List.filterMap_cons_none rfl, List.filterMap_nil, List.append_nil, List.append_nil]

/-- Nobody waits longer than the timeout for the end of an emission. -/
lemma duration_within_le :
    ((emit t opens count timeout batch).within patience).duration ≤ timeout := by
  cases hopen : t.opening opens with
  | some error =>
    rw [emit_of_failed_opening count timeout batch hopen]
    cases patience <;> exact Nat.zero_le _
  | none =>
    obtain ⟨heard, unheard, parts, -, -, completes, drops⟩ :=
      within_of_opening t opens count timeout patience batch hopen
    have bound : ∀ w ∈ heard ++ unheard, w.due timeout ≤ timeout := by
      intro w hw
      obtain ⟨answered, arrivals, -, -⟩ := exists_answered t timeout count batch
      rw [← parts, arrivals] at hw
      obtain ⟨s, -, rfl⟩ := List.mem_map.mp hw
      rw [Submission.due_waiter]
      exact Behaviour.instant_le timeout s.behaviour
    cases hc : ((emit t opens count timeout batch).within patience).completed with
    | true =>
      obtain ⟨-, duration, -⟩ := completes hc
      rw [duration]
      rcases latest_eq_or_mem .zero (heard.map (·.due timeout)) with h | h
      · rw [h]
        exact Nat.zero_le _
      · obtain ⟨w, hw, same⟩ := List.mem_map.mp h
        rw [← same]
        exact bound w (List.mem_append_left _ hw)
    | false =>
      obtain ⟨-, w, hw, late⟩ := drops hc
      exact Nat.le_trans late (bound w (List.mem_append_right _ hw))

/-- An emission opens its channel once and first, and closes it once and last unless the opening
failed. -/
lemma within_orderly :
    ((emit t opens count timeout batch).within patience).Orderly batch.length patience := by
  cases hopen : t.opening opens with
  | some error =>
    rw [emit_of_failed_opening count timeout batch hopen]
    cases patience <;> exact .unavailable rfl rfl rfl
  | none =>
    obtain ⟨heard, unheard, parts, events, before, completes, drops⟩ :=
      within_of_opening t opens count timeout patience batch hopen
    have ordered : heard.Pairwise fun a b => a.due timeout ≤ b.due timeout := by
      have h := (Flight.arrivals_begun_pairwise t timeout count batch).imp fun h => h.due_le
      rw [parts] at h
      exact (List.pairwise_append.mp h).1
    have positions := positions_perm t count timeout batch parts
    rw [← recorded_eventsBetween timeout] at positions
    refine .opened _ t.closing events (fun e => isInner_of_mem_eventsBetween timeout _ heard) ?_
      (fun completed => ?_) (fun completed time hp e he position answer => ?_) (fun dropped => ?_)
    · rw [events]
      exact pairwise_time_eventsBetween timeout _ heard ordered before
    · rw [(completes completed).1, List.map_nil, List.append_nil] at positions
      exact positions
    · obtain ⟨w, hw, same⟩ := exists_of_settled_mem_eventsBetween timeout _ heard he answer
      rw [same]
      exact (completes completed).2.2 time hp w hw
    · obtain ⟨hp, w, hw, -⟩ := drops dropped
      refine ⟨hp, w.position, ?_, ?_⟩
      · exact List.mem_range.mp
          (positions.mem_iff.mp (List.mem_append_right _ (List.mem_map_of_mem hw)))
      · -- No position of the batch is there twice, and this one is that of an answer to come.
        have nodup := positions.nodup_iff.mpr List.nodup_range
        intro early
        exact (List.nodup_append.mp nodup).2.2 _ early _ (List.mem_map_of_mem hw) rfl

end

end LakeCatalog.Emission
