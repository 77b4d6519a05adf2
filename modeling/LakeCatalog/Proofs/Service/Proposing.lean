import LakeCatalog.Proofs.Service.Lines
import LakeCatalog.Service.Schedule

/-!
# What is proposed

What a plan proposes can depend on the table and on the outcomes of its batches. Where whatever it
can propose is allowed, whatever is submitted for it is, and what is left of it at a later instant
proposes nothing else. So what holds of the plans of all operations and requests holds of the log of
a service.
-/

namespace LakeCatalog

open Catalog Emission Sync Service

/-- All proposals that a plan can make are allowed, whatever the table says at any instant and
whatever comes of its batches. -/
def Sync.Plan.Proposes (table : History) (allowed : Proposal → Prop) {α : Type} :
    {n : Nat} → Plan α n → Prop
  | _, .finish _ => True
  | _, .readFacts next => ∀ time, (next (table time).facts).Proposes table allowed
  | _, .readLastCommit next => ∀ time, (next (table time).lastCommit).Proposes table allowed
  | _, .emit batch next =>
    (∀ p ∈ batch, allowed p) ∧ ∀ outcomes, (next outcomes).Proposes table allowed

def Emission.Log.Proposes (allowed : Proposal → Prop) (log : Log) : Prop :=
  ∀ p ∈ log.submitted, allowed p

section

variable {t : Transport} {timeout : Duration} {patience : Patience} {table : History}
  {allowed : Proposal → Prop}

lemma Emission.Log.Proposes.attempt {log : Log} (h : log.Proposes allowed) (time : Duration)
    {batch : List Proposal} (all : ∀ p ∈ batch, allowed p) :
    Log.Proposes allowed
      (log ++ Log.entriesOf time log.opens (log.attempt t timeout patience batch)) := by
  intro p mem
  rw [Log.submitted, List.filterMap_append, Log.entriesOf, List.filterMap_map] at mem
  rcases List.mem_append.mp mem with submitted | handed
  · exact h p submitted
  · have handed : p ∈ (log.attempt t timeout patience batch).events.filterMap
        (·.event.proposal?) := handed
    rw [Log.attempt, Log.next] at handed
    cases opened : t.opening log.opens with
    | some error =>
      rw [emit_of_failed_opening log.submissions timeout batch opened] at handed
      cases waits : patience log.opens <;> rw [waits] at handed <;> cases handed
    | none =>
      rw [handedOver_within t log.opens log.submissions timeout (patience log.opens) batch
        opened] at handed
      exact all p handed

namespace Sync.Plan

variable {α β : Type} {n : Nat}

lemma Proposes.map {p : Plan α n} (h : p.Proposes table allowed) (f : α → β) :
    (p.map f).Proposes table allowed := by
  induction p with
  | finish result => trivial
  | readFacts next ih => exact fun time => ih _ (h time)
  | readLastCommit next ih => exact fun time => ih _ (h time)
  | emit batch next ih => exact ⟨h.1, fun outcomes => ih _ (h.2 outcomes)⟩

/-- A plan that waits for a batch has proposed this batch, and what is left of it is a plan of the
same kind. -/
lemma Proposes.of_waiting {p : Plan α n} (h : p.Proposes table allowed) {time : Duration} {m : Nat}
    {smaller : m < n} {batch : List Proposal} {next : List Outcome → Plan α m}
    (due : p.advance (table time) = .waiting smaller batch next) :
    (∀ p ∈ batch, allowed p) ∧ ∀ outcomes, (next outcomes).Proposes table allowed := by
  induction p with
  | finish result => cases due
  | readFacts next ih => exact ih _ (h time) due
  | readLastCommit next ih => exact ih _ (h time) due
  | emit batch next ih =>
    cases due
    exact h

lemma Proposes.attempt {p : Plan α n} (h : p.Proposes table allowed) (s : Session)
    (before : s.log.Proposes allowed) :
    (p.attempt t timeout patience table s).2.log.Proposes allowed := by
  induction p generalizing s with
  | finish result => exact before
  | readFacts next ih => exact ih _ (h s.now) s before
  | readLastCommit next ih => exact ih _ (h s.now) s before
  | emit batch next ih =>
    have after : (s.attempt t timeout patience batch).2.log.Proposes allowed :=
      before.attempt s.now h.1
    rw [Plan.attempt]
    simp only
    split
    · exact ih _ (h.2 _) _ after
    · exact after

end Sync.Plan

namespace Service

structure Agenda.Proposes (table : History) (allowed : Proposal → Prop) (s : Agenda) : Prop where
  log : s.log.Proposes allowed
  pending : ∀ p ∈ s.pending, ∀ job ∈ p.job, job.plan.Proposes table allowed
  queued : ∀ q ∈ s.queued, q.job.plan.Proposes table allowed

namespace Agenda

variable {s next : Agenda} {p : Pending} {before after : List Pending} {e : Turn}

/-- A turn adds only what the job of the request can propose. -/
lemma Goes.proposes (h : s.Proposes table allowed) (pending : s.pending = before ++ p :: after)
    (goes : Goes t timeout patience table s (before ++ after) p e next) :
    next.Proposes table allowed := by
  have others : ∀ p' ∈ before ++ after, ∀ job ∈ p'.job, job.plan.Proposes table allowed := by
    intro p' mem
    refine h.pending p' ?_
    rw [pending]
    exact ((List.sublist_cons_self p after).append_left before).subset mem
  cases goes with
  | @emits job m smaller batch follow going due b emission =>
    have own : job.plan.Proposes table allowed :=
      h.pending p (by rw [pending]; simp) job going
    obtain ⟨now, later⟩ := own.of_waiting due
    refine ⟨emission ▸ h.log.attempt p.time now, ?_, h.queued⟩
    intro p' mem job' left
    rcases List.mem_append.mp mem with mem | mem
    · exact others p' mem job' left
    · cases List.mem_singleton.mp mem
      simp only [Pending.later, Job.left] at left
      split at left
      · cases left
        exact later _
      · cases left
  | leaves due nobody => exact ⟨h.log, others, h.queued⟩
  | @passes _ q front back due queued same first =>
    rw [Agenda.ended]
    refine ⟨h.log, ?_, ?_⟩
    · intro p' mem job left
      rcases List.mem_append.mp mem with mem | mem
      · exact others p' mem job left
      · cases List.mem_singleton.mp mem
        cases left
        exact h.queued q (by rw [queued]; simp)
    · intro q' mem
      refine h.queued q' ?_
      rw [queued]
      exact ((List.sublist_cons_self q back).append_left front).subset mem

lemma run_proposes (fuel : Nat) (s : Agenda) (h : s.Proposes table allowed) :
    (s.run t timeout patience table fuel).Proposes table allowed := by
  induction fuel generalizing s with
  | zero => exact h
  | succ fuel ih =>
    rw [run]
    cases taken : takeFirst s.pending with
    | none => exact h
    | some found =>
      obtain ⟨p, others⟩ := found
      obtain ⟨before, after, pending, rfl, -⟩ := takeFirst_split taken
      obtain ⟨e, goes⟩ := exists_goes_step t timeout patience table s (before ++ after) p
      exact ih _ (goes.proposes h pending)

lemma Proposes.arrive (h : s.Proposes table allowed) (time : Duration) (request : Nat)
    {a : Admitted} (job : a.job.plan.Proposes table allowed) :
    (s.arrive time request a).Proposes table allowed := by
  have started (lane : Option Route) : Agenda.Proposes table allowed
      { s with pending := s.pending ++ [⟨time, request, lane, some a.job⟩] } := by
    refine ⟨h.log, fun p mem job' left => ?_, h.queued⟩
    rcases List.mem_append.mp mem with mem | mem
    · exact h.pending p mem job' left
    · cases List.mem_singleton.mp mem
      cases left
      exact job
  unfold Agenda.arrive
  split
  · exact started none
  · rename_i lane _
    split
    · refine ⟨h.log, h.pending, fun q mem => ?_⟩
      rcases List.mem_append.mp mem with mem | mem
      · exact h.queued q mem
      · cases List.mem_singleton.mp mem
        exact job
    · exact started (some lane)

lemma Proposes.foldl_arrive (time : Duration) (arrivals : List (Admitted × Nat))
    (all : ∀ arrival ∈ arrivals, arrival.1.job.plan.Proposes table allowed) {s : Agenda}
    (h : s.Proposes table allowed) :
    (arrivals.foldl (fun agenda (a, i) => agenda.arrive time i a) s).Proposes table allowed := by
  induction arrivals generalizing s with
  | nil => exact h
  | cons arrival arrivals ih =>
    obtain ⟨first, later⟩ := List.forall_mem_cons.mp all
    exact ih later (h.arrive time arrival.2 first)

end Agenda

def Activity.Proposes (c : Client) (t : Transport) (table : History) (allowed : Proposal → Prop) :
    Activity → Prop
  | .operation o => (o.plan c).Proposes table allowed
  | .requests group => ∀ r ∈ group, (admission c (c.scope t) r).job.plan.Proposes table allowed

variable {c : Client}

lemma serveWithin_proposes (s : Session) (group : List Request)
    (all : ∀ r ∈ group, (admission c (c.scope t) r).job.plan.Proposes table allowed)
    (before : s.log.Proposes allowed) :
    (serveWithin c t patience table s group).2.log.Proposes allowed := by
  have start : Agenda.Proposes table allowed ⟨s.log, [], [], [], s.now⟩ :=
    ⟨before, by simp, by simp⟩
  refine (Agenda.run_proposes _ _ (start.foldl_arrive s.now _ fun arrival mem => ?_)).log
  obtain ⟨r, hr, same⟩ := List.mem_map.mp (List.fst_mem_of_mem_zipIdx mem)
  rw [← same]
  exact all r hr

/-- Where all activities propose only what is allowed, only that is submitted. -/
lemma performAll_proposes (activities : List Activity) (s : Session)
    (all : ∀ a ∈ activities, a.Proposes c t table allowed) (before : s.log.Proposes allowed) :
    (performAll c t patience table activities s).2.log.Proposes allowed := by
  induction activities generalizing s with
  | nil => exact before
  | cons a rest ih =>
    obtain ⟨first, later⟩ := List.forall_mem_cons.mp all
    refine ih _ later ?_
    cases a with
    | operation o => exact first.attempt s before
    | requests group => exact serveWithin_proposes s group first before

end Service

end

end LakeCatalog
