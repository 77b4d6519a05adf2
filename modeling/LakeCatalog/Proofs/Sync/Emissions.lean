import LakeCatalog.Proofs.Sync.Bounds
import LakeCatalog.Sync.Client

/-!
# The emissions of a plan

A plan that is carried out emits batches one after the other, each on the next channel and each once
the one before is over. Listed as attempts they account for all that a plan does: they are what it
adds to the log, and without any of them it leaves the session alone.
-/

namespace LakeCatalog.Emission

open Catalog

/-- The entries of emissions on consecutive channels. -/
def Log.entriesFrom (channel : Nat) : List Attempt → Log
  | [] => []
  | a :: rest => entriesOf a.start channel a.batch ++ entriesFrom (channel + 1) rest

def Attempt.Succeeded (a : Attempt) : Prop := ∀ o ∈ a.batch.outcomes, o.status = .succeeded

def Attempt.handedOver (a : Attempt) : List Proposal :=
  a.batch.events.filterMap (·.event.proposal?)

lemma Log.submitted_entriesFrom (channel : Nat) (attempts : List Attempt) :
    (Log.entriesFrom channel attempts).submitted = attempts.flatMap Attempt.handedOver := by
  induction attempts generalizing channel with
  | nil => rfl
  | cons a rest ih =>
    have first : (Log.entriesOf a.start channel a.batch).submitted = a.handedOver := by
      simp only [Log.submitted, Log.entriesOf, Attempt.handedOver, List.filterMap_map,
        Function.comp_def]
    rw [Log.entriesFrom, List.flatMap_cons, ← first, ← ih (channel + 1)]
    exact List.filterMap_append

/-- The outcomes of an emission are about the proposals of its batch, one for each. -/
lemma outcomes_emit_perm (t : Transport) (opens count : Nat) (timeout : Duration)
    (batch : List Proposal) :
    ((emit t opens count timeout batch).outcomes.map Outcome.proposal).Perm batch := by
  cases hopen : t.opening opens with
  | some error =>
    rw [emit_of_failed_opening count timeout batch hopen]
    refine .of_eq ?_
    simp only [Batch.outcomes, List.map_map]
    exact List.zipIdx_map_fst 0 batch
  | none =>
    have settled := (settled_emit_perm timeout count batch hopen).map (·.outcome.proposal)
    have proposals := map_proposal_submissionsFrom t count 0 batch
    rw [List.map_map] at settled
    rw [Batch.outcomes, List.map_map]
    exact settled.trans (.of_eq proposals)

/-- The proposals that the catalog accepted, in the order in which that became known. -/
def Attempt.accepted (a : Attempt) : List Proposal :=
  (a.batch.outcomes.filter Outcome.isSuccess).map Outcome.proposal

lemma Attempt.accepted_perm {t : Transport} {opens count : Nat} {timeout : Duration} {a : Attempt}
    (emitted : a.batch = emit t opens count timeout a.proposals) (succeeded : a.Succeeded) :
    a.accepted.Perm a.proposals := by
  have all : a.batch.outcomes.filter Outcome.isSuccess = a.batch.outcomes := by
    refine List.filter_eq_self.mpr fun o ho => ?_
    simp [Outcome.isSuccess, succeeded o ho]
  rw [accepted, all, emitted]
  exact outcomes_emit_perm t opens count timeout a.proposals

lemma handedOver_emit_eq (t : Transport) (opens count : Nat) (timeout : Duration)
    (batch : List Proposal) :
    (emit t opens count timeout batch).events.filterMap (·.event.proposal?) =
      if (t.opening opens).isNone then batch else [] := by
  cases hopen : t.opening opens with
  | some error =>
    rw [emit_of_failed_opening count timeout batch hopen]
    rfl
  | none => exact handedOver_emit timeout count batch hopen

end LakeCatalog.Emission

namespace LakeCatalog.Sync

open Catalog Emission

def Session.emission (s : Session) (t : Transport) (timeout : Duration) (batch : List Proposal) :
    Attempt :=
  ⟨s.now, batch, (s.emit t timeout batch).1⟩

/-- The emissions of a plan that is carried out, in order. -/
def Plan.emissions {α : Type} {n : Nat} (t : Transport) (timeout : Duration) (table : History) :
    Plan α n → Session → List Attempt
  | .finish _, _ => []
  | .readFacts next, s => (next (table s.now).facts).emissions t timeout table s
  | .readLastCommit next, s => (next (table s.now).lastCommit).emissions t timeout table s
  | .emit batch next, s =>
    let (b, after) := s.emit t timeout batch
    s.emission t timeout batch :: (next b.outcomes).emissions t timeout table after

section

variable {α β : Type} {n : Nat} (t : Transport) (timeout : Duration) (table : History)

lemma Session.opens_emit (s : Session) (batch : List Proposal) :
    (s.emit t timeout batch).2.log.opens = s.log.opens + 1 :=
  (s.attempt_bounds t timeout .endless batch).2

/-- What a plan adds to the log is what its emissions write. -/
lemma Plan.log_run (p : Plan α n) (s : Session) :
    (p.run t timeout table s).2.log =
      s.log ++ Log.entriesFrom s.log.opens (p.emissions t timeout table s) := by
  -- The session is generalized: the rest of a plan starts one channel later.
  induction p generalizing s with
  | finish result => exact (List.append_nil s.log).symm
  | readFacts next ih => exact ih (table s.now).facts s
  | readLastCommit next ih => exact ih (table s.now).lastCommit s
  | emit batch next ih =>
    have rest := ih (s.emit t timeout batch).1.outcomes (s.emit t timeout batch).2
    rw [Session.opens_emit] at rest
    simp only [Plan.run, Plan.emissions, Log.entriesFrom, rest]
    exact List.append_assoc ..

lemma Plan.opens_run (p : Plan α n) (s : Session) :
    (p.run t timeout table s).2.log.opens =
      s.log.opens + (p.emissions t timeout table s).length := by
  induction p generalizing s with
  | finish result => rfl
  | readFacts next ih => exact ih (table s.now).facts s
  | readLastCommit next ih => exact ih (table s.now).lastCommit s
  | emit batch next ih =>
    have rest := ih (s.emit t timeout batch).1.outcomes (s.emit t timeout batch).2
    rw [Session.opens_emit] at rest
    simp only [Plan.run, Plan.emissions, List.length_cons]
    omega

lemma Plan.submitted_run (p : Plan α n) (s : Session) :
    (p.run t timeout table s).2.log.submitted =
      s.log.submitted ++ (p.emissions t timeout table s).flatMap Attempt.handedOver := by
  rw [Plan.log_run, ← Log.submitted_entriesFrom s.log.opens]
  exact List.filterMap_append

lemma Plan.batch_of_mem_emissions (p : Plan α n) (s : Session) {a : Attempt}
    (ha : a ∈ p.emissions t timeout table s) :
    ∃ opens count, a.batch = Emission.emit t opens count timeout a.proposals := by
  induction p generalizing s with
  | finish result => cases ha
  | readFacts next ih => exact ih _ s ha
  | readLastCommit next ih => exact ih _ s ha
  | emit batch next ih =>
    rcases List.mem_cons.mp ha with rfl | ha
    · exact ⟨s.log.opens, s.log.submissions, rfl⟩
    · exact ih _ _ ha

lemma Plan.run_map (f : α → β) (p : Plan α n) (s : Session) :
    (p.map f).run t timeout table s =
      (f (p.run t timeout table s).1, (p.run t timeout table s).2) := by
  induction p generalizing s with
  | finish result => rfl
  | readFacts next ih => exact ih (table s.now).facts s
  | readLastCommit next ih => exact ih (table s.now).lastCommit s
  | emit batch next ih => exact ih _ _

lemma Plan.emissions_map (f : α → β) (p : Plan α n) (s : Session) :
    (p.map f).emissions t timeout table s = p.emissions t timeout table s := by
  induction p generalizing s with
  | finish result => rfl
  | readFacts next ih => exact ih (table s.now).facts s
  | readLastCommit next ih => exact ih (table s.now).lastCommit s
  | emit batch next ih => exact congrArg (List.cons _) (ih _ _)

end

end LakeCatalog.Sync
