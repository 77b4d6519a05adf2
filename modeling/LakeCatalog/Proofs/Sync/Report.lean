import LakeCatalog.Proofs.Sync.Emissions

/-!
# How a run is reported

What a client makes of the outcomes of a batch depends on its policy, and nothing else does: under
either policy the same batch is emitted, with the same outcomes. The outcomes are split into
successes, which are counted, and failures, which are listed as they became known. An error that is
propagated is the one of the first failure on this list.
-/

namespace LakeCatalog.Emission.Outcome

lemma isSuccess_iff (o : Outcome) : o.isSuccess = true ↔ o.status = .succeeded := beq_iff_eq

lemma isSuccess_eq_decide (o : Outcome) : o.isSuccess = decide (o.status = .succeeded) := rfl

lemma exists_error?_of_failed {o : Outcome} (failed : o.isSuccess = false) :
    ∃ error, o.error? = some error := by
  have known := o.error?_isSome
  rw [failed] at known
  exact Option.isSome_iff_exists.mp known

end LakeCatalog.Emission.Outcome

namespace LakeCatalog.Sync

open Catalog Emission

section

variable (operation : String) (policy : FailurePolicy) (outcomes : List Outcome)

lemma Run.total_ofOutcomes : (Run.ofOutcomes operation policy outcomes).total = outcomes.length :=
  (List.length_eq_length_filter_add Outcome.isSuccess).symm

lemma Run.failures_ofOutcomes_eq_nil_iff :
    (Run.ofOutcomes operation policy outcomes).failures = [] ↔
      ∀ o ∈ outcomes, o.status = .succeeded := by
  rw [Run.ofOutcomes, List.filter_eq_nil_iff]
  refine forall₂_congr fun o _ => ?_
  rw [← o.isSuccess_iff]
  cases o.isSuccess <;> decide

lemma Run.isSuccess_ofOutcomes_iff :
    (Run.ofOutcomes operation policy outcomes).isSuccess = true ↔
      ∀ o ∈ outcomes, o.status = .succeeded :=
  List.isEmpty_iff.trans (failures_ofOutcomes_eq_nil_iff operation policy outcomes)

lemma aggregate_suppressErrors : aggregate operation .suppressErrors outcomes =
    .ok (Run.ofOutcomes operation .suppressErrors outcomes) := rfl

lemma aggregate_of_no_failures
    (none_failed : (Run.ofOutcomes operation policy outcomes).failures = []) :
    aggregate operation policy outcomes = .ok (Run.ofOutcomes operation policy outcomes) := by
  simp only [aggregate, none_failed, List.findSome?_nil]

lemma aggregate_propagateFirstError_of_failures {o : Outcome} {rest : List Outcome}
    (failed : (Run.ofOutcomes operation .propagateFirstError outcomes).failures = o :: rest) :
    ∃ first, o.error? = some first ∧
      aggregate operation .propagateFirstError outcomes =
        .error ⟨operation, (o :: rest).length, outcomes.length, first⟩ := by
  have among : o ∈ (Run.ofOutcomes operation .propagateFirstError outcomes).failures := by
    rw [failed]
    exact List.mem_cons_self
  have failure : o.isSuccess = false := by
    have kept := (List.mem_filter.mp among).2
    rwa [Bool.not_eq_true'] at kept
  -- Every failure has an error, so the search for one stops at the head of the list.
  obtain ⟨first, known⟩ := Outcome.exists_error?_of_failed failure
  refine ⟨first, known, ?_⟩
  simp only [aggregate, failed, List.findSome?_cons, known]

end

namespace Client

def underPolicy (c : Client) (policy : FailurePolicy) : Client :=
  { c with settings := { c.settings with suppressErrors := policy == .suppressErrors } }

@[simp] lemma policy_underPolicy (c : Client) (policy : FailurePolicy) :
    (c.underPolicy policy).settings.policy = policy := by
  cases policy <;> rfl

def emitBatch (c : Client) (operation : String) (batch : List Proposal) :
    Plan (Except SyncError Run) 1 :=
  .emit batch fun outcomes => .finish (c.result operation outcomes)

section

variable (c : Client) (t : Transport) (timeout : Duration) (table : History) (s : Session)
  (operation : String) (batch : List Proposal)

lemma run_emitBatch : (c.emitBatch operation batch).run t timeout table s =
    (c.result operation (s.emit t timeout batch).1.outcomes, (s.emit t timeout batch).2) := rfl

lemma emissions_emitBatch : (c.emitBatch operation batch).emissions t timeout table s =
    [s.emission t timeout batch] := rfl

/-- A client makes a run of any outcomes, unless it propagates errors and there are some. -/
lemma result_cases (outcomes : List Outcome) :
    c.result operation outcomes = .ok (.ofOutcomes operation c.settings.policy outcomes) ∧
        (c.settings.policy = .propagateFirstError → ∀ o ∈ outcomes, o.status = .succeeded) ∨
      c.settings.policy = .propagateFirstError ∧
        ∃ failure, c.result operation outcomes = .error (.failure failure) := by
  cases hp : c.settings.policy with
  | suppressErrors =>
    left
    refine ⟨?_, fun other => by cases other⟩
    rw [result, hp, aggregate_suppressErrors]
    rfl
  | propagateFirstError =>
    cases hf : (Run.ofOutcomes operation .propagateFirstError outcomes).failures with
    | nil =>
      left
      refine ⟨?_, fun _ => (Run.failures_ofOutcomes_eq_nil_iff _ _ _).mp hf⟩
      rw [result, hp, aggregate_of_no_failures _ _ _ hf]
      rfl
    | cons o rest =>
      obtain ⟨first, -, failed⟩ := aggregate_propagateFirstError_of_failures _ _ hf
      right
      refine ⟨rfl, ⟨operation, (o :: rest).length, outcomes.length, first⟩, ?_⟩
      rw [result, hp, failed]
      rfl

end

end Client

/-- What a client reads about a failed proposal. -/
structure FailureSummary.Describes (f : FailureSummary) (o : Outcome) : Prop where
  entity : f.entity = o.proposal.entity.text
  aspect : f.aspect = o.proposal.aspect.name
  status : o.status = .timedOut ∧ f.status = "timed_out" ∨
    ∃ cause, o.status = .failed cause ∧ f.status = "failed"
  error : ∃ error, o.error? = some error ∧ f.error = Text.join ": " error.chain

lemma FailureSummary.of_describes {o : Outcome} (failed : o.isSuccess = false) :
    (FailureSummary.of o).Describes o where
  entity := rfl
  aspect := rfl
  status := by
    cases hs : o.status with
    | succeeded =>
      rw [o.isSuccess_iff.mpr hs] at failed
      cases failed
    | timedOut => exact Or.inl ⟨rfl, by simp only [of, hs, Status.name]⟩
    | failed cause => exact Or.inr ⟨cause, rfl, by simp only [of, hs, Status.name]⟩
  error := by
    obtain ⟨error, known⟩ := Outcome.exists_error?_of_failed failed
    exact ⟨error, known, by simp only [of, known]⟩

lemma Run.failures_summary_ofOutcomes (operation : String) (policy : FailurePolicy)
    (outcomes : List Outcome) :
    let run := Run.ofOutcomes operation policy outcomes
    List.Forall₂ (fun o f => f.Describes o) run.failures run.summary.failures := by
  intro run
  refine List.forall₂_map_right_iff.mpr (List.forall₂_same.mpr fun o ho => ?_)
  have failed := (List.mem_filter.mp ho).2
  rw [Bool.not_eq_true'] at failed
  exact FailureSummary.of_describes failed

/-- The policy decides what is reported of a batch, and not what is emitted: under either policy
the session goes on alike, with the same submissions and outcomes. Where errors are suppressed the
run is a result that counts the successes and lists the failures. Where the first error is
propagated the run is this result if nothing failed, and otherwise it is an error with the number of
the failures and the first of them. The summary of a result has its counts and its failures. -/
theorem policy_changes_only_report (c : Client) (t : Transport) (timeout : Duration)
    (table : History) (s : Session) (operation : String) (batch : List Proposal) :
    let plan (policy : FailurePolicy) := (c.underPolicy policy).emitBatch operation batch
    let ran (policy : FailurePolicy) := (plan policy).run t timeout table s
    let emitted := s.emission t timeout batch
    let outcomes := emitted.batch.outcomes
    let failed := outcomes.filter fun o => o.status ≠ .succeeded
    (∀ policy, (plan policy).emissions t timeout table s = [emitted] ∧
      (ran policy).2 = (ran .suppressErrors).2 ∧
      (ran policy).2.log.submitted =
        s.log.submitted ++ if (t.opening s.log.opens).isNone then batch else []) ∧
    outcomes.length = batch.length ∧
    (∃ run, (ran .suppressErrors).1 = .ok run ∧
      run.operation = operation ∧ run.policy = .suppressErrors ∧
      run.succeeded = outcomes.countP (·.status = .succeeded) ∧ run.failures = failed ∧
      run.succeeded + run.failures.length = batch.length ∧
      match failed with
      | [] => (ran .propagateFirstError).1 = .ok { run with policy := .propagateFirstError }
      | o :: rest => ∃ first, o.error? = some first ∧
        (ran .propagateFirstError).1 =
          .error (.failure ⟨operation, (o :: rest).length, batch.length, first⟩)) ∧
    ∀ policy run, (ran policy).1 = .ok run →
      run.summary.total = batch.length ∧ run.summary.succeeded = run.succeeded ∧
      run.summary.failed = run.failures.length ∧
      List.Forall₂ (fun o f => f.Describes o) run.failures run.summary.failures := by
  intro plan ran emitted outcomes failed
  have length : outcomes.length = batch.length := by
    have perm := outcomes_emit_perm t s.log.opens s.log.submissions timeout batch
    rw [← perm.length_eq, List.length_map]
    rfl
  have total (policy : FailurePolicy) :
      (Run.ofOutcomes operation policy outcomes).total = batch.length :=
    (Run.total_ofOutcomes ..).trans length
  have failures (policy : FailurePolicy) :
      (Run.ofOutcomes operation policy outcomes).failures = failed := by
    refine List.filter_congr fun o _ => ?_
    rw [Outcome.isSuccess_eq_decide]
    exact (decide_not ..).symm
  have result (policy : FailurePolicy) : (ran policy).1 =
      (aggregate operation policy outcomes).mapError .failure := by
    have reported : (ran policy).1 = (c.underPolicy policy).result operation outcomes := rfl
    rw [reported, Client.result, Client.policy_underPolicy]
  refine ⟨fun policy => ⟨rfl, rfl, ?_⟩, length, ⟨Run.ofOutcomes operation .suppressErrors outcomes,
    ?_, rfl, rfl, ?_, failures _, total _, ?_⟩, ?_⟩
  · rw [Plan.submitted_run, Client.emissions_emitBatch, List.flatMap_singleton]
    exact congrArg _ (handedOver_emit_eq ..)
  · rw [result, aggregate_suppressErrors]
    rfl
  · rw [List.countP_eq_length_filter]
    rfl
  · cases hf : failed with
    | nil =>
      rw [result, aggregate_of_no_failures _ _ _ ((failures _).trans hf)]
      rfl
    | cons o rest =>
      obtain ⟨first, known, propagated⟩ :=
        aggregate_propagateFirstError_of_failures operation outcomes ((failures _).trans hf)
      refine ⟨first, known, ?_⟩
      rw [result, propagated, length]
      rfl
  · intro policy run reported
    rcases (c.underPolicy policy).result_cases operation outcomes with ⟨ok, -⟩ | ⟨-, _, error⟩
    · cases ok.symm.trans reported
      exact ⟨total _, rfl, rfl, Run.failures_summary_ofOutcomes ..⟩
    · cases error.symm.trans reported

end LakeCatalog.Sync
