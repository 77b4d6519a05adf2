import LakeCatalog.Proofs.Sync.TableCourse

/-!
# How far a full sync comes

The emissions of a full sync publish the schema, the properties and the marker, in this order and as
far as they come. Where errors are propagated, one emission follows another only if every proposal
before it succeeded, so the marker is never published after a failure. Where errors are suppressed
nothing that fails keeps back what follows, and the report tells whether everything succeeded.
-/

namespace LakeCatalog.Sync

open Catalog Emission

namespace Client

/-- An emission of one proposal, which patches the properties of the dataset of a table and gives
the table's name with them. -/
def Patches (c : Client) (properties : Dictionary String) (a : Attempt) : Prop :=
  a.proposals = [⟨.dataset, c.identity.dataset, .properties ⟨some c.identity.table, properties⟩⟩]

/-- Emissions that publish, as far as they come, the schema of the facts of a table, the properties
derived from them, and the marker of the commit that is the last one at the instant of its own
emission. -/
inductive Publishes (c : Client) (table : History) (s : Session) : List Attempt → Prop where
  | nothing : Publishes c table s []
  | schema {facts : TableFacts} {derived : Dictionary String} {a : Attempt}
      (prepared : c.prepared (table s.now) = .ok (facts, derived))
      (first : a.proposals = c.publisher.schemaProposals facts.schema) :
      Publishes c table s [a]
  | properties {facts : TableFacts} {derived : Dictionary String} {a b : Attempt}
      (prepared : c.prepared (table s.now) = .ok (facts, derived))
      (first : a.proposals = c.publisher.schemaProposals facts.schema)
      (second : c.Patches derived b) :
      Publishes c table s [a, b]
  | marker {facts : TableFacts} {derived : Dictionary String} {instant : String} {a b m : Attempt}
      (prepared : c.prepared (table s.now) = .ok (facts, derived))
      (first : a.proposals = c.publisher.schemaProposals facts.schema)
      (second : c.Patches derived b)
      (commit : (table m.start).lastCommit = .ok (some instant))
      (third : c.Patches (.ofList [("last_commit_time_sync", instant)]) m) :
      Publishes c table s [a, b, m]

/-- What a full sync attempts of prepared facts and properties where nothing keeps it back: the
schema and the properties, and the marker if there is a commit once they are out. It ends with a
fault only if the last commit cannot be read, and otherwise with a report that tells whether
everything succeeded. -/
def AttemptsAll (c : Client) (table : History) (facts : TableFacts) (derived : Dictionary String)
    (result : Except SyncError TableReport) (emitted : List Attempt) : Prop :=
  ∃ a b last, emitted = a :: b :: last ∧
    a.proposals = c.publisher.schemaProposals facts.schema ∧
    c.Patches derived b ∧
    match (table (b.start + b.batch.duration)).lastCommit with
    | .error fault => last = [] ∧ result = .error (.fault fault)
    | .ok commit =>
      List.Forall₂ (fun m instant => c.Patches (.ofList [("last_commit_time_sync", instant)]) m)
        last commit.toList ∧
      ∃ report, result = .ok report ∧ report.lastCommitTime = commit ∧
        (report.isSuccess = true ↔ ∀ e ∈ emitted, e.Succeeded)

namespace TableCourse

variable {c : Client} {t : Transport} {timeout : Duration} {table : History} {s ended : Session}
  {result : Except SyncError TableReport} {emitted : List Attempt}

lemma publishes (course : c.TableCourse t timeout table s result emitted ended) :
    c.Publishes table s emitted := by
  have at_start {instant : String} {s₂ s₃ : Session} {m : Attempt} {marker : Except SyncError Run}
      (commit : (table s₂.now).lastCommit = .ok (some instant))
      (third : c.MarkerRan t timeout instant s₂ m marker s₃) :
      (table m.start).lastCommit = .ok (some instant) := by
    rw [← third.emission]
    exact commit
  cases course with
  | unprepared => exact .nothing
  | schemaFailed prepared first => exact .schema prepared first.proposals
  | propertiesFailed prepared first second =>
    exact .properties prepared first.proposals second.proposals
  | commitUnread prepared first second =>
    exact .properties prepared first.proposals second.proposals
  | noCommit prepared first second =>
    exact .properties prepared first.proposals second.proposals
  | markerFailed prepared first second commit third =>
    exact .marker prepared first.proposals second.proposals (at_start commit third) third.proposals
  | marked prepared first second commit third =>
    exact .marker prepared first.proposals second.proposals (at_start commit third) third.proposals

/-- Where errors are propagated, an emission that is followed by another one succeeded. -/
lemma pairwise_succeeded (course : c.TableCourse t timeout table s result emitted ended)
    (propagates : c.settings.policy = .propagateFirstError) :
    emitted.Pairwise fun a _ => a.Succeeded := by
  cases course with
  | unprepared => exact .nil
  | schemaFailed => exact List.pairwise_singleton ..
  | propertiesFailed _ first | commitUnread _ first | noCommit _ first =>
    exact List.pairwise_pair.mpr (first.of_ok.2 propagates)
  | markerFailed _ first second | marked _ first second =>
    have schema := first.of_ok.2 propagates
    have properties := second.of_ok.2 propagates
    exact List.pairwise_cons.mpr ⟨fun _ _ => schema, List.pairwise_pair.mpr properties⟩

lemma succeeded_of_report {report : TableReport}
    (course : c.TableCourse t timeout table s (.ok report) emitted ended)
    (propagates : c.settings.policy = .propagateFirstError) : ∀ a ∈ emitted, a.Succeeded := by
  cases course with
  | noCommit _ first second =>
    have schema := first.of_ok.2 propagates
    have properties := second.of_ok.2 propagates
    simp only [List.forall_mem_cons, List.not_mem_nil, false_implies, implies_true, schema,
      properties, and_self]
  | marked _ first second _ third =>
    have schema := first.of_ok.2 propagates
    have properties := second.of_ok.2 propagates
    have marker := third.of_ok.2 propagates
    simp only [List.forall_mem_cons, List.not_mem_nil, false_implies, implies_true, schema,
      properties, marker, and_self]

lemma isSuccess_iff {report : TableReport}
    (course : c.TableCourse t timeout table s (.ok report) emitted ended) :
    report.isSuccess = true ↔ ∀ a ∈ emitted, a.Succeeded := by
  cases course with
  | noCommit _ first second =>
    simp [TableReport.isSuccess, first.of_ok.1, second.of_ok.1]
  | marked _ first second _ third =>
    simp [TableReport.isSuccess, first.of_ok.1, second.of_ok.1, third.of_ok.1, and_assoc]

/-- Where errors are suppressed, no run ends with one. -/
lemma ne_failure (course : c.TableCourse t timeout table s result emitted ended)
    (suppresses : c.settings.policy = .suppressErrors) (failure : RunFailure) :
    result ≠ .error (.failure failure) := by
  have never {operation : String} {batch : List Proposal} {s₁ s₂ : Session} {a : Attempt}
      {error : SyncError} (ran : c.Ran t timeout operation batch s₁ a (.error error) s₂) :
      False := by
    have propagates := ran.of_error.1
    rw [suppresses] at propagates
    cases propagates
  cases course with
  | schemaFailed _ first => exact (never first).elim
  | propertiesFailed _ _ second => exact (never second).elim
  | markerFailed _ _ _ _ third => exact (never third).elim
  | unprepared | commitUnread | noCommit | marked => nofun

lemma exists_prepared {report : TableReport}
    (course : c.TableCourse t timeout table s (.ok report) emitted ended) :
    ∃ facts derived, c.prepared (table s.now) = .ok (facts, derived) := by
  cases course with
  | noCommit prepared | marked prepared => exact ⟨_, _, prepared⟩

/-- A failed run is all that keeps back what follows. -/
lemma attemptsAll (course : c.TableCourse t timeout table s result emitted ended)
    (unfailed : ∀ failure, result ≠ .error (.failure failure)) {facts : TableFacts}
    {derived : Dictionary String} (prepares : c.prepared (table s.now) = .ok (facts, derived)) :
    c.AttemptsAll table facts derived result emitted := by
  have found {facts' : TableFacts} {derived' : Dictionary String}
      (prepared : c.prepared (table s.now) = .ok (facts', derived')) :
      facts' = facts ∧ derived' = derived :=
    Prod.mk.inj (Except.ok.inj (prepared.symm.trans prepares))
  have tells := fun (report : TableReport) (reported : result = .ok report) =>
    isSuccess_iff (reported ▸ course)
  cases course with
  | unprepared prepared => cases prepares.symm.trans prepared
  | schemaFailed _ ran | propertiesFailed _ _ ran | markerFailed _ _ _ _ ran =>
    obtain ⟨failure, rfl⟩ := ran.of_error.2
    exact absurd rfl (unfailed failure)
  | commitUnread prepared first second commit =>
    obtain ⟨rfl, rfl⟩ := found prepared
    refine ⟨_, _, [], rfl, first.proposals, second.proposals, ?_⟩
    rw [← second.now_after, commit]
    exact ⟨rfl, rfl⟩
  | noCommit prepared first second commit =>
    obtain ⟨rfl, rfl⟩ := found prepared
    refine ⟨_, _, [], rfl, first.proposals, second.proposals, ?_⟩
    rw [← second.now_after, commit]
    exact ⟨.nil, _, rfl, rfl, tells _ rfl⟩
  | marked prepared first second commit third =>
    obtain ⟨rfl, rfl⟩ := found prepared
    refine ⟨_, _, [_], rfl, first.proposals, second.proposals, ?_⟩
    rw [← second.now_after, commit]
    exact ⟨.cons third.proposals .nil, _, rfl, rfl, tells _ rfl⟩

end TableCourse

/-- Whatever a full sync emits is the schema, the properties and the marker, in this order and as
far as it comes; all of it is in the log, on one channel for each, and every proposal has one
outcome. The properties are one patch of the dataset by what is derived, and the marker is one by
the last commit alone. There is a report only if all three were attempted, the marker if there is a
commit. Where errors are propagated, a channel is opened after another one only if every proposal of
the earlier one succeeded, and there is a report only if all proposals did. Where errors are
suppressed, all three are attempted whatever fails, as long as the facts can be read and the
properties derived. The report tells whether all proposals succeeded. -/
theorem syncTable_sequenced_by_policy (c : Client) (t : Transport) (timeout : Duration)
    (table : History) (s : Session) :
    let whole := c.syncTable.run t timeout table s
    let emitted := c.syncTable.emissions t timeout table s
    whole.2.log = s.log ++ Log.entriesFrom s.log.opens emitted ∧
    whole.2.log.opens = s.log.opens + emitted.length ∧
    (∀ a ∈ emitted, (a.batch.outcomes.map Outcome.proposal).Perm a.proposals) ∧
    c.Publishes table s emitted ∧
    (∀ report, whole.1 = .ok report → ∃ facts derived,
      c.prepared (table s.now) = .ok (facts, derived) ∧
        c.AttemptsAll table facts derived whole.1 emitted) ∧
    match c.settings.policy with
    | .propagateFirstError =>
      (emitted.Pairwise fun a _ => a.Succeeded) ∧
        ∀ report, whole.1 = .ok report → ∀ a ∈ emitted, a.Succeeded
    | .suppressErrors => ∀ facts derived, c.prepared (table s.now) = .ok (facts, derived) →
      c.AttemptsAll table facts derived whole.1 emitted := by
  intro whole emitted
  have course : c.TableCourse t timeout table s whole.1 emitted whole.2 :=
    c.syncTable_course t timeout table s
  refine ⟨Plan.log_run .., Plan.opens_run .., ?_, course.publishes, ?_, ?_⟩
  · intro a ha
    obtain ⟨opens, count, batch⟩ := Plan.batch_of_mem_emissions t timeout table _ s ha
    rw [batch]
    exact outcomes_emit_perm t opens count timeout a.proposals
  · intro report reported
    have unfailed (failure : RunFailure) : whole.1 ≠ .error (.failure failure) := by
      rw [reported]
      nofun
    obtain ⟨facts, derived, prepared⟩ := (reported ▸ course).exists_prepared
    exact ⟨facts, derived, prepared, course.attemptsAll unfailed prepared⟩
  · split
    · rename_i propagates
      refine ⟨course.pairwise_succeeded propagates, fun report reported => ?_⟩
      rw [reported] at course
      exact course.succeeded_of_report propagates
    · rename_i suppresses
      intro facts derived prepared
      exact course.attemptsAll (course.ne_failure suppresses) prepared

end Client

end LakeCatalog.Sync
