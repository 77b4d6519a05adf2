import LakeCatalog.Proofs.Sync.Report

/-!
# The course of a full sync

A full sync prepares what it publishes, then runs the schema, the properties and the marker, and
ends at the first error. There are seven ways in which it can end. Each of them is one constructor
of a relation, with the emissions made by then and the session left behind.
-/

namespace LakeCatalog.Sync

open Catalog Emission

namespace Client

def prepared (c : Client) (table : Table) : Except Fault (TableFacts × Dictionary String) :=
  match table.facts with
  | .error fault => .error fault
  | .ok facts => (DerivedProperties.derive c.settings facts).map (facts, ·)

lemma prepared_eq_ok_iff {c : Client} {table : Table} {facts : TableFacts}
    {derived : Dictionary String} : c.prepared table = .ok (facts, derived) ↔
      table.facts = .ok facts ∧ DerivedProperties.derive c.settings facts = .ok derived := by
  cases hf : table.facts with
  | error fault => simp [prepared, hf]
  | ok found =>
    cases hd : DerivedProperties.derive c.settings found with
    | error fault =>
      simp only [prepared, hf, hd, Except.map, reduceCtorEq, Except.ok.injEq, false_iff, not_and]
      rintro rfl
      simp [hd]
    | ok properties =>
      simp only [prepared, hf, hd, Except.map, Except.ok.injEq, Prod.mk.injEq]
      constructor
      · rintro ⟨rfl, rfl⟩
        exact ⟨rfl, hd⟩
      · rintro ⟨rfl, same⟩
        exact ⟨rfl, Except.ok.inj (hd.symm.trans same)⟩

/-- A batch is emitted for an operation: the emission, what the client makes of it, and the session
afterwards. -/
structure Ran (c : Client) (t : Transport) (timeout : Duration) (operation : String)
    (batch : List Proposal) (s : Session) (a : Attempt) (result : Except SyncError Run)
    (after : Session) : Prop where
  emission : s.emission t timeout batch = a
  reported : c.result operation a.batch.outcomes = result
  session : (s.emit t timeout batch).2 = after

namespace Ran

variable {c : Client} {t : Transport} {timeout : Duration} {operation : String}
  {batch : List Proposal} {s after : Session} {a : Attempt}

lemma proposals {result : Except SyncError Run}
    (h : c.Ran t timeout operation batch s a result after) : a.proposals = batch := by
  rw [← h.emission]
  rfl

lemma now_after {result : Except SyncError Run}
    (h : c.Ran t timeout operation batch s a result after) :
    after.now = a.start + a.batch.duration := by
  rw [← h.emission, ← h.session]
  rfl

lemma run_emitBatch {result : Except SyncError Run}
    (h : c.Ran t timeout operation batch s a result after) (table : History) :
    (c.emitBatch operation batch).run t timeout table s = (result, after) := by
  have reported := h.reported
  rw [← h.emission] at reported
  rw [Client.run_emitBatch, h.session]
  exact congrArg (·, after) reported

/-- A run without an error tells whether every proposal succeeded, as they all did where errors are
propagated. -/
lemma of_ok {run : Run} (h : c.Ran t timeout operation batch s a (.ok run) after) :
    (run.isSuccess = true ↔ a.Succeeded) ∧
      (c.settings.policy = .propagateFirstError → a.Succeeded) := by
  have reported := h.reported
  rcases c.result_cases operation a.batch.outcomes with ⟨ok, succeeded⟩ | ⟨-, failure, failed⟩
  · cases ok.symm.trans reported
    exact ⟨Run.isSuccess_ofOutcomes_iff .., succeeded⟩
  · cases failed.symm.trans reported

/-- A run ends with an error only where errors are propagated, and never with a fault. -/
lemma of_error {error : SyncError}
    (h : c.Ran t timeout operation batch s a (.error error) after) :
    c.settings.policy = .propagateFirstError ∧ ∃ failure, error = .failure failure := by
  have reported := h.reported
  rcases c.result_cases operation a.batch.outcomes with ⟨ok, -⟩ | ⟨propagates, failure, failed⟩
  · cases ok.symm.trans reported
  · cases failed.symm.trans reported
    exact ⟨propagates, failure, rfl⟩

end Ran

def SchemaRan (c : Client) (t : Transport) (timeout : Duration) (facts : TableFacts) :
    Session → Attempt → Except SyncError Run → Session → Prop :=
  c.Ran t timeout "update_table_schema" (c.publisher.schemaProposals facts.schema)

def PropertiesRan (c : Client) (t : Transport) (timeout : Duration) (derived : Dictionary String) :
    Session → Attempt → Except SyncError Run → Session → Prop :=
  c.Ran t timeout "update_table_properties" (c.propertiesBatch derived)

def MarkerRan (c : Client) (t : Transport) (timeout : Duration) (instant : String) :
    Session → Attempt → Except SyncError Run → Session → Prop :=
  c.Ran t timeout "update_last_commit_time_synced" (c.markerBatch instant)

section

variable (c : Client) (t : Transport) (timeout : Duration) (table : History) (s : Session)

/-- How a full sync can end, with its emissions and the session that it leaves behind. -/
inductive TableCourse :
    Except SyncError TableReport → List Attempt → Session → Prop where
  | unprepared {fault : Fault} (prepared : c.prepared (table s.now) = .error fault) :
      TableCourse (.error (.fault fault)) [] s
  | schemaFailed {facts : TableFacts} {derived : Dictionary String} {a : Attempt}
      {error : SyncError} {s₁ : Session}
      (prepared : c.prepared (table s.now) = .ok (facts, derived))
      (first : c.SchemaRan t timeout facts s a (.error error) s₁) :
      TableCourse (.error error) [a] s₁
  | propertiesFailed {facts : TableFacts} {derived : Dictionary String} {a b : Attempt}
      {schema : Run} {error : SyncError} {s₁ s₂ : Session}
      (prepared : c.prepared (table s.now) = .ok (facts, derived))
      (first : c.SchemaRan t timeout facts s a (.ok schema) s₁)
      (second : c.PropertiesRan t timeout derived s₁ b (.error error) s₂) :
      TableCourse (.error error) [a, b] s₂
  | commitUnread {facts : TableFacts} {derived : Dictionary String} {a b : Attempt}
      {schema properties : Run} {fault : Fault} {s₁ s₂ : Session}
      (prepared : c.prepared (table s.now) = .ok (facts, derived))
      (first : c.SchemaRan t timeout facts s a (.ok schema) s₁)
      (second : c.PropertiesRan t timeout derived s₁ b (.ok properties) s₂)
      (commit : (table s₂.now).lastCommit = .error fault) :
      TableCourse (.error (.fault fault)) [a, b] s₂
  | noCommit {facts : TableFacts} {derived : Dictionary String} {a b : Attempt}
      {schema properties : Run} {s₁ s₂ : Session}
      (prepared : c.prepared (table s.now) = .ok (facts, derived))
      (first : c.SchemaRan t timeout facts s a (.ok schema) s₁)
      (second : c.PropertiesRan t timeout derived s₁ b (.ok properties) s₂)
      (commit : (table s₂.now).lastCommit = .ok none) :
      TableCourse (.ok ⟨schema, properties, none, none⟩) [a, b] s₂
  | markerFailed {facts : TableFacts} {derived : Dictionary String} {a b m : Attempt}
      {schema properties : Run} {instant : String} {error : SyncError} {s₁ s₂ s₃ : Session}
      (prepared : c.prepared (table s.now) = .ok (facts, derived))
      (first : c.SchemaRan t timeout facts s a (.ok schema) s₁)
      (second : c.PropertiesRan t timeout derived s₁ b (.ok properties) s₂)
      (commit : (table s₂.now).lastCommit = .ok (some instant))
      (third : c.MarkerRan t timeout instant s₂ m (.error error) s₃) :
      TableCourse (.error error) [a, b, m] s₃
  | marked {facts : TableFacts} {derived : Dictionary String} {a b m : Attempt}
      {schema properties marker : Run} {instant : String} {s₁ s₂ s₃ : Session}
      (prepared : c.prepared (table s.now) = .ok (facts, derived))
      (first : c.SchemaRan t timeout facts s a (.ok schema) s₁)
      (second : c.PropertiesRan t timeout derived s₁ b (.ok properties) s₂)
      (commit : (table s₂.now).lastCommit = .ok (some instant))
      (third : c.MarkerRan t timeout instant s₂ m (.ok marker) s₃) :
      TableCourse (.ok ⟨schema, properties, some marker, some instant⟩) [a, b, m] s₃

theorem syncTable_course : c.TableCourse t timeout table s
    (c.syncTable.run t timeout table s).1 (c.syncTable.emissions t timeout table s)
    (c.syncTable.run t timeout table s).2 := by
  cases hf : (table s.now).facts with
  | error fault =>
    simp only [syncTable, Plan.run, Plan.emissions, hf]
    exact .unprepared (by simp only [prepared, hf])
  | ok facts =>
    cases hd : DerivedProperties.derive c.settings facts with
    | error fault =>
      simp only [syncTable, Plan.run, Plan.emissions, hf, hd]
      exact .unprepared (by simp only [prepared, hf, hd, Except.map])
    | ok derived =>
      have hp : c.prepared (table s.now) = .ok (facts, derived) := prepared_eq_ok_iff.mpr ⟨hf, hd⟩
      -- The sessions between the emissions get names, for the table may have changed by then.
      simp only [syncTable, emitSchema, Plan.run, Plan.emissions, hf, hd]
      cases h₁ : c.result "update_table_schema"
          (s.emit t timeout (c.publisher.schemaProposals facts.schema)).1.outcomes with
      | error error => exact .schemaFailed hp ⟨rfl, h₁, rfl⟩
      | ok schema =>
        generalize hs₁ : (s.emit t timeout (c.publisher.schemaProposals facts.schema)).2 = s₁
        simp only [emitProperties, Plan.run, Plan.emissions]
        cases h₂ : c.result "update_table_properties"
            (s₁.emit t timeout (c.propertiesBatch derived)).1.outcomes with
        | error error => exact .propertiesFailed hp ⟨rfl, h₁, hs₁⟩ ⟨rfl, h₂, rfl⟩
        | ok properties =>
          generalize hs₂ : (s₁.emit t timeout (c.propertiesBatch derived)).2 = s₂
          simp only [Plan.run, Plan.emissions]
          cases hc : (table s₂.now).lastCommit with
          | error fault => exact .commitUnread hp ⟨rfl, h₁, hs₁⟩ ⟨rfl, h₂, hs₂⟩ hc
          | ok commit =>
            cases commit with
            | none => exact .noCommit hp ⟨rfl, h₁, hs₁⟩ ⟨rfl, h₂, hs₂⟩ hc
            | some instant =>
              simp only [emitMarker, Plan.run, Plan.emissions]
              cases h₃ : c.result "update_last_commit_time_synced"
                  (s₂.emit t timeout (c.markerBatch instant)).1.outcomes with
              | error error =>
                exact .markerFailed hp ⟨rfl, h₁, hs₁⟩ ⟨rfl, h₂, hs₂⟩ hc ⟨rfl, h₃, rfl⟩
              | ok marker =>
                exact .marked hp ⟨rfl, h₁, hs₁⟩ ⟨rfl, h₂, hs₂⟩ hc ⟨rfl, h₃, rfl⟩

end

end Client

end LakeCatalog.Sync
