import LakeCatalog.Proofs.Sync.Sequencing
import LakeCatalog.Proofs.Sync.TableSync
import LakeCatalog.Proofs.Table.DerivedProperties

/-!
# What the marker records

A full sync reads the facts of the table once, when it starts, and the last commit once, when the
schema and the properties are out. The marker therefore records the last commit of the table as it
is by then. That is the last commit of what was published if no commit was completed in between, and
a later one otherwise.
-/

namespace LakeCatalog.Sync

open Catalog Emission

namespace Client

lemma schemaProposals_ne_markerBatch (c : Client) (schema : Schema.TableSchema) (instant : String) :
    c.publisher.schemaProposals schema ≠ c.markerBatch instant := by
  intro same
  have aspect := congrArg Proposal.aspect (List.cons.inj same).1
  cases aspect

/-- The properties of a table name the classes of its file format, and a marker names none. -/
lemma propertiesBatch_ne_markerBatch {c : Client} {facts : TableFacts} {derived : Dictionary String}
    (derives : DerivedProperties.derive c.settings facts = .ok derived) (instant : String) :
    c.propertiesBatch derived ≠ c.markerBatch instant := by
  intro same
  have aspect := congrArg Proposal.aspect (List.cons.inj same).1
  simp only [Publisher.propertiesProposal, Aspect.properties.injEq, PropertiesPatch.mk.injEq,
    true_and] at aspect
  obtain ⟨user, format, readers, -, -, -, rfl⟩ := DerivedProperties.derive_eq_ok derives
  have named := congrArg (·.get? "inputFormat") aspect
  simp only [Dictionary.get?_insertMany, Dictionary.get?_ofList] at named
  simp [DerivedProperties.formatEntries, lookup_cons_entry, lastCommitKey] at named

lemma markerBatch_injective (c : Client) : Function.Injective c.markerBatch := by
  intro instant instant' same
  have aspect := congrArg Proposal.aspect (List.cons.inj same).1
  simp only [Publisher.propertiesProposal, Aspect.properties.injEq, PropertiesPatch.mk.injEq,
    true_and] at aspect
  have recorded := congrArg (·.get? lastCommitKey) aspect
  simpa [Dictionary.get?_ofList, lookup_cons_entry] using recorded

lemma Ran.start {c : Client} {t : Transport} {timeout : Duration} {operation : String}
    {batch : List Proposal} {s after : Session} {a : Attempt} {result : Except SyncError Run}
    (h : c.Ran t timeout operation batch s a result after) : a.start = s.now := by
  rw [← h.emission]
  rfl

/-- The emissions of a full sync that comes as far as a marker: the schema and the properties of the
table as it is at the start, then the marker. -/
structure Marks (c : Client) (table : History) (s : Session) (facts : TableFacts)
    (derived : Dictionary String) (instant : String) (a b m : Attempt) : Prop where
  read : (table s.now).facts = .ok facts
  derives : DerivedProperties.derive c.settings facts = .ok derived
  schema : a.proposals = c.publisher.schemaProposals facts.schema
  properties : b.proposals = c.propertiesBatch derived
  marker : m.proposals = c.markerBatch instant
  first : a.start = s.now
  second : b.start = a.start + a.batch.duration
  third : m.start = b.start + b.batch.duration
  commit : (table m.start).lastCommit = .ok (some instant)
  succeeded : c.settings.policy = .propagateFirstError → a.Succeeded ∧ b.Succeeded

section

variable {c : Client} {t : Transport} {timeout : Duration} {table : History} {s ended : Session}
  {result : Except SyncError TableReport} {emitted : List Attempt}

lemma marks_of_ran {facts : TableFacts} {derived : Dictionary String} {instant : String}
    {a b m : Attempt} {schema properties : Run} {marker : Except SyncError Run}
    {s₁ s₂ s₃ : Session} (prepared : c.prepared (table s.now) = .ok (facts, derived))
    (first : c.SchemaRan t timeout facts s a (.ok schema) s₁)
    (second : c.PropertiesRan t timeout derived s₁ b (.ok properties) s₂)
    (commit : (table s₂.now).lastCommit = .ok (some instant))
    (third : c.MarkerRan t timeout instant s₂ m marker s₃) :
    c.Marks table s facts derived instant a b m := by
  obtain ⟨read, derives⟩ := prepared_eq_ok_iff.mp prepared
  exact {
    read, derives
    schema := first.proposals
    properties := second.proposals
    marker := third.proposals
    first := first.start
    second := second.start.trans first.now_after
    third := third.start.trans second.now_after
    commit := third.start ▸ commit
    succeeded := fun propagates => ⟨first.of_ok.2 propagates, second.of_ok.2 propagates⟩ }

/-- A marker is emitted third and last. -/
lemma TableCourse.marks (course : c.TableCourse t timeout table s result emitted ended)
    {m : Attempt} {instant : String} (emits : m ∈ emitted)
    (marker : m.proposals = c.markerBatch instant) :
    ∃ facts derived a b, emitted = [a, b, m] ∧ c.Marks table s facts derived instant a b m := by
  -- The other emissions publish something else, so the marker is none of them.
  have schema_ne {facts : TableFacts} {s₁ s₂ : Session} {a : Attempt} {run : Except SyncError Run}
      (ran : c.SchemaRan t timeout facts s₁ a run s₂) : m ≠ a := by
    rintro rfl
    exact c.schemaProposals_ne_markerBatch _ instant (ran.proposals.symm.trans marker)
  have properties_ne {facts : TableFacts} {derived : Dictionary String} {s₁ s₂ : Session}
      {b : Attempt} {run : Except SyncError Run}
      (prepared : c.prepared (table s.now) = .ok (facts, derived))
      (ran : c.PropertiesRan t timeout derived s₁ b run s₂) : m ≠ b := by
    rintro rfl
    exact propertiesBatch_ne_markerBatch (prepared_eq_ok_iff.mp prepared).2 instant
      (ran.proposals.symm.trans marker)
  have none_of_two {facts : TableFacts} {derived : Dictionary String} {s₁ s₂ s₃ : Session}
      {a b : Attempt} {run run' : Except SyncError Run}
      (prepared : c.prepared (table s.now) = .ok (facts, derived))
      (first : c.SchemaRan t timeout facts s a run s₁)
      (second : c.PropertiesRan t timeout derived s₂ b run' s₃) : m ∉ [a, b] := by
    simp [schema_ne first, properties_ne prepared second]
  have third_of_three {facts : TableFacts} {derived : Dictionary String} {found : String}
      {schema properties : Run} {run : Except SyncError Run} {a b m' : Attempt}
      {s₁ s₂ s₃ : Session} (prepared : c.prepared (table s.now) = .ok (facts, derived))
      (first : c.SchemaRan t timeout facts s a (.ok schema) s₁)
      (second : c.PropertiesRan t timeout derived s₁ b (.ok properties) s₂)
      (commit : (table s₂.now).lastCommit = .ok (some found))
      (third : c.MarkerRan t timeout found s₂ m' run s₃) (emits : m ∈ [a, b, m']) :
      ∃ facts derived a' b', [a, b, m'] = [a', b', m] ∧
        c.Marks table s facts derived instant a' b' m := by
    obtain rfl : m = m' := by
      simpa [schema_ne first, properties_ne prepared second] using emits
    obtain rfl : found = instant :=
      c.markerBatch_injective (third.proposals.symm.trans marker)
    exact ⟨_, _, _, _, rfl, marks_of_ran prepared first second commit third⟩
  cases course with
  | unprepared => cases emits
  | schemaFailed _ first => exact absurd (List.mem_singleton.mp emits) (schema_ne first)
  | propertiesFailed prepared first second | commitUnread prepared first second
  | noCommit prepared first second => exact absurd emits (none_of_two prepared first second)
  | markerFailed prepared first second commit third | marked prepared first second commit third =>
    exact third_of_three prepared first second commit third emits

end

/-- The last commit of a table never goes back. -/
def CommitsGrow (table : History) : Prop :=
  ∀ ⦃time later : Duration⦄ ⦃instant instant' : String⦄, time ≤ later →
    (table time).lastCommit = .ok (some instant) → (table later).lastCommit = .ok (some instant') →
      instant ≤ instant'

/-- If a full sync emits a marker, it does so third and last: once the schema and the properties of
the table as it was at the start are out, on a channel for each, and where errors are propagated
only after all of them succeeded. What the marker records is the last commit of the table at the
instant at which it is emitted itself. So it is the last commit of what was published exactly if the
last commit was the same at both instants, and it is never behind that as long as commits grow. -/
theorem marker_records_commit_at_its_own_instant (c : Client) (t : Transport) (timeout : Duration)
    (table : History) (s : Session) {m : Attempt} {instant : String}
    (emits : m ∈ c.syncTable.emissions t timeout table s)
    (marker : m.proposals = c.markerBatch instant) :
    ∃ facts derived a b, c.syncTable.emissions t timeout table s = [a, b, m] ∧
      c.Marks table s facts derived instant a b m ∧
      ((table s.now).lastCommit = .ok (some instant) ↔
        (table s.now).lastCommit = (table m.start).lastCommit) ∧
      ∀ published, (table s.now).lastCommit = .ok (some published) → CommitsGrow table →
        published ≤ instant := by
  obtain ⟨facts, derived, a, b, emitted, marks⟩ :=
    (c.syncTable_course t timeout table s).marks emits marker
  refine ⟨facts, derived, a, b, emitted, marks, ?_, ?_⟩
  · rw [marks.commit]
  · intro published known grow
    have later : s.now ≤ m.start := by
      rw [marks.third, marks.second, marks.first, Duration.le_iff, Duration.nanoseconds_add,
        Duration.nanoseconds_add]
      omega
    exact grow later known marks.commit

/-- The table `orders`, which is written at an instant: a commit is completed, and the table has
another version from then on. -/
def ordersHistory (change : Duration) (before after : String) : History := fun time =>
  if time < change then ⟨.ok ordersFacts, .ok (some before)⟩
  else ⟨.ok { ordersFacts with version := "8" }, .ok (some after)⟩

/-- A marker that is emitted two seconds after the start records the commit that was completed a
second before, which comes after that of the published properties. -/
theorem marker_records_commit_of_orders :
    let c := Client.ofOrders false
    let table := ordersHistory (.ofSeconds 1) "20240502100000000" "20240503090000000"
    let t : Transport := .behaving fun n => .resolves (if n = 9 then .ofSeconds 2 else .zero) none
    ∃ m ∈ c.syncTable.emissions t (.ofSeconds 30) table .start,
      m.proposals = c.markerBatch "20240503090000000" ∧ m.start = .ofSeconds 2 ∧
      ∃ a b : Attempt, a.Succeeded ∧ b.Succeeded ∧
        c.syncTable.emissions t (.ofSeconds 30) table .start = [a, b, m] ∧
        (table .zero).lastCommit ≠ .ok (some "20240503090000000") := by
  intro c table t
  generalize emissions : c.syncTable.emissions t (.ofSeconds 30) table .start = emitted
  have course : emitted.map (·.start) = [.zero, .zero, .ofSeconds 2] ∧
      emitted[2]?.map (·.proposals) = some (c.markerBatch "20240503090000000") := by
    rw [← emissions]
    decide +kernel
  obtain ⟨starts, marker⟩ := course
  obtain ⟨m, third, marker⟩ := Option.map_eq_some_iff.mp marker
  have emits : m ∈ emitted := List.mem_of_getElem? third
  obtain ⟨facts, derived, a, b, listed, marks, same, -⟩ :=
    marker_records_commit_at_its_own_instant c t (.ofSeconds 30) table .start
      (emissions ▸ emits) marker
  rw [emissions] at listed
  obtain ⟨schema, properties⟩ := marks.succeeded rfl
  have start : m.start = .ofSeconds 2 := by
    rw [listed] at starts
    exact (List.cons.inj (List.cons.inj (List.cons.inj starts).2).2).1
  refine ⟨m, emits, marker, start, a, b, schema, properties, listed, fun known => ?_⟩
  have unchanged := same.mp known
  rw [start] at unchanged
  revert unchanged
  decide +kernel

/-- A commit that is completed while a full sync is under way is recorded although the schema and
the properties that were published are those of the table before it. So is one whose schema and
properties the catalog refuses where errors are suppressed: what is published then is still what the
sync before read. -/
theorem marker_ahead_of_published :
    let c := Client.ofOrders true
    let table := ordersHistory (.ofSeconds 1) "20240502100000000" "20240503090000000"
    let schema := c.publisher.schemaProposals ordersFacts.schema
    let derived := (DerivedProperties.derive c.settings ordersFacts).toOption.getD .empty
    ((table .zero).lastCommit = .ok (some "20240502100000000") ∧
      let t : Transport := .behaving fun n => .resolves (if n = 9 then .ofSeconds 2 else .zero) none
      let emitted := c.syncTable.emissions t (.ofSeconds 30) table .start
      emitted.map (·.accepted) =
        [schema, c.propertiesBatch derived, c.markerBatch "20240503090000000"]) ∧
    let t : Transport := .behaving fun n =>
      if n < 10 then .resolves .zero none
      else if n = 10 then .resolves (.ofSeconds 1) none
      else if n < 21 then .resolves .zero (some (.rejected 500 ""))
      else .resolves .zero none
    let before := c.syncTable.run t (.ofSeconds 30) table .start
    (c.syncTable.emissions t (.ofSeconds 30) table .start).map (·.accepted) =
      [schema, c.propertiesBatch derived, c.markerBatch "20240502100000000"] ∧
    (c.syncTable.emissions t (.ofSeconds 30) table before.2).map (·.accepted) =
      [[], [], c.markerBatch "20240503090000000"] := by
  decide +kernel

end Client

end LakeCatalog.Sync
