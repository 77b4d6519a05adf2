import LakeCatalog.Proofs.Catalog.PropertiesPatch
import LakeCatalog.Proofs.Catalog.SchemaBatch
import LakeCatalog.Proofs.Sync.Sequencing
import LakeCatalog.Proofs.Table.DerivedProperties

/-!
# The partition columns in the catalog

A full sync that succeeds patches the document about the properties of its dataset twice, with the
derived properties and with the marker, and leaves it alone otherwise. Patches only add. So the
partition columns that are read from the document afterwards are those of the last sync that found
the table partitioned: a table that is no longer partitioned keeps the columns that it had.
-/

namespace LakeCatalog

namespace Catalog

namespace Store

def Keeps (store : Store) (dataset : Urn) (d : PropertiesDocument) : Prop :=
  store dataset "datasetProperties" = some d.json

variable {store : Store} {dataset : Urn} {d : PropertiesDocument}

lemma Keeps.applyAll_upserts (keeps : store.Keeps dataset d) {batch : List Proposal}
    (upserts : ∀ q ∈ batch, q.changeType = .upsert) : (store.applyAll batch).Keeps dataset d := by
  refine (store.applyAll_of_notMem fun q hq same => ?_).trans keeps
  exact Proposal.aspect_ne_of_upsert (upserts q hq) (congrArg Prod.snd same).symm

lemma Keeps.applyAll_patch {p : Publisher} (keeps : store.Keeps p.identity.dataset d)
    (name : Option String) (properties : Dictionary String) :
    (store.applyAll [p.propertiesProposal name properties]).Keeps p.identity.dataset
      (d.patched ⟨name, properties⟩) := by
  have patches := d.patched?_of_perm (p := ⟨name, properties⟩) (List.Perm.refl _)
  refine (store.apply_target (p.propertiesProposal name properties)).trans ?_
  rw [show store (p.propertiesProposal name properties).entity
    (p.propertiesProposal name properties).aspect.name = some d.json from keeps]
  exact congrArg (Option.or · (some d.json)) patches

end Store

end Catalog

namespace Sync

open Catalog Emission Spark

/-- A full sync that succeeds altogether, with the facts that it reads and what it derives. -/
structure CompleteSync where
  client : Client
  transport : Transport
  timeout : Duration
  table : History
  session : Session
  facts : TableFacts
  derived : Dictionary String
  report : TableReport
  prepared : client.prepared (table session.now) = .ok (facts, derived)
  reported : (client.syncTable.run transport timeout table session).1 = .ok report
  succeeded : report.isSuccess = true

namespace CompleteSync

variable (y : CompleteSync)

def dataset : Urn := y.client.identity.dataset

def partitionFields : List String := DerivedProperties.partitionFields y.client.settings y.facts

def leavesSchema : Bool :=
  KeyValues.leavesSchema y.client.settings.tableProperties &&
    KeyValues.leavesSchema y.client.settings.serdeProperties

/-- The proposals that the catalog accepted in the course of the sync, in order. -/
def accepted : List Proposal :=
  (y.client.syncTable.emissions y.transport y.timeout y.table y.session).flatMap Attempt.accepted

/-- The catalog accepts the schema in some order, then the properties, then the marker if there is
a commit. -/
lemma accepted_eq : ∃ schema, schema.Perm (y.client.publisher.schemaProposals y.facts.schema) ∧
    ∃ commit : Option String, y.accepted = schema ++
      (y.client.propertiesBatch y.derived ++ commit.toList.flatMap y.client.markerBatch) := by
  have course := y.client.syncTable_course y.transport y.timeout y.table y.session
  rw [y.reported] at course
  have success := course.isSuccess_iff.mp y.succeeded
  have accepts : ∀ a ∈ y.client.syncTable.emissions y.transport y.timeout y.table y.session,
      a.accepted.Perm a.proposals := by
    intro a ha
    obtain ⟨opens, count, batch⟩ := Plan.batch_of_mem_emissions _ _ _ _ _ ha
    exact Attempt.accepted_perm batch (success a ha)
  obtain ⟨a, b, last, emitted, schema, properties, rest⟩ :=
    course.attemptsAll (fun failure failed => by cases failed) y.prepared
  rw [emitted] at accepts
  -- The schema can be accepted in any order, but a batch of one proposal has only one.
  have patch {e : Attempt} (he : e ∈ a :: b :: last) {properties : Dictionary String}
      (proposals : e.proposals = y.client.propertiesBatch properties) :
      e.accepted = y.client.propertiesBatch properties := by
    have perm := accepts e he
    rw [proposals] at perm
    exact List.perm_singleton.mp perm
  refine ⟨a.accepted, schema ▸ accepts a (by simp), ?_⟩
  have second := patch (by simp) properties
  rw [accepted, emitted, List.flatMap_cons, List.flatMap_cons, second]
  split at rest
  · cases rest.2
  · rename_i commit _
    refine ⟨commit, ?_⟩
    cases commit with
    | none =>
      rw [List.forall₂_nil_right_iff.mp rest.1]
      rfl
    | some instant =>
      obtain ⟨m, _, marker, nothing, hlast⟩ := List.forall₂_cons_right_iff.mp rest.1
      rw [List.forall₂_nil_right_iff.mp nothing] at hlast
      have third : m.accepted = y.client.markerBatch instant := patch (by simp [hlast]) marker
      rw [hlast, List.flatMap_singleton, third]
      rfl

variable {y} {store : Store} {dataset : Urn} {d : PropertiesDocument}

/-- A full sync overrides the properties about the schema by those that it derives. -/
lemma keeps_overridden (keeps : store.Keeps y.dataset d) : ∃ e : PropertiesDocument,
    (store.applyAll y.accepted).Keeps y.dataset e ∧ ∀ suffix, e.property? (schemaKey suffix) =
      (y.derived.get? (schemaKey suffix)).or (d.property? (schemaKey suffix)) := by
  obtain ⟨schema, perm, commit, accepted⟩ := y.accepted_eq
  have upserts : ∀ q ∈ schema, q.changeType = .upsert := fun q hq =>
    y.client.publisher.changeType_of_mem y.facts.schema (perm.mem_iff.mp hq)
  have patched : ((store.applyAll schema).applyAll (y.client.propertiesBatch y.derived)).Keeps
      y.dataset (d.patched ⟨some y.client.identity.table, y.derived⟩) :=
    (keeps.applyAll_upserts upserts).applyAll_patch _ _
  rw [accepted, Store.applyAll, List.foldl_append, List.foldl_append]
  cases commit with
  | none =>
    exact ⟨_, patched, fun suffix => d.property?_patched _ _⟩
  | some instant =>
    refine ⟨_, patched.applyAll_patch _ (.ofList [(lastCommitKey, instant)]), fun suffix => ?_⟩
    have other : ∀ e ∈ [(lastCommitKey, instant)].reverse, isSchemaKey e.1 = false := by
      have fixed : isSchemaKey lastCommitKey = false := by decide +kernel
      simp [fixed]
    have unmarked := lookup_schemaKey_eq_none other suffix
    rw [PropertiesDocument.property?_patched, PropertiesDocument.property?_patched,
      Dictionary.get?_ofList, unmarked, Option.none_or]

def partitionsAfter (before : Option (List String)) (y : CompleteSync) : Option (List String) :=
  if y.partitionFields = [] then before else some y.partitionFields

lemma keeps_partitions (keeps : store.Keeps y.dataset d) (leaves : y.leavesSchema = true) :
    ∃ e : PropertiesDocument, (store.applyAll y.accepted).Keeps y.dataset e ∧
      recordedPartitions? e.property? = partitionsAfter (recordedPartitions? d.property?) y := by
  obtain ⟨user, readers⟩ := Bool.and_eq_true_iff.mp leaves
  have derives := (Client.prepared_eq_ok_iff.mp y.prepared).2
  obtain ⟨e, kept, overridden⟩ := keeps_overridden keeps
  exact ⟨e, kept, DerivedProperties.recordedPartitions?_derived derives user readers overridden⟩

/-- Of full syncs one after the other those that find the table partitioned count, the last most. -/
lemma keeps_partitions_of_syncs (syncs : List CompleteSync)
    (same : ∀ y ∈ syncs, y.dataset = dataset) (leaves : ∀ y ∈ syncs, y.leavesSchema = true)
    (keeps : store.Keeps dataset d) :
    ∃ e : PropertiesDocument,
      (syncs.foldl (fun store y => store.applyAll y.accepted) store).Keeps dataset e ∧
      recordedPartitions? e.property? =
        syncs.foldl partitionsAfter (recordedPartitions? d.property?) := by
  induction syncs generalizing store d with
  | nil => exact ⟨d, keeps, rfl⟩
  | cons y rest ih =>
    obtain ⟨of_y, of_rest⟩ := List.forall_mem_cons.mp same
    obtain ⟨leaves_y, leaves_rest⟩ := List.forall_mem_cons.mp leaves
    subst of_y
    obtain ⟨e, kept, read⟩ := keeps_partitions keeps leaves_y
    rw [List.foldl_cons, List.foldl_cons, ← read]
    exact ih of_rest leaves_rest kept

lemma exists_of_success {c : Client} {t : Transport} {timeout : Duration} {table : History}
    {s : Session} (success : (c.syncTable.run t timeout table s).1.map TableReport.isSuccess =
      .ok true) :
    ∃ y : CompleteSync, y.client = c ∧ (table s.now).facts = .ok y.facts := by
  cases reported : (c.syncTable.run t timeout table s).1 with
  | error error => rw [reported] at success; cases success
  | ok report =>
    rw [reported] at success
    have course := c.syncTable_course t timeout table s
    rw [reported] at course
    obtain ⟨facts, derived, prepared⟩ := course.exists_prepared
    exact ⟨⟨c, t, timeout, table, s, facts, derived, report, prepared, reported,
      Except.ok.inj success⟩, rfl, (Client.prepared_eq_ok_iff.mp prepared).1⟩

end CompleteSync

/-- After two full syncs of a table that both succeed, the partition columns that are read from the
document about its properties are those that the second one found. If it found none, it derives no
property about partition columns, and they are those that the first one found, and if that found
none either, they are as they were before. -/
theorem partitions_read_after_syncs (first second : CompleteSync)
    (same : first.dataset = second.dataset) (leaves : first.leavesSchema = true)
    (leaves' : second.leavesSchema = true) {store : Store} {d : PropertiesDocument}
    (keeps : store.Keeps first.dataset d) :
    (second.partitionFields = [] → ∀ suffix, Belongs "numPartCols" "partCol" suffix →
      second.derived.get? (schemaKey suffix) = none) ∧
    ∃ e : PropertiesDocument,
      ((store.applyAll first.accepted).applyAll second.accepted).Keeps first.dataset e ∧
      recordedPartitions? e.property? =
        if second.partitionFields ≠ [] then some second.partitionFields
        else if first.partitionFields ≠ [] then some first.partitionFields
        else recordedPartitions? d.property? := by
  obtain ⟨e, kept, read⟩ := CompleteSync.keeps_partitions_of_syncs [first, second]
    (by simp [same]) (by simp [leaves, leaves']) keeps
  refine ⟨fun unpartitioned suffix column => ?_, e, kept, read.trans ?_⟩
  · obtain ⟨user, readers⟩ := Bool.and_eq_true_iff.mp leaves'
    have derives := (Client.prepared_eq_ok_iff.mp second.prepared).2
    exact DerivedProperties.get?_derive_unpartitioned derives user readers unpartitioned column
  · simp only [List.foldl_cons, List.foldl_nil, CompleteSync.partitionsAfter, ite_not]

def ordersBy (fields : List String) : History := fun _ =>
  ⟨.ok { Client.ordersFacts with partitionFields := fields }, .ok (some "20240502100000000")⟩

lemma CompleteSync.exists_of_orders (fields : List String) (success :
    ((Client.ofOrders true).syncTable.run (.behaving fun _ => .resolves .zero none)
      (.ofSeconds 30) (ordersBy fields) .start).1.map TableReport.isSuccess = .ok true) :
    ∃ y : CompleteSync, y.dataset = (Client.ofOrders true).identity.dataset ∧
      y.leavesSchema = true ∧ y.partitionFields = fields := by
  have leaves : KeyValues.leavesSchema "" = true := by decide +kernel
  obtain ⟨y, client, read⟩ := exists_of_success success
  refine ⟨y, congrArg (·.identity.dataset) client, ?_, ?_⟩
  · rw [leavesSchema, client]
    exact Bool.and_eq_true_iff.mpr ⟨leaves, leaves⟩
  · rw [partitionFields, client, ← Except.ok.inj read]
    rfl

/-- A table that loses one of its partition columns is read with the other one alone. -/
theorem partitions_read_after_syncs_of_orders :
    let store : Store := fun _ _ => some PropertiesDocument.blank.json
    ∃ first second : CompleteSync, first.dataset = second.dataset ∧
      first.leavesSchema = true ∧ second.leavesSchema = true ∧
      first.partitionFields = ["region", "dt"] ∧ second.partitionFields = ["dt"] ∧
      store.Keeps first.dataset .blank ∧ ∃ e : PropertiesDocument,
        ((store.applyAll first.accepted).applyAll second.accepted).Keeps first.dataset e ∧
          recordedPartitions? e.property? = some ["dt"] := by
  intro store
  obtain ⟨first, dataset, leaves, fields⟩ :=
    CompleteSync.exists_of_orders ["region", "dt"] (by decide +kernel)
  obtain ⟨second, dataset', leaves', fields'⟩ :=
    CompleteSync.exists_of_orders ["dt"] (by decide +kernel)
  have same : first.dataset = second.dataset := dataset.trans dataset'.symm
  have keeps : store.Keeps first.dataset .blank := rfl
  obtain ⟨-, e, kept, read⟩ := partitions_read_after_syncs first second same leaves leaves' keeps
  rw [fields'] at read
  exact ⟨first, second, same, leaves, leaves', fields, fields', keeps, e, kept, read⟩

/-- The partition columns that are read are not always those of the last sync: those of an earlier
one outlive the partitioning. -/
theorem partitions_outlive_partitioning : ¬ ∀ first second : CompleteSync,
    first.dataset = second.dataset → first.leavesSchema = true → second.leavesSchema = true →
    ∀ (store : Store) (d e : PropertiesDocument), store.Keeps first.dataset d →
      ((store.applyAll first.accepted).applyAll second.accepted).Keeps first.dataset e →
      recordedPartitions? e.property? = some second.partitionFields := by
  intro always
  obtain ⟨first, dataset, leaves, fields⟩ :=
    CompleteSync.exists_of_orders ["dt"] (by decide +kernel)
  obtain ⟨second, dataset', leaves', fields'⟩ :=
    CompleteSync.exists_of_orders [] (by decide +kernel)
  let store : Store := fun _ _ => some PropertiesDocument.blank.json
  have keeps : store.Keeps first.dataset .blank := rfl
  have same : first.dataset = second.dataset := dataset.trans dataset'.symm
  obtain ⟨e, kept, read⟩ := CompleteSync.keeps_partitions_of_syncs [first, second]
    (by simp [same]) (by simp [leaves, leaves']) keeps
  have claimed := always first second same leaves leaves' store .blank e keeps kept
  have stale : recordedPartitions? e.property? = some ["dt"] := by
    rw [read]
    simp [CompleteSync.partitionsAfter, fields, fields']
  rw [stale, fields'] at claimed
  cases claimed

end Sync

end LakeCatalog
