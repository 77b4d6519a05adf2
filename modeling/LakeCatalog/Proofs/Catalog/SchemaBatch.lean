import LakeCatalog.Proofs.Catalog.Store
import LakeCatalog.Proofs.Sync.TableSync
import LakeCatalog.Proofs.TableIdentity

/-!
# The batch that publishes a schema

The proposals that publish a schema are upserts of different documents: container and dataset are
different entities, and each aspect of either is proposed once. The catalog ends up with the same
documents in whatever order they arrive, and also if they arrive twice.
-/

namespace LakeCatalog

namespace Catalog.Publisher

variable (p : Publisher) (schema : Schema.TableSchema)

/-- The documents that a schema is published in. -/
lemma targets_schemaProposals : (p.schemaProposals schema).map Proposal.target =
    let status := if p.undoSoftDelete then ["status"] else []
    let domains := if p.domain.isSome then ["domains"] else []
    (["containerProperties", "subTypes", "browsePathsV2"] ++ status ++ domains).map
        (p.identity.container, ·) ++
      (status ++ ["subTypes", "browsePathsV2", "container", "schemaMetadata"] ++ domains).map
        (p.identity.dataset, ·) := by
  cases hu : p.undoSoftDelete <;> cases hd : p.domain <;>
    simp [schemaProposals, containerProposals, datasetProposals, containerAspects, datasetAspects,
      statusAspects, domainAspects, hu, hd, Proposal.target, Aspect.name]

lemma changeType_of_mem {q : Proposal} (h : q ∈ p.schemaProposals schema) :
    q.changeType = .upsert := by
  revert q
  cases hu : p.undoSoftDelete <;> cases hd : p.domain <;>
    simp [schemaProposals, containerProposals, datasetProposals, containerAspects, datasetAspects,
      statusAspects, domainAspects, hu, hd, Proposal.changeType, Aspect.changeType]

lemma schemaProposals_distinct (apart : p.identity.dataset ≠ p.identity.container) :
    (p.schemaProposals schema).Pairwise fun a b => a.target ≠ b.target := by
  have one_entity (entity : Urn) {names : List String} (distinct : names.Nodup) :
      (names.map fun name => (entity, name)).Nodup :=
    distinct.map fun _ _ same => congrArg Prod.snd same
  refine List.pairwise_map.mp ?_
  rw [targets_schemaProposals]
  refine List.nodup_append.mpr ⟨one_entity _ ?_, one_entity _ ?_, ?_⟩
  · cases p.undoSoftDelete <;> cases p.domain.isSome <;> decide
  · cases p.undoSoftDelete <;> cases p.domain.isSome <;> decide
  · intro a ha b hb same
    obtain ⟨_, -, rfl⟩ := List.mem_map.mp ha
    obtain ⟨_, -, rfl⟩ := List.mem_map.mp hb
    exact apart (congrArg Prod.fst same).symm

lemma schemaProposals_ordered :
    (p.schemaProposals schema).Pairwise fun a b => a.kind = .dataset → b.kind = .dataset := by
  refine List.pairwise_append.mpr ⟨?_, ?_, ?_⟩
  · exact List.pairwise_map.mpr (List.pairwise_of_forall fun _ _ impossible => by cases impossible)
  · exact List.pairwise_map.mpr (List.pairwise_of_forall fun _ _ _ => rfl)
  · intro a _ b hb _
    obtain ⟨_, -, rfl⟩ := List.mem_map.mp hb
    rfl

/-- Without a domain the proposals are those with one, except those that attach it. -/
lemma schemaProposals_without_domain : { p with domain := none }.schemaProposals schema =
    (p.schemaProposals schema).filter (·.aspect.name ≠ "domains") := by
  cases hu : p.undoSoftDelete <;> cases hd : p.domain <;>
    simp [schemaProposals, containerProposals, datasetProposals, containerAspects, datasetAspects,
      statusAspects, domainAspects, schemaAspect, hu, hd, Aspect.name]

lemma schemaProposals_without_status : { p with undoSoftDelete := false }.schemaProposals schema =
    (p.schemaProposals schema).filter (·.aspect.name ≠ "status") := by
  cases hu : p.undoSoftDelete <;> cases hd : p.domain <;>
    simp [schemaProposals, containerProposals, datasetProposals, containerAspects, datasetAspects,
      statusAspects, domainAspects, schemaAspect, hu, hd, Aspect.name]

end Catalog.Publisher

namespace SyncSettings

lemma domainUrn_eq_none {s : SyncSettings} (malformed : ∀ raw ∈ s.domain, Urn.isValid raw = false) :
    s.domainUrn = none := by
  unfold domainUrn
  split
  · rename_i raw hraw
    have invalid := malformed raw hraw
    rw [← Urn.parse?_isSome, Option.isSome_eq_false_iff, Option.isNone_iff_eq_none] at invalid
    split
    · exact invalid
    · rfl
  · rfl

end SyncSettings

namespace Sync.Client

open Catalog

lemma of_eq_ok_iff {s : SyncSettings} {c : Client} : Client.of s = .ok c ↔
    ∃ identity, s.identity = .ok identity ∧ c = ⟨s, .ofSettings s identity⟩ := by
  unfold Client.of
  rw [bind_eq_ok_iff]
  refine exists_congr fun identity => and_congr_right fun _ => ?_
  exact ⟨fun h => (Except.ok.inj h).symm, fun h => congrArg Except.ok h.symm⟩

/-- The proposals that publish a schema are upserts of different documents, those of the container
first. In whatever order they arrive, once or twice, they leave the same catalog, in which each of
these documents is as it is proposed. Without a domain that can be read, or without bringing back
what was deleted, only the proposals that do this are missing. -/
theorem schemaProposals_free_of_conflicts (s : SyncSettings) {c : Client}
    (accepted : Client.of s = .ok c) (schema : Schema.TableSchema) :
    let batch := c.publisher.schemaProposals schema
    let status := if s.undoSoftDelete then ["status"] else []
    let domains := if s.domainUrn.isSome then ["domains"] else []
    batch.map (fun p => (p.entity, p.aspect.name)) =
      (["containerProperties", "subTypes", "browsePathsV2"] ++ status ++ domains).map
          (c.identity.container, ·) ++
        (status ++ ["subTypes", "browsePathsV2", "container", "schemaMetadata"] ++ domains).map
          (c.identity.dataset, ·) ∧
    (∀ p ∈ batch, p.changeType = .upsert) ∧
    batch.Pairwise (fun p q => p.kind = .dataset → q.kind = .dataset) ∧
    batch.Pairwise (fun p q => (p.entity, p.aspect.name) ≠ (q.entity, q.aspect.name)) ∧
    (∀ (store : Store) (order : List Proposal), order.Perm batch →
      store.applyAll order = store.applyAll batch ∧
      (store.applyAll batch).applyAll order = store.applyAll batch ∧
      ∀ p ∈ batch, store.applyAll order p.entity p.aspect.name = some p.aspect.wireValue) ∧
    (∀ domain : Option String, (∀ raw ∈ domain, Urn.isValid raw = false) →
      ∃ c', Client.of { s with domain } = .ok c' ∧
        c'.publisher.schemaProposals schema = batch.filter (·.aspect.name ≠ "domains")) ∧
    ∃ c', Client.of { s with undoSoftDelete := false } = .ok c' ∧
      c'.publisher.schemaProposals schema = batch.filter (·.aspect.name ≠ "status") := by
  intro batch status domains
  obtain ⟨identity, named, rfl⟩ := of_eq_ok_iff.mp accepted
  have upserts : ∀ p ∈ batch, p.changeType = .upsert := fun p hp =>
    Publisher.changeType_of_mem _ schema hp
  have distinct : batch.Pairwise fun p q => p.target ≠ q.target :=
    Publisher.schemaProposals_distinct _ schema (TableIdentity.dataset_ne_container named)
  refine ⟨Publisher.targets_schemaProposals _ schema, upserts,
    Publisher.schemaProposals_ordered _ schema, distinct, ?_, ?_, ?_⟩
  · intro store order perm
    have same := store.applyAll_of_perm distinct perm
    refine ⟨same, ?_, fun p hp => ?_⟩
    · rw [Store.applyAll_of_perm _ distinct perm, store.applyAll_twice distinct upserts]
    · rw [same, store.applyAll_of_mem distinct hp]
      exact Proposal.documentAfter_of_upsert (upserts p hp) _
  · intro domain malformed
    refine ⟨_, of_eq_ok_iff.mpr ⟨identity, named, rfl⟩, ?_⟩
    have without : ({ s with domain } : SyncSettings).domainUrn = none :=
      SyncSettings.domainUrn_eq_none malformed
    rw [← Publisher.schemaProposals_without_domain, Publisher.ofSettings, without]
    rfl
  · refine ⟨_, of_eq_ok_iff.mpr ⟨identity, named, rfl⟩, ?_⟩
    rw [← Publisher.schemaProposals_without_status]
    rfl

/-- The eleven proposals of a schema with a domain can arrive backwards. -/
theorem schemaProposals_free_of_conflicts_of_orders :
    let s := { (Client.ofOrders true).settings with domain := some "urn:li:domain:finance" }
    ∃ c, Client.of s = .ok c ∧
      let batch := c.publisher.schemaProposals ordersFacts.schema
      batch.length = 11 ∧ ∀ store : Store, store.applyAll batch.reverse = store.applyAll batch := by
  intro s
  have counted : (Client.of s).map
      (fun c => (c.publisher.schemaProposals ordersFacts.schema).length) = .ok 11 := by
    decide +kernel
  cases accepted : Client.of s with
  | error fault => rw [accepted] at counted; cases counted
  | ok c =>
    rw [accepted] at counted
    obtain ⟨-, -, -, -, orders, -⟩ :=
      schemaProposals_free_of_conflicts s accepted ordersFacts.schema
    refine ⟨c, rfl, Except.ok.inj counted, fun store => ?_⟩
    exact (orders store _ (List.reverse_perm _)).1

end Sync.Client

end LakeCatalog
