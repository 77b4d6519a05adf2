import LakeCatalog.Catalog.Store
import Mathlib.Data.List.Perm.Basic
import Mathlib.Tactic.Common

/-!
# Proposals without conflicts

In a batch in which no two proposals concern the same document, every proposal meets the document
that was there before the batch, whatever comes before it. So the order of the batch does not
matter. Upserts do not even depend on what they meet, so a batch of them can be applied again.
-/

namespace LakeCatalog.Catalog

lemma Proposal.documentAfter_of_upsert {p : Proposal} (upsert : p.changeType = .upsert)
    (found : Option Json) : p.documentAfter found = some p.aspect.wireValue := by
  simp only [documentAfter, upsert]

/-- No upsert concerns the properties of a dataset. -/
lemma Proposal.aspect_ne_of_upsert {p : Proposal} (upsert : p.changeType = .upsert) :
    p.aspect.name ≠ "datasetProperties" := by
  rcases p with ⟨kind, entity, aspect⟩
  cases aspect <;> simp_all [Proposal.changeType, Aspect.changeType, Aspect.name]

namespace Store

variable (store : Store)

lemma apply_target (p : Proposal) :
    store.apply p p.entity p.aspect.name = p.documentAfter (store p.entity p.aspect.name) :=
  if_pos rfl

lemma apply_of_ne {p : Proposal} {entity : Urn} {aspect : String}
    (other : (entity, aspect) ≠ p.target) : store.apply p entity aspect = store entity aspect :=
  if_neg other

lemma applyAll_of_notMem {batch : List Proposal} {entity : Urn} {aspect : String}
    (others : ∀ p ∈ batch, (entity, aspect) ≠ p.target) :
    store.applyAll batch entity aspect = store entity aspect := by
  induction batch generalizing store with
  | nil => rfl
  | cons p rest ih =>
    have later := ih (store.apply p) fun q hq => others q (List.mem_cons_of_mem p hq)
    exact later.trans (store.apply_of_ne (others p List.mem_cons_self))

/-- Where no two proposals concern the same document each of them meets the document that was there
before the batch. -/
lemma applyAll_of_mem {batch : List Proposal}
    (distinct : batch.Pairwise fun p q => p.target ≠ q.target) {p : Proposal} (hp : p ∈ batch) :
    store.applyAll batch p.entity p.aspect.name =
      p.documentAfter (store p.entity p.aspect.name) := by
  induction batch generalizing store with
  | nil => cases hp
  | cons q rest ih =>
    obtain ⟨first, others⟩ := List.pairwise_cons.mp distinct
    rcases List.mem_cons.mp hp with rfl | hp
    · exact ((store.apply p).applyAll_of_notMem first).trans (store.apply_target p)
    · have met : store.apply q p.entity p.aspect.name = store p.entity p.aspect.name :=
        store.apply_of_ne (first p hp).symm
      exact (ih (store.apply q) others hp).trans (congrArg p.documentAfter met)

lemma applyAll_of_perm {batch order : List Proposal}
    (distinct : batch.Pairwise fun p q => p.target ≠ q.target) (perm : order.Perm batch) :
    store.applyAll order = store.applyAll batch := by
  have distinct' : order.Pairwise fun p q => p.target ≠ q.target :=
    perm.symm.pairwise distinct fun h => h.symm
  funext entity aspect
  by_cases concerned : ∃ p ∈ batch, (entity, aspect) = p.target
  · obtain ⟨p, hp, same⟩ := concerned
    cases same
    rw [store.applyAll_of_mem distinct hp, store.applyAll_of_mem distinct' (perm.mem_iff.mpr hp)]
  · have others : ∀ p ∈ batch, (entity, aspect) ≠ p.target := fun p hp same =>
      concerned ⟨p, hp, same⟩
    rw [store.applyAll_of_notMem others,
      store.applyAll_of_notMem fun p hp => others p (perm.mem_iff.mp hp)]

lemma applyAll_twice {batch : List Proposal}
    (distinct : batch.Pairwise fun p q => p.target ≠ q.target)
    (upserts : ∀ p ∈ batch, p.changeType = .upsert) :
    (store.applyAll batch).applyAll batch = store.applyAll batch := by
  funext entity aspect
  by_cases concerned : ∃ p ∈ batch, (entity, aspect) = p.target
  · obtain ⟨p, hp, same⟩ := concerned
    cases same
    have upsert := upserts p hp
    rw [applyAll_of_mem _ distinct hp, applyAll_of_mem _ distinct hp,
      Proposal.documentAfter_of_upsert upsert, Proposal.documentAfter_of_upsert upsert]
  · exact applyAll_of_notMem _ fun p hp same => concerned ⟨p, hp, same⟩

end Store

end LakeCatalog.Catalog
