import LakeCatalog.Proofs.Catalog.SchemaBatch
import LakeCatalog.Proofs.Urn

/-!
# Domains that are attached

Reading a URN, checking a text before anything is read and reading a JSON string accept the same
texts. So the domain of a configuration is attached, to the container and to the dataset alike,
exactly if the check of the configuration finds nothing wrong with it.
-/

namespace LakeCatalog

lemma SyncSettings.domainUrn_of_configured {s : SyncSettings} {raw : String}
    (configured : s.domain = some raw) : s.domainUrn = Urn.parse? raw := by
  have attaches : s.attachesDomain = !Text.isAllBlank raw := by rw [attachesDomain, configured]
  rw [domainUrn, configured]
  by_cases blank : Text.isAllBlank raw = true
  · -- A blank text is no URN either.
    have invalid : Urn.isValid raw = false := by
      rw [Urn.isValid, Text.trimmed, String.toList_ofList, (Text.isAllBlank_iff raw).mp blank]
      rfl
    rw [← Urn.parse?_isSome, Option.isSome_eq_false_iff, Option.isNone_iff_eq_none] at invalid
    simp [attaches, blank, invalid]
  · simp [attaches, blank]

namespace Catalog

/-- A batch attaches a domain to the container and to the dataset of a table. -/
def AttachesDomain (batch : List Proposal) (identity : TableIdentity) (domain : Urn) : Prop :=
  ⟨.container, identity.container, .domains [domain]⟩ ∈ batch ∧
    ⟨.dataset, identity.dataset, .domains [domain]⟩ ∈ batch

namespace Publisher

variable (p : Publisher) (schema : Schema.TableSchema)

lemma attachesDomain_iff {domain : Urn} :
    AttachesDomain (p.schemaProposals schema) p.identity domain ↔ p.domain = some domain := by
  cases hu : p.undoSoftDelete <;> cases hd : p.domain <;>
    simp [AttachesDomain, schemaProposals, containerProposals, datasetProposals, containerAspects,
      datasetAspects, statusAspects, domainAspects, hu, hd, eq_comm]

/-- Without a domain nothing about domains is proposed. -/
lemma name_ne_of_mem {p : Publisher} (without : p.domain = none) {schema : Schema.TableSchema} :
    ∀ q ∈ p.schemaProposals schema, q.aspect.name ≠ "domains" := by
  have unchanged : { p with domain := none } = p := by rw [← without]
  have left := schemaProposals_without_domain p schema
  rw [unchanged, eq_comm, List.filter_eq_self] at left
  exact fun q mem => by simpa using left q mem

end Publisher

/-- A text is read as a URN exactly if it is spelled as one once the blanks around it are off; the
check of a configuration and the reader of JSON accept the same texts. The URN is the text without
these blanks, it is spelled from its entity type and its key only, and it is read as itself. The
domain of a configuration is attached to both entities if it passes the check, and otherwise to
none. -/
theorem urn_readers_agree :
    (∀ raw : String,
      ((∃ urn, Urn.parse raw = .ok urn) ↔
        ∃ entityType key, Urn.Spells (Text.trimmed raw) entityType key) ∧
      (Urn.isValid raw = true ↔ ∃ urn, Urn.parse raw = .ok urn) ∧
      ∀ urn, Urn.ofJson? (.string raw) = some urn ↔ Urn.parse raw = .ok urn) ∧
    (∀ (raw : String) (urn : Urn), Urn.parse raw = .ok urn →
      urn.text = Text.trimmed raw ∧
      (∀ entityType key, Urn.Spells urn.text entityType key ↔
        entityType = urn.entityType ∧ key = urn.key) ∧
      Urn.parse urn.text = .ok urn) ∧
    ∀ (s : SyncSettings) (identity : TableIdentity) (schema : Schema.TableSchema) (raw : String),
      s.domain = some raw →
      let batch := (Publisher.ofSettings s identity).schemaProposals schema
      (∀ domain, AttachesDomain batch identity domain ↔ Urn.parse raw = .ok domain) ∧
      (Urn.isValid raw = true ↔ ∃ domain, AttachesDomain batch identity domain) ∧
      (Urn.isValid raw = false → ∀ p ∈ batch, p.aspect.name ≠ "domains") := by
  refine ⟨fun raw => ?_, fun raw urn read => ?_, ?_⟩
  · refine ⟨?_, Urn.isValid_iff, fun urn => ?_⟩
    · rw [← Urn.isValid_iff, Urn.isValid_iff_spells]
    · rw [Urn.ofJson?_string, Urn.parse_eq_ok_iff, Urn.parse?_eq_some_iff]
  · refine ⟨Urn.parse_eq_ok_iff.mp read, fun entityType key => Urn.spells_text_iff, ?_⟩
    exact Urn.parse_eq_ok_iff.mpr (Urn.trimmed_text read).symm
  · intro s identity schema raw configured batch
    have domain : (Publisher.ofSettings s identity).domain = Urn.parse? raw :=
      SyncSettings.domainUrn_of_configured configured
    have attached (urn : Urn) : AttachesDomain batch identity urn ↔ Urn.parse raw = .ok urn := by
      rw [Urn.parse_eq_ok_iff, ← Urn.parse?_eq_some_iff, ← domain]
      exact (Publisher.ofSettings s identity).attachesDomain_iff schema
    refine ⟨attached, ?_, fun invalid => Publisher.name_ne_of_mem ?_⟩
    · simp only [attached, Urn.isValid_iff]
    · rwa [domain, ← Option.isNone_iff_eq_none, ← Option.isSome_eq_false_iff, Urn.parse?_isSome]

/-- A domain with a colon and a blank in its key is attached without the blanks around it. -/
theorem urn_readers_agree_on_domain :
    let raw := "\u3000urn:li:domain:sales:north east\n"
    let orders := Sync.Client.ofOrders true
    let s := { orders.settings with domain := some raw }
    ∃ urn, Urn.parse raw = .ok urn ∧ urn.text = "urn:li:domain:sales:north east" ∧
      urn.entityType = "domain" ∧ Urn.parse urn.text = .ok urn ∧
      AttachesDomain ((Publisher.ofSettings s orders.identity).schemaProposals
        Sync.Client.ordersFacts.schema) orders.identity urn := by
  intro raw orders s
  obtain ⟨readers, reading, attaching⟩ := urn_readers_agree
  obtain ⟨urn, read⟩ := (readers raw).2.1.mp (by decide)
  obtain ⟨text, spelled, again⟩ := reading raw urn read
  have bare : urn.text = "urn:li:domain:sales:north east" := text.trans (by decide)
  have spells : Urn.Spells urn.text "domain" "sales:north east" :=
    Urn.spells_iff.mpr (bare ▸ by decide)
  have attached := attaching s orders.identity Sync.Client.ordersFacts.schema raw rfl
  exact ⟨urn, read, bare, ((spelled _ _).mp spells).1.symm, again, (attached.1 urn).mpr read⟩

end Catalog

end LakeCatalog
