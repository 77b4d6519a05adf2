import LakeCatalog.Proofs.Catalog.SchemaBatch
import LakeCatalog.Proofs.Service.PropertiesUpdate
import LakeCatalog.Proofs.Service.Proposing
import LakeCatalog.Proofs.Table.PropertyKeys
import LakeCatalog.Settings

/-!
# The keys of submitted properties

Properties come to the catalog from requests, which may not have blank keys, from the settings and
the table, and as the marker of a commit. The settings are not asked for their keys as requests are:
an entry without a name is published under the empty key. That is the only blank key that reaches
the catalog.
-/

namespace LakeCatalog

open Catalog Emission Sync Service

/-- A proposal asserts no properties with a blank key, or those that are derived of the table. -/
def FilledOrDerived (s : SyncSettings) (table : History) (p : Proposal) : Prop :=
  ∀ patch, p.aspect = .properties patch →
    (∀ key ∈ patch.properties.keys, ¬ IsBlankKey key) ∨
      ∃ time facts, (table time).facts = .ok facts ∧
        DerivedProperties.derive s facts = .ok patch.properties

section

variable (c : Client) (t : Transport) (table : History)

namespace Sync.Client

lemma filledOrDerived_schemaProposals (schema : Schema.TableSchema) :
    ∀ p ∈ c.publisher.schemaProposals schema, FilledOrDerived c.settings table p := by
  intro p mem patch asserted
  have upsert := Publisher.changeType_of_mem _ _ mem
  rw [Proposal.changeType, asserted] at upsert
  cases upsert

lemma filledOrDerived_propertiesProposal (name : Option String) {properties : Dictionary String}
    (known : (∀ key ∈ properties.keys, ¬ IsBlankKey key) ∨
      ∃ time facts, (table time).facts = .ok facts ∧
        DerivedProperties.derive c.settings facts = .ok properties) :
    ∀ p ∈ [c.publisher.propertiesProposal name properties],
      FilledOrDerived c.settings table p := by
  intro p mem patch asserted
  cases List.mem_singleton.mp mem
  cases asserted
  exact known

/-- The marker of a commit has a name. -/
lemma filledOrDerived_markerBatch (instant : String) :
    ∀ p ∈ c.markerBatch instant, FilledOrDerived c.settings table p := by
  have filled : Text.isAllBlank lastCommitKey = false := by decide +kernel
  refine c.filledOrDerived_propertiesProposal table _ (.inl fun key mem => ?_)
  obtain ⟨e, he, rfl⟩ := Dictionary.mem_keys_ofList.mp mem
  cases List.mem_singleton.mp he
  exact DerivedProperties.not_isBlankKey_iff.mpr filled

lemma syncSchema_proposes : c.syncSchema.Proposes table (FilledOrDerived c.settings table) := by
  intro time
  cases (table time).facts with
  | error fault => trivial
  | ok facts => exact ⟨c.filledOrDerived_schemaProposals table facts.schema, fun _ => trivial⟩

lemma syncProperties_proposes :
    c.syncProperties.Proposes table (FilledOrDerived c.settings table) := by
  intro time
  cases read : (table time).facts with
  | error fault => trivial
  | ok facts =>
    dsimp only
    cases derives : DerivedProperties.derive c.settings facts with
    | error fault => trivial
    | ok derived =>
      have known := c.filledOrDerived_propertiesProposal table (some c.identity.table)
        (.inr ⟨time, facts, read, derives⟩)
      exact ⟨known, fun _ => trivial⟩

lemma syncLastCommit_proposes :
    c.syncLastCommit.Proposes table (FilledOrDerived c.settings table) := by
  intro time
  cases (table time).lastCommit with
  | error fault => trivial
  | ok commit =>
    cases commit with
    | none => trivial
    | some instant => exact ⟨c.filledOrDerived_markerBatch table instant, fun _ => trivial⟩

lemma syncTable_proposes : c.syncTable.Proposes table (FilledOrDerived c.settings table) := by
  intro time
  cases read : (table time).facts with
  | error fault => trivial
  | ok facts =>
    dsimp only
    cases derives : DerivedProperties.derive c.settings facts with
    | error fault => trivial
    | ok derived =>
      have known := c.filledOrDerived_propertiesProposal table (some c.identity.table)
        (.inr ⟨time, facts, read, derives⟩)
      refine ⟨c.filledOrDerived_schemaProposals table facts.schema, fun outcomes => ?_⟩
      beta_reduce
      cases c.result "update_table_schema" outcomes with
      | error error => trivial
      | ok schema =>
        refine ⟨known, fun outcomes => ?_⟩
        beta_reduce
        cases c.result "update_table_properties" outcomes with
        | error error => trivial
        | ok properties =>
          intro time
          cases (table time).lastCommit with
          | error fault => trivial
          | ok commit =>
            cases commit with
            | none => trivial
            | some instant =>
              refine ⟨c.filledOrDerived_markerBatch table instant, fun outcomes => ?_⟩
              beta_reduce
              cases c.result "update_last_commit_time_synced" outcomes <;> trivial

lemma updateProperties_proposes {request : PropertiesRequest} (sound : request.IsSound) :
    (c.updateProperties request.name request.properties).Proposes table
      (FilledOrDerived c.settings table) :=
  ⟨c.filledOrDerived_propertiesProposal table request.name (.inl sound.keys), fun _ => trivial⟩

end Sync.Client

namespace Service

/-- What a route does proposes no blank key of its own. -/
lemma handle_proposes (scope : Scope) (r : Request) (route : Route) :
    (handle c scope r route).plan.Proposes table (FilledOrDerived c.settings table) := by
  cases route with
  | health | scope | lastSynced => trivial
  | syncTable => exact (c.syncTable_proposes table).map _
  | syncSchema => exact (c.syncSchema_proposes table).map _
  | syncLastCommit => exact (c.syncLastCommit_proposes table).map _
  | updateProperties =>
    obtain ⟨reply, same, -⟩ | ⟨request, asks, same⟩ := updateProperties_cases c scope r
    · rw [handle, same]
      trivial
    · rw [handle, same]
      exact (c.updateProperties_proposes table asks.sound).map _

lemma admission_proposes (scope : Scope) (r : Request) :
    (admission c scope r).job.plan.Proposes table (FilledOrDerived c.settings table) := by
  unfold admission
  cases Route.ofPath? r.path with
  | none => trivial
  | some route =>
    have handled := handle_proposes c table scope r route
    dsimp only
    by_cases admitted : route.methods.contains r.method = true
    · rw [admitted, Bool.not_true, if_neg Bool.false_ne_true]
      by_cases head : r.method = "HEAD"
      · rw [if_pos head]
        exact handled.map _
      · rw [if_neg head]
        exact handled
    · rw [Bool.not_eq_true] at admitted
      rw [admitted, Bool.not_false, if_pos rfl]
      trivial

/-- What the routes of a service let a caller ask for: any requests, and of the operations an update
of properties only as a request may ask for it. -/
def Activity.IsReachable : Activity → Prop
  | .operation (.updateProperties name properties) => PropertiesRequest.IsSound ⟨name, properties⟩
  | _ => True

lemma Activity.IsReachable.proposes {a : Activity} (reachable : a.IsReachable) :
    a.Proposes c t table (FilledOrDerived c.settings table) := by
  cases a with
  | requests group => exact fun r _ => admission_proposes c table _ r
  | operation o =>
    cases o with
    | updateSchema schema =>
      have emitted : (c.updateSchema schema).Proposes table (FilledOrDerived c.settings table) :=
        ⟨c.filledOrDerived_schemaProposals table schema, fun _ => trivial⟩
      exact emitted.map _
    | updateProperties name properties => exact (c.updateProperties_proposes table reachable).map _
    | syncSchema => exact (c.syncSchema_proposes table).map _
    | syncProperties => exact (c.syncProperties_proposes table).map _
    | syncLastCommit => exact (c.syncLastCommit_proposes table).map _
    | syncTable => exact (c.syncTable_proposes table).map _

end Service

end

/-- Of all properties that are submitted, whatever is asked of a service and whatever the table
says, only those that are derived of the table can have a blank key, and then it is the empty one
and an entry of the settings has no name. Such an entry always gives the derived properties the
empty key. -/
theorem blank_keys_come_from_nameless_entries (c : Client) (t : Transport) (patience : Patience)
    (table : History) (activities : List Activity)
    (reachable : ∀ a ∈ activities, a.IsReachable) :
    let nameless := KeyValues.HasNameless c.settings.tableProperties ∨
      KeyValues.HasNameless c.settings.serdeProperties
    (∀ p ∈ (performAll c t patience table activities .start).2.log.submitted,
      ∀ patch, p.aspect = .properties patch → ∀ key ∈ patch.properties.keys, IsBlankKey key →
        key = "" ∧ nameless ∧ ∃ time facts, (table time).facts = .ok facts ∧
          DerivedProperties.derive c.settings facts = .ok patch.properties) ∧
    ∀ facts derived, DerivedProperties.derive c.settings facts = .ok derived →
      ("" ∈ derived.keys ↔ nameless) := by
  intro nameless
  constructor
  · intro p mem patch asserted key listed blank
    have proposed := performAll_proposes activities .start
      (fun a ha => (reachable a ha).proposes c t table) (by simp [Log.Proposes, Session.start,
        Log.submitted]) p mem patch asserted
    obtain filled | ⟨time, facts, read, derives⟩ := proposed
    · exact absurd blank (filled key listed)
    · obtain ⟨empty, named⟩ :=
        (DerivedProperties.isBlankKey_derived_iff derives key).mp ⟨blank, listed⟩
      exact ⟨empty, named, time, facts, read, derives⟩
  · intro facts derived derives
    have iff := DerivedProperties.isBlankKey_derived_iff derives ""
    rw [and_iff_right isBlankKey_empty, and_iff_right rfl] at iff
    exact iff

def promptCatalog : Transport := .behaving fun _ => .resolves .zero none

def ordersTable : History := fun _ => ⟨.ok Client.ordersFacts, .ok none⟩

def submittedFor (c : Client) (r : Request) : List Proposal :=
  (performAll c promptCatalog .endless ordersTable [.requests [r]] .start).2.log.submitted

/-- No key is blank where the settings name no properties. -/
theorem blank_keys_come_from_nameless_entries_of_orders :
    let c := Client.ofOrders true
    let update : Operation := .updateProperties none (.ofList [("owner", "sales")])
    let activities : List Activity := [.requests [⟨"POST", "/sync", [], .empty⟩], .operation update]
    (∀ a ∈ activities, a.IsReachable) ∧
      ∀ p ∈ (performAll c promptCatalog .endless ordersTable activities .start).2.log.submitted,
        ∀ patch, p.aspect = .properties patch → ∀ key ∈ patch.properties.keys,
          ¬ IsBlankKey key := by
  intro c update activities
  have owner : (⟨none, .ofList [("owner", "sales")]⟩ : PropertiesRequest).IsSound :=
    PropertiesRequest.problems_eq_nil_iff.mp (by decide +kernel)
  have reachable : ∀ a ∈ activities, a.IsReachable := by
    intro a mem
    rcases List.mem_cons.mp mem with rfl | mem
    · trivial
    · cases List.mem_singleton.mp mem
      exact owner
  have unnamed : ¬ KeyValues.HasNameless "" := by decide +kernel
  refine ⟨reachable, fun p mem patch asserted key listed blank => ?_⟩
  obtain ⟨-, nameless | nameless, -⟩ := (blank_keys_come_from_nameless_entries c promptCatalog
    .endless ordersTable activities reachable).1 p mem patch asserted key listed blank
  · exact unnamed nameless
  · exact unnamed nameless

def ordersEnvironment (properties : String) : Settings.Lookup := fun name =>
  [("SYNC_DATABASE_NAME", "sales"), ("SYNC_TABLE_NAME", "orders"),
    ("SYNC_BASE_PATH", "/data/sales/orders"),
    ("DATAHUB_TABLE_PROPERTIES", properties)].lookup name

def assertedKeys (p : Proposal) : List String :=
  match p.aspect with
  | .properties patch => patch.properties.keys
  | _ => []

lemma exists_patch_of_mem_assertedKeys {p : Proposal} {key : String} (mem : key ∈ assertedKeys p) :
    ∃ patch, p.aspect = .properties patch ∧ key ∈ patch.properties.keys := by
  unfold assertedKeys at mem
  split at mem
  · rename_i patch asserted
    exact ⟨patch, asserted, mem⟩
  · cases mem

/-- The settings of a service may hold an entry without a name, and then the empty key is submitted
with the next sync of the table. -/
theorem nameless_entry_reaches_catalog :
    ∃ settings c, Settings.load (ordersEnvironment "=v") = .ok settings ∧
      Client.of settings.sync = .ok c ∧
      ∃ p ∈ submittedFor c ⟨"POST", "/sync", [], .empty⟩, ∃ patch, p.aspect = .properties patch ∧
        ∃ key ∈ patch.properties.keys, IsBlankKey key := by
  have loads : (Settings.load (ordersEnvironment "=v")).isOk = true := by decide +kernel
  cases loaded : Settings.load (ordersEnvironment "=v") with
  | error fault => rw [loaded] at loads; cases loads
  | ok settings =>
    have submits : (Settings.load (ordersEnvironment "=v")).toOption.any (fun settings =>
        (Client.of settings.sync).toOption.any fun c =>
          (submittedFor c ⟨"POST", "/sync", [], .empty⟩).any
            fun p => "" ∈ assertedKeys p) = true := by
      decide +kernel
    rw [loaded] at submits
    cases made : Client.of settings.sync with
    | error fault => simp [Except.toOption, made] at submits
    | ok c =>
      simp only [Except.toOption, made, Option.any_some, List.any_eq_true, decide_eq_true_eq]
        at submits
      obtain ⟨p, mem, listed⟩ := submits
      obtain ⟨patch, asserted, named⟩ := exists_patch_of_mem_assertedKeys listed
      exact ⟨settings, c, rfl, made, p, mem, patch, asserted, "", named, isBlankKey_empty⟩

end LakeCatalog
