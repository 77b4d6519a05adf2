import LakeCatalog.Proofs.Sync.TableCourse

/-!
# Full syncs and their parts

A full sync of a table that does not change does what its three parts do one after the other, up to
the first error: the same openings and submissions at the same instants, with the same results. The
parts read the facts and derive the properties themselves, each at its own instant, where a full
sync does so once and before anything is sent.
-/

namespace LakeCatalog.Sync

open Catalog Emission

def TableReport.runs (r : TableReport) : Run × Run × Option Run :=
  (r.schema, r.properties, r.lastCommit)

namespace Client

section

variable {c : Client} {t : Transport} {timeout : Duration} {s after : Session} {a : Attempt}
  {facts : TableFacts} {derived : Dictionary String} {instant : String}
  {result : Except SyncError Run} (table : History)

lemma run_syncSchema (read : (table s.now).facts = .ok facts)
    (ran : c.SchemaRan t timeout facts s a result after) :
    c.syncSchema.run t timeout table s = (result, after) := by
  have emitted := ran.run_emitBatch table
  simp only [syncSchema, Plan.run, read]
  exact emitted

lemma run_syncProperties (read : (table s.now).facts = .ok facts)
    (derives : DerivedProperties.derive c.settings facts = .ok derived)
    (ran : c.PropertiesRan t timeout derived s a result after) :
    c.syncProperties.run t timeout table s = (result, after) := by
  have emitted := ran.run_emitBatch table
  simp only [syncProperties, Plan.run, read, derives]
  exact emitted

lemma run_syncLastCommit (commit : (table s.now).lastCommit = .ok (some instant))
    (ran : c.MarkerRan t timeout instant s a result after) :
    c.syncLastCommit.run t timeout table s = (result.map some, after) := by
  have emitted := ran.run_emitBatch table
  simp only [run_emitBatch, Prod.mk.injEq] at emitted
  obtain ⟨reported, session⟩ := emitted
  simp only [syncLastCommit, emitMarker, Plan.run, commit, reported, session]

end

/-- The three parts of a full sync one after the other, up to the first error. -/
def syncParts (c : Client) (t : Transport) (timeout : Duration) (table : History) (s : Session) :
    Except SyncError (Run × Run × Option Run) × Session :=
  match c.syncSchema.run t timeout table s with
  | (.error error, s) => (.error error, s)
  | (.ok schema, s) =>
    match c.syncProperties.run t timeout table s with
    | (.error error, s) => (.error error, s)
    | (.ok properties, s) =>
      match c.syncLastCommit.run t timeout table s with
      | (.error error, s) => (.error error, s)
      | (.ok marker, s) => (.ok (schema, properties, marker), s)

section

variable {c : Client} {t : Transport} {timeout : Duration} {table : Table} {s ended : Session}
  {result : Except SyncError TableReport} {emitted : List Attempt}

lemma syncParts_of_published {facts : TableFacts} {derived : Dictionary String} {a b : Attempt}
    {schema properties : Run} {s₁ s₂ : Session} (read : table.facts = .ok facts)
    (derives : DerivedProperties.derive c.settings facts = .ok derived)
    (first : c.SchemaRan t timeout facts s a (.ok schema) s₁)
    (second : c.PropertiesRan t timeout derived s₁ b (.ok properties) s₂) :
    let last := c.syncLastCommit.run t timeout (fun _ => table) s₂
    c.syncParts t timeout (fun _ => table) s =
      (last.1.map (schema, properties, ·), last.2) := by
  intro last
  have published := run_syncSchema (fun _ => table) read first
  have described := run_syncProperties (fun _ => table) read derives second
  simp only [syncParts, published, described, last]
  cases c.syncLastCommit.run t timeout (fun _ => table) s₂ with
  | mk marker s₃ => cases marker <;> rfl

lemma TableCourse.syncParts
    (course : c.TableCourse t timeout (fun _ => table) s result emitted ended) {facts : TableFacts}
    {derived : Dictionary String} (prepares : c.prepared table = .ok (facts, derived)) :
    c.syncParts t timeout (fun _ => table) s = (result.map TableReport.runs, ended) := by
  obtain ⟨read, derives⟩ := prepared_eq_ok_iff.mp prepares
  -- The table does not change, so every part finds what the full sync has found.
  have found {facts' : TableFacts} {derived' : Dictionary String}
      (prepared : c.prepared table = .ok (facts', derived')) :
      facts = facts' ∧ derived = derived' :=
    Prod.mk.inj (Except.ok.inj (prepares.symm.trans prepared))
  cases course with
  | unprepared prepared => cases prepares.symm.trans prepared
  | schemaFailed prepared first =>
    obtain ⟨rfl, rfl⟩ := found prepared
    simp only [Client.syncParts, run_syncSchema (fun _ => table) read first]
    rfl
  | propertiesFailed prepared first second =>
    obtain ⟨rfl, rfl⟩ := found prepared
    simp only [Client.syncParts, run_syncSchema (fun _ => table) read first,
      run_syncProperties (fun _ => table) read derives second]
    rfl
  | commitUnread prepared first second commit =>
    obtain ⟨rfl, rfl⟩ := found prepared
    rw [syncParts_of_published read derives first second]
    simp only [syncLastCommit, Plan.run, commit]
    rfl
  | noCommit prepared first second commit =>
    obtain ⟨rfl, rfl⟩ := found prepared
    rw [syncParts_of_published read derives first second]
    simp only [syncLastCommit, Plan.run, commit]
    rfl
  | markerFailed prepared first second commit third =>
    obtain ⟨rfl, rfl⟩ := found prepared
    rw [syncParts_of_published read derives first second,
      run_syncLastCommit (fun _ => table) commit third]
    rfl
  | marked prepared first second commit third =>
    obtain ⟨rfl, rfl⟩ := found prepared
    rw [syncParts_of_published read derives first second,
      run_syncLastCommit (fun _ => table) commit third]
    rfl

lemma TableCourse.lastCommitTime {report : TableReport}
    (course : c.TableCourse t timeout (fun _ => table) s (.ok report) emitted ended) :
    table.lastCommit = .ok report.lastCommitTime := by
  cases course with
  | noCommit _ _ _ commit => exact commit
  | marked _ _ _ commit _ => exact commit

end

def ordersFacts : TableFacts where
  kind := .copyOnWrite
  version := "6"
  basePath := "/data/sales/orders"
  partitionFields := []
  fileFormat := .parquet
  schema := ⟨"orders", none, [], "\x7b\"type\":\"record\",\"name\":\"orders\",\"fields\":[]\x7d"⟩

def ofOrders (suppressErrors : Bool) : Client :=
  let settings : SyncSettings :=
    { database := "sales"
      table := "orders"
      basePath := "/data/sales/orders"
      partitionFields := none
      fileFormat := none
      sparkVersion := none
      schemaPartLength := 4000
      serdeProperties := ""
      tableProperties := ""
      domain := none
      suppressErrors
      undoSoftDelete := true
      emitTimeoutSeconds := 30
      environment := "PROD"
      platform := "hudi"
      metadataStart := "_hoodie_" }
  let identity : TableIdentity :=
    { dataset := ⟨"urn:li:dataset:(urn:li:dataPlatform:hudi,sales.orders,PROD)", by decide +kernel⟩
      container := ⟨"urn:li:container:d92ebf959275c0884004a672db83f5fc", by decide +kernel⟩
      platform := ⟨"urn:li:dataPlatform:hudi", by decide +kernel⟩
      table := "orders"
      database := "sales" }
  ⟨settings, .ofSettings settings identity⟩

/-- A full sync of a table that does not change, and that can be described, does what its parts do
one after the other up to the first error. It leaves the same session behind, with every opening and
submission at the same instant, and it reports their runs or the error at which they end, together
with the last commit of the table. -/
theorem syncTable_agrees_with_parts (c : Client) (t : Transport) (timeout : Duration)
    (table : Table) (s : Session) {facts : TableFacts} {derived : Dictionary String}
    (read : table.facts = .ok facts)
    (derives : DerivedProperties.derive c.settings facts = .ok derived) :
    let whole := c.syncTable.run t timeout (fun _ => table) s
    let parts := c.syncParts t timeout (fun _ => table) s
    whole.2 = parts.2 ∧ whole.1.map TableReport.runs = parts.1 ∧
      ∀ report, whole.1 = .ok report → table.lastCommit = .ok report.lastCommitTime := by
  intro whole parts
  have course := c.syncTable_course t timeout (fun _ => table) s
  have agree : parts = (whole.1.map TableReport.runs, whole.2) :=
    course.syncParts (prepared_eq_ok_iff.mpr ⟨read, derives⟩)
  refine ⟨congrArg Prod.snd agree.symm, congrArg Prod.fst agree.symm, fun report reported => ?_⟩
  rw [show (c.syncTable.run t timeout (fun _ => table) s).1 = .ok report from reported] at course
  exact course.lastCommitTime

/-- A full sync and its parts both give up at the properties where their proposal hangs. -/
theorem syncTable_agrees_with_parts_of_orders :
    let c := Client.ofOrders false
    let table : Table := ⟨.ok ordersFacts, .ok (some "20240502100000000")⟩
    let t : Transport := .behaving fun n => if n = 9 then .hangs else .resolves .zero none
    let whole := c.syncTable.run t c.settings.emitTimeout (fun _ => table) .start
    let parts := c.syncParts t c.settings.emitTimeout (fun _ => table) .start
    table.facts = .ok ordersFacts ∧
    (∃ derived, DerivedProperties.derive c.settings ordersFacts = .ok derived) ∧
    whole.2 = parts.2 ∧ whole.1.map TableReport.runs = parts.1 ∧
    whole.1.isOk = false ∧ parts.2.log.opens = 2 ∧ parts.2.now = c.settings.emitTimeout := by
  intro c table t whole parts
  obtain ⟨derived, derives⟩ :
      ∃ derived, DerivedProperties.derive c.settings ordersFacts = .ok derived := ⟨_, rfl⟩
  obtain ⟨session, result, -⟩ := syncTable_agrees_with_parts c t c.settings.emitTimeout table .start
    (rfl : table.facts = .ok ordersFacts) derives
  refine ⟨rfl, ⟨derived, derives⟩, session, result, ?_⟩
  decide +kernel

end Client

end LakeCatalog.Sync
